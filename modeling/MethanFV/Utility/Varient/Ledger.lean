/-
  MethanFV.Utility.Varient.Ledger — who owns which payload, in every state of every run.

    * `Owns`        — a Varient owns a live payload, with a destructor and a copier of its type;
    * `Ledger`      — owners and payloads are in one-to-one correspondence, and what is not owned
                      was destroyed once;
    * `run_ledger`  — the ledger is in order after every run, and no step is undefined.
-/
import MethanFV.Utility.Varient.Simulation

namespace Methan

open Cpp

variable {B D : Type} {I : TypeInfo B} {σ : Store B D} {os : Objects B D}

/-! ## §1. Ownership. -/

/-- The Varient at `l` owns the payload at `p`: the payload is live, and its type is the one that
the Varient was made for. -/
def Owns (I : TypeInfo B) (σ : Store B D) (l p : Nat) : Prop :=
  ∃ v x, σ.varients l = some v ∧ v.m_data = .heap p ∧ σ.heap p = some x ∧
    v.m_typeId = I.hash_code x.type ∧ v.m_destructor = some x.type ∧ v.m_copy = some x.type

/-- The ledger of payloads is in order. -/
structure Ledger (I : TypeInfo B) (σ : Store B D) : Prop where
  /-- `IsDataOwner` tells the owners. -/
  flag : ∀ l v, σ.varients l = some v → (v.owner = true ↔ ∃! p, Owns I σ l p)
  unique : ∀ l l' p, Owns I σ l p → Owns I σ l' p → l = l'
  /-- A payload is owned, or it was destroyed. -/
  once : ∀ p ∈ σ.created, (σ.destroyed.count p = 0 ∧ ∃! l, Owns I σ l p) ∨
    (σ.destroyed.count p = 1 ∧ σ.heap p = none)
  created : ∀ p x, σ.heap p = some x → p ∈ σ.created

theorem Represents.owns_iff {t : Tree B D} (h : Represents I σ t) {p : Nat} :
    Owns I σ t.loc p ↔ ∃ b ms, t = .val t.loc b p ms := by
  constructor
  · intro hall
    obtain ⟨v, x, hv, hd, -, -, hdes, -⟩ := hall
    have heq := h.varient hv
    subst heq
    cases t with
    | empty l => cases hdes
    | ptr l X a =>
        have hnone : (Varient.ofPointer I X a).m_destructor = none := by
          unfold Varient.ofPointer
          split <;> rfl
        cases hnone.symm.trans hdes
    | val l b q ms =>
        obtain rfl : q = p := Address.heap.inj hd
        exact ⟨b, ms, rfl⟩
  · intro hall
    obtain ⟨b, ms, ht⟩ := hall
    rw [ht] at h ⊢
    exact ⟨_, _, h.1, rfl, h.2.2.1, rfl, rfl, rfl⟩

mutual

/-- Every payload of a value is owned by a Varient of it. -/
theorem Represents.owner_of_mem {p : Nat} : ∀ {t : Tree B D}, Represents I σ t →
    p ∈ t.payloads → ∃ l, Owns I σ l p
  | .empty _, _, hp => by simp [Tree.payloads] at hp
  | .ptr _ _ _, _, hp => by simp [Tree.payloads] at hp
  | .val l b q members, h, hp => by
      rcases List.mem_cons.mp hp with rfl | hp
      · exact ⟨l, h.owns_iff.mpr ⟨b, members, rfl⟩⟩
      · exact h.2.2.2.owner_of_mem hp

theorem RepresentsAll.owner_of_mem {p : Nat} : ∀ {o : Objects B D}, RepresentsAll I σ o →
    p ∈ o.payloads → ∃ l, Owns I σ l p
  | .nil, _, hp => by simp [Objects.payloads] at hp
  | .data _ rest, h, hp => RepresentsAll.owner_of_mem (o := rest) h hp
  | .varient t rest, h, hp => by
      rcases List.mem_append.mp hp with hp | hp
      · exact h.1.owner_of_mem hp
      · exact h.2.owner_of_mem hp

end

theorem Owns.live {l p : Nat} (h : Owns I σ l p) : Live σ l := by
  obtain ⟨v, -, hv, -⟩ := h
  exact ⟨v, hv⟩

/-- In the forest, the owner of `p` is an object at `p`. -/
theorem Holds.find_owner (h : Holds I σ os) {l p : Nat} (ho : Owns I σ l p) :
    ∃ b ms, os.find l = some (.val l b p ms) := by
  obtain ⟨s, hf⟩ := h.live_iff.mp ho.live
  obtain rfl : s.loc = l := (Objects.find_some hf).1
  obtain ⟨b, ms, hs⟩ := (h.represents.find hf).owns_iff.mp ho
  exact ⟨b, ms, hs ▸ hf⟩

/-- An owner of `p` has no other owner of `p` inside. -/
theorem Holds.owner_not_inside (h : Holds I σ os) {l l' p : Nat} {b : B} {ms : Objects B D}
    (hf : os.find l = some (.val l b p ms)) (ho' : Owns I σ l' p) : l' ∉ ms.locs := by
  intro hm
  obtain ⟨s, hs⟩ := Objects.find_of_mem hm
  obtain rfl : s.loc = l' := (Objects.find_some hs).1
  have hr := (h.represents.find hf).members.find hs
  obtain ⟨c, ns, hval⟩ := hr.owns_iff.mp ho'
  have hp : p ∈ ms.payloads := (Objects.find_some hs).2.2.1 (by
    rw [hval]
    exact List.mem_cons_self)
  exact (List.nodup_cons.mp (h.has_find hf).payloads.1).1 hp

theorem Holds.owner_unique (h : Holds I σ os) {l l' p : Nat} (ho : Owns I σ l p)
    (ho' : Owns I σ l' p) : l = l' := by
  by_contra hne
  obtain ⟨b, ms, hf⟩ := h.find_owner ho
  obtain ⟨b', ms', hf'⟩ := h.find_owner ho'
  have hl' : l' ∉ (Tree.val l b p ms).locs := fun hm => by
    rcases List.mem_cons.mp hm with heq | hm
    · exact hne heq.symm
    · exact h.owner_not_inside hf ho' hm
  have hl : l ∉ (Tree.val l' b' p ms').locs := fun hm => by
    rcases List.mem_cons.mp hm with heq | hm
    · exact hne heq
    · exact h.owner_not_inside hf' ho hm
  -- two objects that are not nested have different addresses
  exact (Objects.find_disjoint hl' hl hf hf' h.has.locs.1 h.has.payloads.1).2 p
    List.mem_cons_self List.mem_cons_self

/-- A store that holds a forest has its ledger in order. -/
theorem Holds.ledger_ok (h : Holds I σ os) : Ledger I σ where
  flag l v hv := by
    obtain ⟨s, hf⟩ := h.live_iff.mp ⟨v, hv⟩
    obtain rfl : s.loc = l := (Objects.find_some hf).1
    have hr := h.represents.find hf
    have hwhole := hr.varient hv
    subst hwhole
    constructor
    · intro ho
      cases s with
      | empty l => simp [Tree.varient] at ho
      | ptr l X a => simp [Tree.varient] at ho
      | val l b p ms =>
          refine ⟨p, hr.owns_iff.mpr ⟨b, ms, rfl⟩, fun q hq => ?_⟩
          obtain ⟨c, ns, heq⟩ := hr.owns_iff.mp hq
          cases heq
          rfl
    · intro hall
      obtain ⟨p, ho, -⟩ := hall
      obtain ⟨b, ms, hs⟩ := hr.owns_iff.mp ho
      rw [hs]
      exact Varient.owner_ofPayload I _ p
  unique l l' p := h.owner_unique
  once p hp := by
    have hone : σ.created.count p = 1 := List.count_eq_one_of_mem h.created.1 hp
    rw [h.ledger.count_eq, List.count_append] at hone
    by_cases hmem : p ∈ os.payloads
    · left
      have hpos := List.count_pos_iff.mpr hmem
      obtain ⟨l, hl⟩ := h.represents.owner_of_mem hmem
      exact ⟨by omega, l, hl, fun l' hl' => h.owner_unique hl' hl⟩
    · right
      rw [List.count_eq_zero_of_not_mem hmem] at hone
      exact ⟨by omega, h.freed p hmem⟩
  created p x hx := by
    by_cases hmem : p ∈ os.payloads
    · exact h.ledger.mem_iff.mpr (List.mem_append_left _ hmem)
    · rw [h.freed p hmem] at hx
      cases hx

/-! ## §2. Runs. -/

variable [DecidableEq B] {E : Runtime B D}

/-- **Ownership.**  After every run the ledger is in order, and whatever the program does next is
defined: in particular, nothing is copied from or destroyed after its destruction. -/
theorem run_ledger (hI : E.Separates) {ops : List (Op B D)} (h : Run E ops σ) :
    Ledger E.toTypeInfo σ ∧
      ∀ op, Allowed σ E op → ∀ fault, exec E op σ ≠ .fault fault := by
  have hg : E.Keeps fun _ => () := fun _ _ _ _ _ => rfl
  obtain ⟨os, -, hos⟩ := run_holds hI hg h
  exact ⟨hos.ledger_ok, fun op ha => (exec_meets hI hg hos ha).not_fault⟩

theorem run_ledger_copied : ∃ σ : Store Unit Nat, Ledger (oneClass fun _ _ d => some d).toTypeInfo σ ∧
    ∀ op, Allowed σ (oneClass fun _ _ d => some d) op →
      ∀ fault, exec (oneClass fun _ _ d => some d) op σ ≠ .fault fault := by
  obtain ⟨σ, hσ⟩ := oneClass_copied
  exact ⟨σ, run_ledger (oneClass_separates _) hσ⟩

end Methan
