/-
  MethanFV.Utility.Varient.Assignment — `operator=` when the copy throws, and when the source is the
  target or inside it.

    * `FailsSafely`            — what a failed assignment should leave behind;
    * `assign_threw_unsafe`    — it never does: the target is left as a second owner of the source's
                                 payload;
    * `AssignsContent`         — the assignment is defined, and the target holds what the source held;
    * `assign_aliased_iff`     — with an aliased source, this is so iff the target owns no payload.
-/
import MethanFV.Utility.Varient.Ledger

namespace Methan

open Cpp

variable {B D : Type} [DecidableEq B] {E : Runtime B D} {σ σ' : Store B D} {os : Objects B D}

/-! ## §1. A copy that throws. -/

/-- What is left by an assignment `a = b` that threw is sound: the source is unchanged, no payload
has two owners, an owner owns a live payload of its type, and whatever the program does next is
defined, so that no payload is destroyed twice. -/
structure FailsSafely (E : Runtime B D) (σ σ' : Store B D) (a b : Nat) : Prop where
  source : σ'.varients b = σ.varients b
  unshared : ∀ p x y, FlaggedOwner σ' a p x → ¬ FlaggedOwner σ' b p y
  owners : ∀ l v, l = a ∨ l = b → σ'.varients l = some v → v.owner = true →
    ∃ p, Owns E.toTypeInfo σ' l p
  later : ∀ ops σ'' op fault, Steps E σ' ops σ'' → Allowed σ'' E op → exec E op σ'' ≠ .fault fault

/-- What an assignment that threw does leave. -/
theorem assign_threw (hI : E.Separates) {ops : List (Op B D)} (h : Run E ops σ) {a b : Nat}
    (ha : Allowed σ E (.assign a b)) {x : Thrown} (hexec : exec E (.assign a b) σ = .threw x σ') :
    Shared σ σ' a b := by
  have hg : E.Keeps fun _ => () := fun _ _ _ _ _ => rfl
  obtain ⟨os, -, hos⟩ := run_holds hI hg h
  obtain ⟨s, u, hfa, hfb, hbs, hau⟩ := hos.apart ha
  have hassign := assign_meets hos hg hfa hfb hbs hau
  rw [show assign E σ.next a b σ = .threw x σ' from hexec] at hassign
  exact hassign.2

/-- **A failed assignment is never sound.** -/
theorem assign_threw_unsafe (hI : E.Separates) {ops : List (Op B D)} (h : Run E ops σ) {a b : Nat}
    (ha : Allowed σ E (.assign a b)) {x : Thrown} (hexec : exec E (.assign a b) σ = .threw x σ') :
    ¬ FailsSafely E σ σ' a b := by
  obtain ⟨v, p, hv, ho, hd, hva, hvb, hp⟩ := assign_threw hI h ha hexec
  intro hsafe
  have hledger := (run_ledger hI h).1
  obtain ⟨q, ⟨w, x, hw, hwd, hx, -⟩, -⟩ := (hledger.flag b v hv).mp ho
  -- `v` is the source's old value, so that its payload is live
  obtain rfl : v = w := Option.some.inj (hv.symm.trans hw)
  obtain rfl : p = q := Address.heap.inj (hd.symm.trans hwd)
  have hx' := hp.trans hx
  exact hsafe.unshared p x x ⟨v, hva, ho, hd, hx'⟩ ⟨v, hvb, ho, hd, hx'⟩

omit [DecidableEq B] in
/-- Where payloads hold only data, no Varient is stored inside another one. -/
theorem not_inside_of_data (h : ∀ p x, σ.heap p = some x → Field.varients x.fields = [])
    {l m : Nat} : ¬ Inside σ m l := by
  intro hi
  obtain ⟨k, ⟨p, x, ⟨v, -, -, -, hx⟩, hm⟩, -⟩ := Relation.TransGen.head'_iff.mp hi
  rw [h p x hx] at hm
  cases hm

/-- The second copy of an object throws. -/
def secondThrows : Runtime Unit Nat := oneClass fun n _ d => if n = 1 then none else some d

/-- `Varient b(T(7)); Varient a(nullptr);` and then `a = b`: the destructors of `a` and `b` both
delete the payload of `b`. -/
theorem secondThrows_run : ∃ σ σ' σ'' : Store Unit Nat,
    Run secondThrows ([.construct (.value () [.data 7])] ++ [.construct .null]) σ ∧
      Allowed σ secondThrows (.assign 2 0) ∧ exec secondThrows (.assign 2 0) σ = .threw .copy σ' ∧
      (∃ x, FlaggedOwner σ' 2 1 x ∧ FlaggedOwner σ' 0 1 x) ∧
      exec secondThrows (.destroy 2) σ' = .ok () σ'' ∧
      exec secondThrows (.destroy 0) σ'' = .fault .doubleFree := by
  have hfirst : Run secondThrows ([] ++ [.construct (.value () [.data 7])]) _ :=
    .returned .nil ⟨Or.inl rfl, fun _ hm => by cases hm⟩ rfl
  refine ⟨_, _, _, .returned hfirst trivial rfl, ?_, rfl, ?_, rfl, rfl⟩
  · have hdata : ∀ (p : Nat) (x : Payload Unit Nat), Function.update (fun _ => none) 1
        (some ⟨.base false (), [.data 7]⟩) p = some x → Field.varients x.fields = [] := by
      intro p x hx
      by_cases hp : p = 1
      · rw [hp, Function.update_self, Option.some.injEq] at hx
        rw [← hx]
        rfl
      · rw [Function.update_of_ne hp] at hx
        cases hx
    exact ⟨⟨_, rfl⟩, ⟨_, rfl⟩, by decide, not_inside_of_data hdata, not_inside_of_data hdata⟩
  · exact ⟨_, ⟨_, rfl, rfl, rfl, rfl⟩, ⟨_, rfl, rfl, rfl, rfl⟩⟩

theorem assign_threw_unsafe_second : ∃ σ σ' : Store Unit Nat,
    ¬ FailsSafely secondThrows σ σ' 2 0 := by
  obtain ⟨σ, σ', -, hrun, ha, hexec, -⟩ := secondThrows_run
  exact ⟨σ, σ', assign_threw_unsafe (oneClass_separates _) hrun ha hexec⟩

/-- The failed assignment leaves two owners, and the program ends with a double free. -/
theorem assign_double_free : ∃ σ σ' σ'' : Store Unit Nat,
    Run secondThrows ([.construct (.value () [.data 7])] ++ [.construct .null]) σ ∧
      Allowed σ secondThrows (.assign 2 0) ∧ exec secondThrows (.assign 2 0) σ = .threw .copy σ' ∧
      ¬ FailsSafely secondThrows σ σ' 2 0 ∧ exec secondThrows (.destroy 2) σ' = .ok () σ'' ∧
      exec secondThrows (.destroy 0) σ'' = .fault .doubleFree := by
  obtain ⟨σ, σ', σ'', hrun, ha, hexec, ⟨x, hxa, hxb⟩, hda, hdb⟩ := secondThrows_run
  exact ⟨σ, σ', σ'', hrun, ha, hexec, fun hsafe => hsafe.unshared 1 x x hxa hxb, hda, hdb⟩

/-! ## §2. A source that is the target or inside it. -/

/-- The assignment is defined, and every query of the target gives what it gave of the source. -/
def AssignsContent (E : Runtime B D) (σ : Store B D) (a b : Nat) : Prop :=
  ∃ (σ' : Store B D) (v v' : Varient B) (t t' : Tree B D), exec E (.assign a b) σ = .ok () σ' ∧
    σ.varients b = some v ∧ σ'.varients a = some v' ∧ Observes E.toTypeInfo σ v t ∧
    Observes E.toTypeInfo σ' v' t' ∧ t'.value id = t.value id

/-- What `a = b` does first to the payload that `a` owns and to the Varients inside it. -/
theorem Holds.destruct (h : Holds E.toTypeInfo σ os) {a : Nat} {s : Tree B D} {v : Varient B}
    (hf : os.find a = some s) (hv : σ.varients a = some v) :
    ∃ σ₁, Methan.destruct (destroyVarient σ.next) v σ = .ok () σ₁ ∧
      Change σ σ₁ s.members.locs s.payloads [] [] := by
  obtain rfl : s.loc = a := (Objects.find_some hf).1
  obtain ⟨_, σ₁, hd, hc⟩ := ((destroys E.toTypeInfo σ.next).destruct (h.represents.find hf) hv
    (Nat.le_succ_of_le (h.find_depth hf)) (h.has_find hf)).returns
  exact ⟨σ₁, hd, hc⟩

/-- An owner that is assigned to itself copies from the payload that it has just destroyed. -/
theorem assign_self_fault (h : Holds E.toTypeInfo σ os) {a : Nat} {v : Varient B}
    (hv : σ.varients a = some v) (ho : v.owner = true) :
    exec E (.assign a a) σ = .fault .useAfterFree := by
  obtain ⟨s, hf⟩ := h.live_iff.mp ⟨v, hv⟩
  obtain ⟨σ₁, hd, hc⟩ := h.destruct hf hv
  have hr := h.represents.find hf
  obtain rfl : s.loc = a := (Objects.find_some hf).1
  have hwhole := hr.varient hv
  have hnot : s.loc ∉ s.members.locs := by
    have hn := (h.has_find hf).locs.1
    rw [s.locs_eq] at hn
    exact (List.nodup_cons.mp hn).1
  have hv₁ : σ₁.varients s.loc = some v := by
    rw [hc.varients.apply_eq hnot (h.has.varients.lt hv), hv]
  cases s with
  | empty l => simp [hwhole, Tree.varient] at ho
  | ptr l X x => simp [hwhole, Tree.varient] at ho
  | val l b p ms =>
      have hp : σ₁.heap p = none := hc.heap.gone p List.mem_cons_self (by simp)
      have hcopy : v.m_copy = some (.base false b) := by
        rw [hwhole]
        rfl
      have hdata : v.m_data = .heap p := by
        rw [hwhole]
        rfl
      simp only [exec, assign, hv, hd, Outcome.andThen_ok, hv₁, assignFields_eq, ho, if_true, runCopy,
        hcopy, hdata, Store.setVarient, hp, Outcome.andThen_fault]

/-- A source inside the target's payload is destroyed with it, before it is read. -/
theorem assign_inside_fault (h : Holds E.toTypeInfo σ os) {a b : Nat} (hi : Inside σ b a) :
    exec E (.assign a b) σ = .fault .deadVarient := by
  obtain ⟨k, -, p, x, ⟨v, hv, -⟩, -⟩ := Relation.TransGen.tail'_iff.mp hi
  obtain ⟨s, hf⟩ := h.live_iff.mp ⟨v, hv⟩
  obtain ⟨σ₁, hd, hc⟩ := h.destruct hf hv
  have hb : σ₁.varients b = none := hc.varients.gone b ((h.inside_iff hf).mp hi) (by simp)
  simp only [exec, assign, hv, hd, Outcome.andThen_ok, hb]

/-- Without a payload, the assignment writes back what is there. -/
theorem assign_self_ok {a : Nat} {v : Varient B} (hv : σ.varients a = some v)
    (ho : v.owner = false) : exec E (.assign a a) σ = .ok () σ := by
  have hsame : σ.setVarient a v = σ := by
    rw [Store.setVarient, ← hv, Function.update_eq_self]
  simp only [exec, assign, hv, destruct_of_not_owner ho, Outcome.andThen_ok, assignFields_eq, ho,
    Bool.false_eq_true, if_false, hsame]

/-- **An aliased assignment does what it should iff the target owns no payload.** -/
theorem assign_aliased_iff (hI : E.Separates) {ops : List (Op B D)} (h : Run E ops σ) {a b : Nat}
    {v : Varient B} (hv : σ.varients a = some v) (hab : b = a ∨ Inside σ b a) :
    AssignsContent E σ a b ↔ v.owner = false := by
  have hg : E.Keeps fun _ => () := fun _ _ _ _ _ => rfl
  obtain ⟨os, -, hos⟩ := run_holds hI hg h
  constructor
  · intro hall
    obtain ⟨σ', w, w', t, t', hexec, -⟩ := hall
    by_contra ho
    have ho : v.owner = true := Bool.of_not_eq_false ho
    rcases hab with rfl | hi
    · cases (assign_self_fault hos hv ho).symm.trans hexec
    · cases (assign_inside_fault hos hi).symm.trans hexec
  · intro ho
    rcases hab with rfl | hi
    · obtain ⟨s, hf⟩ := hos.live_iff.mp ⟨v, hv⟩
      obtain rfl : s.loc = b := (Objects.find_some hf).1
      have hobs := (hos.represents.find hf).observes hI hv
      exact ⟨σ, v, v, s, s, assign_self_ok hv ho, hv, hv, hobs, hobs, rfl⟩
    · -- only an owner has Varients inside
      obtain ⟨k, -, p, x, ⟨w, hw, how, -⟩, -⟩ := Relation.TransGen.tail'_iff.mp hi
      rw [hw, Option.some.injEq] at hv
      rw [← hv, how] at ho
      cases ho

/-- A pointer is assigned to itself. -/
theorem assign_aliased_pointer : ∃ σ : Store Unit Nat,
    Run (oneClass fun _ _ d => some d) ([] ++ [.construct (.pointer (.base true ()) (.object 5))]) σ ∧
      AssignsContent (oneClass fun _ _ d => some d) σ 0 0 := by
  have hrun : Run (oneClass fun _ _ d => some d)
      ([] ++ [.construct (.pointer (.base true ()) (.object 5))]) _ :=
    .returned .nil (Or.inr (Or.inr rfl)) rfl
  refine ⟨_, hrun, (assign_aliased_iff (oneClass_separates _) hrun rfl (Or.inl rfl)).mpr ?_⟩
  exact Varient.owner_ofPointer _ _ _

/-- An object is assigned to itself, and an object that holds an empty Varient is assigned that
Varient. -/
theorem assign_use_after_free : ∃ σ τ : Store Unit Nat,
    Run (oneClass fun _ _ d => some d) ([] ++ [.construct (.value () [.data 7])]) σ ∧
      exec (oneClass fun _ _ d => some d) (.assign 0 0) σ = .fault .useAfterFree ∧
      ¬ AssignsContent (oneClass fun _ _ d => some d) σ 0 0 ∧
    Run (oneClass fun _ _ d => some d) ([.construct .null] ++ [.construct (.value () [.varient 0])]) τ ∧
      Inside τ 3 1 ∧ exec (oneClass fun _ _ d => some d) (.assign 1 3) τ = .fault .deadVarient ∧
      ¬ AssignsContent (oneClass fun _ _ d => some d) τ 1 3 := by
  have hself : Run (oneClass fun _ _ d => some d) ([] ++ [.construct (.value () [.data 7])]) _ :=
    .returned .nil ⟨Or.inl rfl, fun _ hm => by cases hm⟩ rfl
  have hnull : Run (oneClass fun _ _ d => some d) ([] ++ [.construct .null]) _ :=
    .returned .nil trivial rfl
  have hlive : ∀ m ∈ Field.varients (D := Nat) [.varient 0], m = 0 := by simp [Field.varients]
  refine ⟨_, _, hself, rfl, ?_, .returned hnull ⟨Or.inl rfl, fun m hm => ?_⟩ rfl, ?_, rfl, ?_⟩
  · intro hall
    obtain ⟨σ', v, v', t, t', hexec, -⟩ := hall
    cases hexec
  · rw [hlive m hm]
    exact ⟨_, rfl⟩
  · exact .single ⟨2, _, ⟨_, rfl, rfl, rfl, rfl⟩, List.mem_singleton.mpr rfl⟩
  · intro hall
    obtain ⟨σ', v, v', t, t', hexec, -⟩ := hall
    cases hexec

end Methan
