/-
  MethanFV.Utility.Varient.Simulation — the operations of a program, on the store and on the forest.

    * `Holds.inside_iff`  — a Varient is stored inside another one iff its location is in the tree;
    * `construct_meets`, `assign_meets`, `destroy_meets`, `write_meets`, `insert_meets`,
      `erase_meets`       — what each operation does when the store holds a forest;
    * `exec_meets`        — **one step**: the store of the next state holds the next forest.
-/
import MethanFV.Utility.Varient.Abstract
import MethanFV.Utility.Varient.Lifetime
import MethanFV.Utility.Varient.Queries

namespace Methan

open Cpp

variable {B D G : Type} {I : TypeInfo B} {σ σ' : Store B D} {os : Objects B D}

/-! ## §1. Nesting. -/

theorem Represents.members {t : Tree B D} (h : Represents I σ t) : RepresentsAll I σ t.members := by
  cases t with
  | empty l => trivial
  | ptr l X a => trivial
  | val l b p ms => exact h.2.2.2

/-- Only an object makes its Varient an owner. -/
theorem Represents.flaggedOwner_iff {t : Tree B D} (h : Represents I σ t) {p : Nat}
    {x : Payload B D} : FlaggedOwner σ t.loc p x ↔
      ∃ b ms, t = .val t.loc b p ms ∧ x = ⟨.base false b, ms.fields⟩ := by
  constructor
  · intro hall
    obtain ⟨v, hv, ho, hd, hx⟩ := hall
    have heq := h.varient hv
    subst heq
    cases t with
    | empty l => simp [Tree.varient] at ho
    | ptr l X a => simp [Tree.varient] at ho
    | val l b q ms =>
        obtain rfl : q = p := Address.heap.inj hd
        exact ⟨b, ms, rfl, Option.some.inj (hx.symm.trans h.2.2.1)⟩
  · intro hall
    obtain ⟨b, ms, ht, hx⟩ := hall
    rw [ht] at h
    exact ⟨_, h.1, Varient.owner_ofPayload I _ p, rfl, hx ▸ h.2.2.1⟩

theorem Represents.member_iff {t : Tree B D} (h : Represents I σ t) {m : Nat} :
    Member σ m t.loc ↔ ∃ u ∈ t.members.trees, u.loc = m := by
  constructor
  · intro hall
    obtain ⟨p, x, ho, hm⟩ := hall
    obtain ⟨b, ms, ht, rfl⟩ := h.flaggedOwner_iff.mp ho
    rw [ms.varients_fields] at hm
    rw [ht]
    exact List.mem_map.mp hm
  · intro hu
    cases t with
    | empty l => simp [Tree.members, Objects.trees] at hu
    | ptr l X a => simp [Tree.members, Objects.trees] at hu
    | val l b p ms =>
        refine ⟨p, _, h.flaggedOwner_iff.mpr ⟨b, ms, rfl, rfl⟩, ?_⟩
        rw [ms.varients_fields]
        exact List.mem_map.mpr hu

theorem Represents.inside_of_mem : ∀ (n : Nat) {t : Tree B D} {m : Nat}, t.depth ≤ n →
    Represents I σ t → m ∈ t.members.locs → Inside σ m t.loc
  | 0, t, m, hn, _, _ => by
      rw [t.depth_eq] at hn
      omega
  | n + 1, t, m, hn, h, hm => by
      rw [Objects.locs_eq] at hm
      obtain ⟨u, hu, hmu⟩ := List.mem_flatMap.mp hm
      have hlast : Member σ u.loc t.loc := h.member_iff.mpr ⟨u, hu, rfl⟩
      rw [u.locs_eq] at hmu
      rcases List.mem_cons.mp hmu with rfl | hmu
      · exact .single hlast
      · have hdepth := Objects.depth_le u hu
        rw [t.depth_eq] at hn
        have hr := representsAll_iff.mp h.members u hu
        exact (Represents.inside_of_mem n (by omega) hr hmu).tail hlast

theorem Represents.mem_of_inside {m l : Nat} (hi : Inside σ m l) : ∀ {t : Tree B D},
    Represents I σ t → t.loc = l → m ∈ t.members.locs := by
  induction hi with
  | single hm =>
      intro t h hl
      subst hl
      obtain ⟨u, hu, rfl⟩ := h.member_iff.mp hm
      exact Objects.mem_locs hu u.loc_mem
  | tail _ hm ih =>
      intro t h hl
      subst hl
      obtain ⟨u, hu, hloc⟩ := h.member_iff.mp hm
      have hmem := ih (representsAll_iff.mp h.members u hu) hloc
      refine Objects.mem_locs hu ?_
      rw [u.locs_eq]
      exact List.mem_cons_of_mem _ hmem

/-- A Varient is stored inside another one iff it is below it in the forest. -/
theorem Holds.inside_iff (h : Holds I σ os) {l m : Nat} {s : Tree B D} (hf : os.find l = some s) :
    Inside σ m l ↔ m ∈ s.members.locs := by
  have hr := h.represents.find hf
  have hl := (Objects.find_some hf).1
  exact ⟨fun hi => Represents.mem_of_inside hi hr hl,
    fun hm => hl ▸ Represents.inside_of_mem s.depth (Nat.le_refl _) hr hm⟩

/-- What is no member of an object is a variable. -/
theorem Holds.root (h : Holds I σ os) {l : Nat} (hl : l ∈ os.locs) (hm : ∀ k, ¬ Member σ l k) :
    ∃ t ∈ os.trees, t.loc = l := by
  rw [os.locs_eq] at hl
  obtain ⟨t, ht, hlt⟩ := List.mem_flatMap.mp hl
  rw [t.locs_eq] at hlt
  rcases List.mem_cons.mp hlt with rfl | hlt
  · exact ⟨t, ht, rfl⟩
  · have hr := representsAll_iff.mp h.represents t ht
    have hi := Represents.inside_of_mem t.depth (Nat.le_refl _) hr hlt
    obtain ⟨k, hk, -⟩ := Relation.TransGen.head'_iff.mp hi
    exact absurd hk (hm k)

theorem Holds.live_iff (h : Holds I σ os) {l : Nat} : Live σ l ↔ ∃ s, os.find l = some s :=
  ⟨fun hv => Objects.find_of_mem (h.live.mpr hv), fun hs => h.live.mp (Objects.find_mem hs.choose_spec)⟩

theorem Holds.depth_le (h : Holds I σ os) : os.depth ≤ σ.next :=
  Nat.le_trans os.depth_le_length h.has.locs.length_le

theorem Holds.find_depth (h : Holds I σ os) {l : Nat} {s : Tree B D} (hf : os.find l = some s) :
    s.depth ≤ σ.next :=
  Nat.le_trans (Objects.find_some hf).2.2.2 h.depth_le

/-- The objects of one Varient. -/
theorem Holds.has_find (h : Holds I σ os) {l : Nat} {s : Tree B D} (hf : os.find l = some s) :
    σ.Has s.locs s.payloads := by
  obtain ⟨K, Q, hK, hQ, -⟩ := Objects.replace_split hf h.has.locs.1
  exact (h.has.perm hK hQ).left

theorem Holds.represents_gather (h : Holds I σ os) {fs : List (Field D)} {ms : Objects B D}
    (hg : os.gather fs = some ms) : RepresentsAll I σ ms := by
  refine representsAll_iff.mpr fun t ht => ?_
  obtain ⟨m, hm⟩ := Objects.find_of_gather hg ht
  exact h.represents.find hm

theorem Holds.gather_depth (h : Holds I σ os) {fs : List (Field D)} {ms : Objects B D}
    (hg : os.gather fs = some ms) : ms.depth ≤ σ.next := by
  refine Objects.depth_le_of fun t ht => ?_
  obtain ⟨m, hm⟩ := Objects.find_of_gather hg ht
  exact h.find_depth hm

/-! ## §2. Construction and destruction. -/

variable [DecidableEq B] {E : Runtime B D} {g : D → G}

theorem construct_meets (h : Holds E.toTypeInfo σ os) (hg : E.Keeps g) {init : Init B D}
    (ha : Allowed σ E (.construct init)) :
    (construct E σ.next init σ).Meets (fun _ σ' => ∃ c t, os.content init = some c ∧
      t.value g = c.value g ∧ Holds E.toTypeInfo σ' (.varient t os)) (Undone E σ) := by
  have hb := h.has.toBounded
  cases init with
  | null =>
      exact ⟨_, .empty σ.next, rfl, rfl, h.push (change_newVarient hb _) (Function.update_self ..)⟩
  | pointer X a =>
      exact ⟨_, .ptr σ.next X a, rfl, rfl,
        h.push (change_newVarient hb _) ⟨Function.update_self .., ha⟩⟩
  | value b members =>
      obtain ⟨hu, hm⟩ := ha
      obtain ⟨ms, hms⟩ := os.gather_some members fun m hm' => h.live.mpr (hm m hm')
      have hnew := (copies E g hg σ.next).newVarient (destroys E.toTypeInfo σ.next) hg hu 0 0
        (h.represents_gather hms) (h.gather_depth hms) hb
      rw [Objects.gather_fields hms] at hnew
      refine hnew.mono (fun _ σ' hσ' => ?_) fun _ _ hσ' => hσ'
      obtain ⟨t, -, hc⟩ := hσ'
      refine ⟨.val 0 b 0 ms, t, ?_, hc.value, h.push hc.change hc.represents⟩
      rw [Objects.content, hms, Option.map_some]
  | copy other =>
      obtain ⟨s, hs⟩ := h.live_iff.mp ha
      have hcopy := copies E g hg σ.next s σ (h.represents.find hs) (h.find_depth hs) hb
      rw [(Objects.find_some hs).1] at hcopy
      refine hcopy.mono (fun _ σ' hσ' => ?_) fun _ _ hσ' => hσ'
      obtain ⟨t, -, hc⟩ := hσ'
      exact ⟨s, t, hs, hc.value, h.push hc.change hc.represents⟩

theorem destroy_meets (h : Holds E.toTypeInfo σ os) {l : Nat}
    (ha : Allowed σ E (.destroy l)) :
    (destroyVarient σ.next l σ).Meets (fun _ σ' => Holds E.toTypeInfo σ' (os.remove l))
      fun _ _ => False := by
  obtain ⟨hl, hm⟩ := ha
  obtain ⟨t, ht, rfl⟩ := h.root (h.live.mpr hl) hm
  have hf := Objects.find_root h.has.locs.1 t ht
  have hd := destroys E.toTypeInfo σ.next t σ (h.represents.find hf) (h.find_depth hf)
    (h.has_find hf)
  refine hd.mono (fun _ σ' hc => ?_) fun _ _ h => h
  have hperm := Objects.remove_perm h.has.locs.1 ht
  have hlocs : os.locs.Perm (t.locs ++ (os.remove t.loc).locs) := by
    simpa using Objects.locs_perm (show os.trees.Perm ([t] ++ _) from hperm)
  have hpay : os.payloads.Perm (t.payloads ++ (os.remove t.loc).payloads) := by
    simpa using Objects.payloads_perm (show os.trees.Perm ([t] ++ _) from hperm)
  -- the other variables share nothing with this one
  have hrest := representsAll_iff.mpr fun u hu =>
    representsAll_iff.mp h.represents u (hperm.mem_iff.mpr (List.mem_cons_of_mem _ hu))
  exact h.change hc hlocs hpay (.refl _) (.refl _) (hrest.apart hc (h.has.perm hlocs hpay))

/-! ## §3. Assignment. -/

/-- After an assignment that threw, the target is a second owner of the source's payload. -/
def Shared (σ σ' : Store B D) (a b : Nat) : Prop :=
  ∃ v p, σ.varients b = some v ∧ v.owner = true ∧ v.m_data = .heap p ∧
    σ'.varients a = some v ∧ σ'.varients b = some v ∧ σ'.heap p = σ.heap p

omit [DecidableEq B] in
/-- `other`, which is not nested in the target, is as it was when the target's old content is gone,
and the target holds a copy of its fields. -/
theorem assign_overwrite (h : Holds I σ os) {a b : Nat} {s u : Tree B D}
    (hfa : os.find a = some s) (hfb : os.find b = some u) (hbs : b ∉ s.locs) (hau : a ∉ u.locs)
    {σ₁ : Store B D} (hc : Change σ σ₁ s.members.locs s.payloads [] []) (v : Varient B) :
    Represents I σ₁ u ∧ Represents I (σ₁.setVarient a v) u ∧
      Change σ (σ₁.setVarient a v) s.locs s.payloads [a] [] := by
  have hs := h.has_find hfa
  have hloc : s.loc = a := (Objects.find_some hfa).1
  obtain ⟨hdl, hdp⟩ := Objects.find_disjoint hbs hau hfa hfb h.has.locs.1 h.has.payloads.1
  have hu₁ : Represents I σ₁ u := by
    refine (h.represents.find hfb).change hc hs.toBounded (fun i hi hm => ?_)
      fun i hi hm => hdp i hm hi
    refine hdl i ?_ hi
    rw [s.locs_eq]
    exact List.mem_cons_of_mem _ hm
  have hsplit : s.locs.Perm (s.members.locs ++ [a]) := by
    rw [s.locs_eq, hloc]
    exact (List.perm_append_singleton a _).symm
  have hs' : σ.Has (s.members.locs ++ [a]) (s.payloads ++ []) :=
    hs.perm hsplit (by rw [List.append_nil])
  have hframe := hc.frame hs'
  have hset := change_setVarient (σ := σ₁) a v
  refine ⟨hu₁, hu₁.change hset (hframe.has hs').toBounded ?_ (by simp), ?_⟩
  · intro i hi hm
    rw [List.mem_singleton.mp hm] at hi
    exact hau hi
  · exact (hframe.trans hset hs.toBounded).perm hsplit.symm (by rw [List.append_nil]) (.refl _)
      (.refl _)

theorem assign_meets (h : Holds E.toTypeInfo σ os) (hg : E.Keeps g) {a b : Nat} {s u : Tree B D}
    (hfa : os.find a = some s) (hfb : os.find b = some u) (hbs : b ∉ s.locs) (hau : a ∉ u.locs) :
    (assign E σ.next a b σ).Meets
      (fun _ σ' => ∃ t, t.loc = a ∧ t.value g = u.value g ∧ Holds E.toTypeInfo σ' (os.replace a t))
      (fun _ σ' => ¬ E.NoThrow ∧ Shared σ σ' a b) := by
  have hs := h.has_find hfa
  have hra := h.represents.find hfa
  have hrb := h.represents.find hfb
  obtain rfl : s.loc = a := (Objects.find_some hfa).1
  obtain rfl : u.loc = b := (Objects.find_some hfb).1
  obtain ⟨this, hthis⟩ := hra.live
  have hd := (destroys E.toTypeInfo σ.next).destruct hra hthis
    (Nat.le_succ_of_le (h.find_depth hfa)) hs
  simp only [assign, hthis]
  refine hd.andThen (fun _ σ₁ hc => ?_) fun _ _ h => h.elim
  obtain ⟨other, hother⟩ := hrb.live
  obtain ⟨hu₁, hu₂, hc₂⟩ := assign_overwrite h hfa hfb hbs hau hc other
  have hother₁ : σ₁.varients u.loc = some other := by
    obtain ⟨w, hw⟩ := hu₁.live
    rw [hw, hu₁.varient hw, hrb.varient hother]
  have hwhole : other = u.varient E.toTypeInfo := hrb.varient hother
  simp only [hother₁, assignFields_eq]
  generalize hσ₂ : σ₁.setVarient s.loc other = σ₂ at hu₂ hc₂ ⊢
  have ha₂ : σ₂.varients s.loc = some other := by
    rw [← hσ₂]
    exact Function.update_self ..
  cases u with
  | empty l =>
      subst hwhole
      simp only [Tree.varient, Varient.owner_ofNull, Bool.false_eq_true, if_false]
      exact ⟨.empty s.loc, rfl, rfl, h.replace hfa rfl hc₂ ha₂⟩
  | ptr l X x =>
      subst hwhole
      simp only [Tree.varient, Varient.owner_ofPointer, Bool.false_eq_true, if_false]
      exact ⟨.ptr s.loc X x, rfl, rfl, h.replace hfa rfl hc₂ ⟨ha₂, hrb.2⟩⟩
  | val l c q ms =>
      obtain ⟨hl₂, hu, hq, hms⟩ := hu₂
      subst hwhole
      have hrun : runCopy E (copyVarient E σ.next) (destroyVarient σ.next) (some (.base false c))
          (.heap q) σ₂ = newPayload E (copyVarient E σ.next) (destroyVarient σ.next)
            (.base false c) ms.fields σ₂ := by
        simp [runCopy, hq]
      simp only [Tree.varient, Varient.owner_ofPayload, if_true]
      show (Outcome.andThen (runCopy E (copyVarient E σ.next) (destroyVarient σ.next)
        (some (.base false c)) (.heap q) σ₂) _).Meets _ _
      rw [hrun]
      have hs₂ : σ₂.Has [s.loc] [] := hc₂.has hs
      have hdepth : ms.depth ≤ σ.next := Nat.le_of_succ_le (h.find_depth hfb)
      refine ((copies E g hg σ.next).newPayload (destroys E.toTypeInfo σ.next) hg (.base false c)
        hms hdepth hs₂.toBounded).andThen (fun p σ₃ hσ₃ => ?_) fun _ σ₃ hσ₃ => ?_
      · obtain ⟨ns, hp, hv, hns, hc₃⟩ := hσ₃
        have hbuilt := (hc₂.andThen [] [] hc₃ hs).perm (.refl _) (.refl _)
          List.perm_append_comm (by rw [List.append_nil])
        have hnot : s.loc ∉ ns.locs := (List.nodup_cons.mp hbuilt.varients.nodup).1
        refine ⟨.val s.loc c p ns, rfl, ?_, h.replace hfa rfl (hbuilt.andThen [s.loc] []
          (change_setVarient s.loc _) hs) ⟨Function.update_self .., hu, hp, ?_⟩⟩
        · rw [Tree.value, Tree.value, hv]
        · refine hns.frame (fun i hi => Function.update_of_ne (fun heq => ?_) _ _) fun _ _ => rfl
          exact hnot (heq ▸ hi)
      · -- the fields are written, and the payload is still the source's
        have hkeepv : ∀ i w, σ₂.varients i = some w → σ₃.varients i = some w := fun i w hw => by
          rw [hσ₃.change.varients.apply_eq (by simp) (hs₂.varients.lt hw), hw]
        have hkeep : σ₃.heap q = σ.heap q := by
          rw [hσ₃.change.heap.apply_eq (by simp) (hs₂.heap.lt hq), hq, hrb.2.2.1]
        exact ⟨hσ₃.throws, _, q, hother, Varient.owner_ofPayload _ _ q, rfl, hkeepv _ _ ha₂,
          hkeepv _ _ hl₂, hkeep⟩

/-! ## §4. Mutation in place. -/

/-- `get<T>()` throws unless the Varient holds an object of type T. -/
theorem reach_threw {l : Nat} {T : ObjectType B} {v : Varient B} {e : Exception}
    (hv : σ.varients l = some v) (hget : v.get E.toTypeInfo T E.file false = .error e) :
    reach E l T σ = .threw (.methan e) σ := by
  simp only [reach, hv, hget]

theorem reach_ok {l p : Nat} {T : ObjectType B} {v : Varient B} {x : Payload B D}
    (hv : σ.varients l = some v)
    (hget : v.get E.toTypeInfo T E.file false = .ok (.object T (.heap p)))
    (hp : σ.heap p = some x) (hx : x.type = T.typeid) : reach E l T σ = .ok p σ := by
  simp only [reach, hv, hget, hp, hx, ne_eq, not_true_eq_false, if_false]

/-- The reference that `get<T>()` returns is the object that the Varient holds. -/
theorem reach_meets (hI : E.Separates) {s : Tree B D} (hr : Represents E.toTypeInfo σ s) {b : B}
    (hu : E.uses (.base false b)) : (reach E s.loc (.base false b) σ).Meets
      (fun p σ' => σ' = σ ∧ ∃ ms, s = .val s.loc b p ms)
      (fun _ σ' => σ' = σ ∧ ∀ p ms, s ≠ .val s.loc b p ms) := by
  obtain ⟨v, hv⟩ := hr.live
  have hwhole := hr.varient hv
  have hget := hr.get_eq hI hu E.file false
  rw [hr.is_eq hI hu, ← hwhole] at hget
  have hthrow : s.is (.base false b) = false →
      ∃ e, reach E s.loc (.base false b) σ = .threw (.methan e) σ := by
    intro hno
    rw [hno, if_neg Bool.false_ne_true] at hget
    cases hempty : v.isEmpty with
    | true => exact ⟨_, reach_threw hv (hget.trans (if_pos hempty))⟩
    | false => exact ⟨_, reach_threw hv (hget.trans (if_neg (Bool.eq_false_iff.mp hempty)))⟩
  cases s with
  | empty l =>
      obtain ⟨e, he⟩ := hthrow rfl
      rw [he]
      exact ⟨rfl, fun p ms h => by cases h⟩
  | ptr l X a =>
      obtain ⟨e, he⟩ :=
        hthrow (Bool.eq_false_iff.mpr fun h => Bool.false_ne_true (serves_pointer.mp h).1)
      rw [he]
      exact ⟨rfl, fun p ms h => by cases h⟩
  | val l c p ms =>
      by_cases hc : c = b
      · subst hc
        have hne : ¬ v.isEmpty = true := by
          intro h
          rw [hwhole] at h
          cases (hr.isEmpty_iff hI).mp h
        have hyes : (Tree.val l c p ms).is (.base false c) = true := serves_base.mpr rfl
        rw [if_neg hne, if_pos hyes, hwhole] at hget
        rw [reach_ok hv (by rw [hwhole]; exact hget) hr.2.2.1 rfl]
        exact ⟨rfl, ms, rfl⟩
      · have hno : (Tree.val l c p ms).is (.base false b) = false :=
          Bool.eq_false_iff.mpr fun h => by
            cases serves_base.mp h
            exact hc rfl
        obtain ⟨e, he⟩ := hthrow hno
        rw [he]
        exact ⟨rfl, fun p ms h => hc (by cases h; rfl)⟩

omit [DecidableEq B] in
/-- The members of an object are replaced by members made of the same Varients, less those at `L`,
which have been given up, and those at `L'`, which are new. -/
theorem Holds.refill (h : Holds I σ os) {l p : Nat} {b : B} {ms ms' : Objects B D}
    (hf : os.find l = some (.val l b p ms)) {L P L' P' K Q : List Nat} {σ₁ : Store B D}
    (hc : Change σ σ₁ L P L' P') (hL : ms.locs.Perm (L ++ K)) (hP : ms.payloads.Perm (P ++ Q))
    (hL' : ms'.locs.Perm (L' ++ K)) (hP' : ms'.payloads.Perm (P' ++ Q))
    (hr : RepresentsAll I σ₁ ms') {k : List (Field D) → List (Field D)}
    (hk : k ms.fields = ms'.fields) :
    (updateFields p k σ₁).Meets (fun _ σ' => Holds I σ' (os.replace l (.val l b p ms')))
      fun _ _ => False := by
  have hs := h.has_find hf
  obtain ⟨hl, hu, hp, -⟩ := h.represents.find hf
  -- the Varient and its payload are part of the frame
  have hsL : (l :: ms.locs).Perm (L ++ l :: K) := (hL.cons l).trans List.perm_middle.symm
  have hsP : (p :: ms.payloads).Perm (P ++ p :: Q) := (hP.cons p).trans List.perm_middle.symm
  have hs' : σ.Has (L ++ l :: K) (P ++ p :: Q) := hs.perm hsL hsP
  have hframe := (hc.frame hs').perm hsL.symm hsP.symm (List.perm_middle.trans (hL'.symm.cons l))
    (List.perm_middle.trans (hP'.symm.cons p))
  have hl₁ : σ₁.varients l = some (.ofPayload I (.base false b) p) := by
    rw [hc.varients.apply_eq (fun hm => ?_) (hs.varients.lt hl), hl]
    exact (List.nodup_append.mp hs'.locs.1).2.2 l hm l List.mem_cons_self rfl
  have hp₁ : σ₁.heap p = some ⟨.base false b, ms.fields⟩ := by
    rw [hc.heap.apply_eq (fun hm => ?_) (hs.heap.lt hp), hp]
    exact (List.nodup_append.mp hs'.payloads.1).2.2 p hm p List.mem_cons_self rfl
  have hnot : p ∉ ms'.payloads := (List.nodup_cons.mp hframe.heap.nodup).1
  have hset := hframe.andThen [] [p]
    (change_setPayload p ⟨.base false b, ms'.fields⟩) hs
  simp only [updateFields, hp₁, hk]
  refine h.replace hf rfl hset ⟨hl₁, hu, Function.update_self .., hr.frame (fun _ _ => rfl) ?_⟩
  intro i hi
  refine Function.update_of_ne (fun heq => ?_) _ _
  subst heq
  exact hnot hi

theorem write_meets (hI : E.Separates) (h : Holds E.toTypeInfo σ os) {l : Nat} {b : B}
    {fields : List (Field D)} (ha : Allowed σ E (.write l b fields)) :
    (write E l (.base false b) fields σ).Meets
      (fun _ σ' => ∃ os', Becomes g os (.write l b fields) os' ∧ Holds E.toTypeInfo σ' os')
      (fun _ σ' => σ' = σ ∧ Refused os (.write l b fields)) := by
  obtain ⟨hl, hu, hfields⟩ := ha
  obtain ⟨s, hf⟩ := h.live_iff.mp hl
  obtain rfl : s.loc = l := (Objects.find_some hf).1
  have hr := h.represents.find hf
  refine (reach_meets hI hr hu).andThen (fun p σ₁ hreach => ?_) fun _ σ₁ hreach => ?_
  · obtain ⟨rfl, ms, hs⟩ := hreach
    rw [hs] at hf
    have hperm := hfields p _ (hr.flaggedOwner_iff.mpr ⟨b, ms, hs, rfl⟩)
    have hn := (List.nodup_cons.mp (h.has_find hf).locs.1).2
    obtain ⟨ms', hms'⟩ := ms.gather_some fields fun m hm => by
      obtain ⟨u, hu, rfl⟩ := List.mem_map.mp (ms.varients_fields ▸ hperm.mem_iff.mp hm)
      exact Objects.mem_locs hu u.loc_mem
    have htrees := Objects.gather_perm hn [] hms' hperm.symm
    have hmem := (representsAll_iff.mp (h.represents.find hf).members)
    have hupd := h.refill hf (Change.refl h.has.toBounded.has) (.refl _) (.refl _)
      (Objects.locs_perm htrees).symm (Objects.payloads_perm htrees).symm
      (representsAll_iff.mpr fun u hu => hmem u (htrees.mem_iff.mpr hu))
      (k := fun _ => fields) (Objects.gather_fields hms').symm
    refine hupd.mono (fun _ σ' hσ' => ⟨_, ⟨p, ms, ms', hf, hms', rfl⟩, hσ'⟩) fun _ _ h => h.elim
  · refine ⟨hreach.1, fun p ms hf' => hreach.2 p ms ?_⟩
    exact Option.some.inj (hf.symm.trans hf')

theorem insert_meets (hI : E.Separates) (h : Holds E.toTypeInfo σ os) (hg : E.Keeps g)
    {l i other : Nat} {b : B} (ha : Allowed σ E (.insert l b i other)) :
    (insert E σ.next l (.base false b) i other σ).Meets
      (fun _ σ' => ∃ os', Becomes g os (.insert l b i other) os' ∧ Holds E.toTypeInfo σ' os')
      (fun _ σ' => (¬ E.NoThrow ∨ Refused os (.insert l b i other)) ∧ Holds E.toTypeInfo σ' os) := by
  obtain ⟨hl, hu, hother, hi⟩ := ha
  obtain ⟨s, hf⟩ := h.live_iff.mp hl
  obtain ⟨u, hfo⟩ := h.live_iff.mp hother
  obtain rfl : s.loc = l := (Objects.find_some hf).1
  obtain rfl : u.loc = other := (Objects.find_some hfo).1
  have hr := h.represents.find hf
  refine (reach_meets hI hr hu).andThen (fun p σ₁ hreach => ?_) fun _ σ₁ hreach => ?_
  · obtain ⟨rfl, ms, hs⟩ := hreach
    rw [hs] at hf
    have hlen := hi p _ (hr.flaggedOwner_iff.mpr ⟨b, ms, hs, rfl⟩)
    have hcopy := copies E g hg σ₁.next u σ₁ (h.represents.find hfo) (h.find_depth hfo)
      h.has.toBounded
    refine hcopy.andThen (fun m σ₂ hσ₂ => ?_) fun _ σ₂ hσ₂ =>
      ⟨Or.inl hσ₂.throws, h.same hσ₂.change⟩
    obtain ⟨t, rfl, hc⟩ := hσ₂
    -- the new member is one more tree of the pool
    have hms := (h.represents.find hf).members
    have hn : (Objects.varient t ms).locs.Nodup := by
      have hall := hc.change.frame (K := s.locs) (Q := s.payloads) (by rw [hs]; exact h.has_find hf)
      rw [hs] at hall
      exact hall.varients.nodup.sublist ((List.sublist_cons_self _ _).append_left t.locs)
    have hperm := Field.varients_insertIdx (l := t.loc) hlen
    obtain ⟨ms', hms'⟩ := (Objects.varient t ms).gather_some
      (ms.fields.insertIdx i (.varient t.loc)) fun m hm => by
        rcases List.mem_cons.mp (hperm.mem_iff.mp hm) with rfl | hm
        · exact List.mem_append_left _ t.loc_mem
        · obtain ⟨w, hw, rfl⟩ := List.mem_map.mp (ms.varients_fields ▸ hm)
          exact List.mem_append_right _ (Objects.mem_locs hw w.loc_mem)
    have htrees := Objects.gather_perm hn [] hms' hperm.symm
    have hms₂ := hms.grow hc.change h.has.toBounded
    have hupd := h.refill hf hc.change (.refl _) (.refl _)
      (Objects.locs_perm htrees).symm (Objects.payloads_perm htrees).symm
      (representsAll_iff.mpr fun w hw => ?_)
      (k := (·.insertIdx i (.varient t.loc))) (Objects.gather_fields hms').symm
    · refine hupd.mono (fun _ σ' hσ' => ⟨_, ⟨p, ms, u, t, ms', hf, hfo, hc.value, hms', rfl⟩, hσ'⟩)
        fun _ _ h => h.elim
    · rcases List.mem_cons.mp (htrees.mem_iff.mpr hw) with rfl | hw
      · exact hc.represents
      · exact representsAll_iff.mp hms₂ w hw
  · obtain ⟨rfl, hs⟩ := hreach
    refine ⟨Or.inr fun p ms hf' => hs p ms (Option.some.inj (hf.symm.trans hf')), h⟩

theorem erase_meets (hI : E.Separates) (h : Holds E.toTypeInfo σ os) {l i m : Nat} {b : B}
    (ha : Allowed σ E (.erase l b i m)) :
    (erase E σ.next l (.base false b) i m σ).Meets
      (fun _ σ' => ∃ os', Becomes g os (.erase l b i m) os' ∧ Holds E.toTypeInfo σ' os')
      (fun _ σ' => σ' = σ ∧ Refused os (.erase l b i m)) := by
  obtain ⟨hl, hu, hi⟩ := ha
  obtain ⟨s, hf⟩ := h.live_iff.mp hl
  obtain rfl : s.loc = l := (Objects.find_some hf).1
  have hr := h.represents.find hf
  refine (reach_meets hI hr hu).andThen (fun p σ₁ hreach => ?_) fun _ σ₁ hreach => ?_
  · obtain ⟨rfl, ms, hs⟩ := hreach
    rw [hs] at hf
    have hhas := h.has_find hf
    have hperm := Field.varients_eraseIdx (hi p _ (hr.flaggedOwner_iff.mpr ⟨b, ms, hs, rfl⟩))
    have hn := (List.nodup_cons.mp hhas.locs.1).2
    have hroots : ∀ k, k ∈ Field.varients ms.fields → ∃ w ∈ ms.trees, w.loc = k := fun k hk =>
      List.mem_map.mp (ms.varients_fields ▸ hk)
    obtain ⟨t, ht, rfl⟩ := hroots m (hperm.mem_iff.mpr List.mem_cons_self)
    obtain ⟨ms', hms'⟩ := ms.gather_some (ms.fields.eraseIdx i) fun k hk => by
      obtain ⟨w, hw, rfl⟩ := hroots k (hperm.mem_iff.mpr (List.mem_cons_of_mem _ hk))
      exact Objects.mem_locs hw w.loc_mem
    have htrees : ms.trees.Perm ([t] ++ ms'.trees) := by
      have htrees := Objects.gather_perm hn [t.loc] hms' hperm
      rwa [List.filterMap_cons_some (f := (ms.find ·)) (Objects.find_root hn t ht)] at htrees
    have hlocs : ms.locs.Perm (t.locs ++ ms'.locs) := by simpa using Objects.locs_perm htrees
    have hpay : ms.payloads.Perm (t.payloads ++ ms'.payloads) := by
      simpa using Objects.payloads_perm htrees
    have hparts := (Store.Has.right (L := [s.loc]) (P := [p]) hhas).perm hlocs hpay
    have hmem := representsAll_iff.mp (h.represents.find hf).members
    have hdepth : t.depth ≤ σ₁.next :=
      Nat.le_trans (Objects.depth_le t ht) (Nat.le_of_succ_le (h.find_depth hf))
    have hd := destroys E.toTypeInfo σ₁.next t σ₁ (hmem t ht) hdepth hparts.left
    refine hd.andThen (fun _ σ₂ hc => ?_) fun _ _ h => h.elim
    have hrest := representsAll_iff.mpr fun w hw =>
      hmem w (htrees.mem_iff.mpr (List.mem_append_right _ hw))
    have hupd := h.refill hf hc hlocs hpay (.refl _) (.refl _) (hrest.apart hc hparts)
      (k := (·.eraseIdx i)) (Objects.gather_fields hms').symm
    exact hupd.mono (fun _ σ' hσ' => ⟨_, ⟨p, ms, ms', hf, hms', rfl⟩, hσ'⟩) fun _ _ h => h.elim
  · refine ⟨hreach.1, fun p ms hf' => hreach.2 p ms ?_⟩
    exact Option.some.inj (hf.symm.trans hf')

/-! ## §5. Runs. -/

omit [DecidableEq B] in
/-- The Varients of an assignment that does not alias are apart in the forest. -/
theorem Holds.apart (h : Holds E.toTypeInfo σ os) {a b : Nat} (ha : Allowed σ E (.assign a b)) :
    ∃ s u, os.find a = some s ∧ os.find b = some u ∧ b ∉ s.locs ∧ a ∉ u.locs := by
  obtain ⟨hla, hlb, hne, hiab, hiba⟩ := ha
  obtain ⟨s, hfa⟩ := h.live_iff.mp hla
  obtain ⟨u, hfb⟩ := h.live_iff.mp hlb
  refine ⟨s, u, hfa, hfb, ?_, ?_⟩
  · rw [s.locs_eq, (Objects.find_some hfa).1]
    intro hm
    rcases List.mem_cons.mp hm with heq | hm
    · exact hne heq.symm
    · exact hiba ((h.inside_iff hfa).mpr hm)
  · rw [u.locs_eq, (Objects.find_some hfb).1]
    intro hm
    rcases List.mem_cons.mp hm with heq | hm
    · exact hne heq
    · exact hiab ((h.inside_iff hfb).mpr hm)

/-- **One step**: the next state holds the next forest.  An exception comes from a copy constructor
of the program, or from a `get<T>()` for an object that the Varient does not hold. -/
theorem exec_meets (hI : E.Separates) (hg : E.Keeps g) (h : Holds E.toTypeInfo σ os)
    {op : Op B D} (ha : Allowed σ E op) :
    (exec E op σ).Meets (fun _ σ' => ∃ os', AStep g os op os' ∧ Holds E.toTypeInfo σ' os')
      (fun _ σ' => (¬ E.NoThrow ∨ Refused os op) ∧
        (op.isAssign = false → Holds E.toTypeInfo σ' os)) := by
  cases op with
  | construct init =>
      refine (construct_meets h hg ha).andThen (fun _ σ' hσ' => ?_) fun _ σ' hσ' =>
        ⟨Or.inl hσ'.throws, fun _ => h.same hσ'.change⟩
      obtain ⟨c, t, hc, hv, h'⟩ := hσ'
      exact ⟨_, ⟨h'.has.locs.1, c, t, hc, hv, rfl⟩, h'⟩
  | assign a b =>
      obtain ⟨s, u, hfa, hfb, hbs, hau⟩ := h.apart ha
      refine (assign_meets h hg hfa hfb hbs hau).mono (fun _ σ' hσ' => ?_) fun _ σ' hσ' =>
        ⟨Or.inl hσ'.1, fun hno => by cases hno⟩
      obtain ⟨t, hloc, hv, h'⟩ := hσ'
      exact ⟨_, ⟨h'.has.locs.1, u, t, hfb, hloc, hv, rfl⟩, h'⟩
  | destroy l =>
      exact (destroy_meets h ha).mono (fun _ σ' h' => ⟨_, ⟨h'.has.locs.1, rfl⟩, h'⟩)
        fun _ _ hno => hno.elim
  | write l b fields =>
      refine (write_meets (g := g) hI h ha).mono (fun _ σ' hσ' => ?_) fun _ σ' hσ' =>
        ⟨Or.inr hσ'.2, fun _ => hσ'.1 ▸ h⟩
      obtain ⟨os', hb, h'⟩ := hσ'
      exact ⟨os', ⟨h'.has.locs.1, hb⟩, h'⟩
  | insert l b i other =>
      refine (insert_meets hI h hg ha).mono (fun _ σ' hσ' => ?_) fun _ σ' hσ' =>
        ⟨hσ'.1, fun _ => hσ'.2⟩
      obtain ⟨os', hb, h'⟩ := hσ'
      exact ⟨os', ⟨h'.has.locs.1, hb⟩, h'⟩
  | erase l b i m =>
      refine (erase_meets (g := g) hI h ha).mono (fun _ σ' hσ' => ?_) fun _ σ' hσ' =>
        ⟨Or.inr hσ'.2, fun _ => hσ'.1 ▸ h⟩
      obtain ⟨os', hb, h'⟩ := hσ'
      exact ⟨os', ⟨h'.has.locs.1, hb⟩, h'⟩

omit [DecidableEq B] in
theorem holds_empty : Holds I (.empty : Store B D) .nil where
  represents := trivial
  has := ⟨⟨fun _ _ => rfl, fun _ _ => rfl⟩, .nil, .nil⟩
  dead _ _ := rfl
  freed _ _ := rfl
  created := .nil
  ledger := .refl _

/-- **Every run** is a run of the abstract program, and its state holds the forest. -/
theorem run_holds (hI : E.Separates) (hg : E.Keeps g) {ops : List (Op B D)} (h : Run E ops σ) :
    ∃ os, ARun g (¬ E.NoThrow) ops os ∧ Holds E.toTypeInfo σ os := by
  induction h with
  | nil => exact ⟨.nil, .nil, holds_empty⟩
  | returned _ ha hexec ih =>
      obtain ⟨os, hrun, hos⟩ := ih
      have hstep := exec_meets hI hg hos ha
      rw [hexec] at hstep
      obtain ⟨os', ha', h'⟩ := hstep
      exact ⟨os', hrun.step ha', h'⟩
  | thrown _ ha hno hexec ih =>
      obtain ⟨os, hrun, hos⟩ := ih
      have hstep := exec_meets hI hg hos ha
      rw [hexec] at hstep
      exact ⟨os, hrun.thrown hstep.1.symm, hstep.2 hno⟩

/-! ## §6. A program. -/

/-- A program with one class, pointers to it and pointers to `const` objects of it. -/
def oneClass (copyData : Nat → ObjectType Unit → Nat → Option Nat) : Runtime Unit Nat where
  uses T := T.typeid = .base false () ∨ T.typeid = .pointer false (.base false ()) ∨
    T.typeid = .pointer false (.base true ())
  hashOf T := if T = .base false () then 1 else if T = .pointer false (.base false ()) then 2 else 3
  nameOf _ := "T"
  copyData := copyData
  file := "varient.hpp"

theorem oneClass_separates (copyData : Nat → ObjectType Unit → Nat → Option Nat) :
    (oneClass copyData).Separates where
  distinct T U hT hU h := by
    simp only [oneClass, TypeInfo.hash_code] at hT hU h
    rcases hT with hT | hT | hT <;> rcases hU with hU | hU | hU <;> rw [hT, hU] at h ⊢ <;>
      simp at h
  nonzero T hT := by
    simp only [oneClass, TypeInfo.hash_code] at hT ⊢
    rcases hT with hT | hT | hT <;> rw [hT] <;> decide
  toMutable T hT hp := by
    cases T with
    | base c b => cases hp
    | pointer c X =>
        right
        left
        simp [oneClass, ObjectType.typeid, ObjectType.removeConst] at hT
        rcases hT with rfl | rfl <;> rfl

/-- Two Varients: an object, and a copy of it. -/
theorem oneClass_copied : ∃ σ : Store Unit Nat, Run (oneClass fun _ _ d => some d)
    ([.construct (.value () [.data 7])] ++ [.construct (.copy 0)]) σ := by
  have hfirst : Run (oneClass fun _ _ d => some d) ([] ++ [.construct (.value () [.data 7])]) _ :=
    .returned .nil ⟨Or.inl rfl, fun _ hm => by cases hm⟩ rfl
  exact ⟨_, .returned hfirst ⟨_, rfl⟩ rfl⟩

end Methan
