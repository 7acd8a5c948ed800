/-
  MethanFV.Utility.Varient.Lifetime — destroying and copying Varients that hold values.

    * `destroys`        — `~Varient()` destroys a value and everything nested in it, once;
    * `destruct_meets`  — `__destruct()`: the same for the content alone;
    * `copies`          — the copy constructor makes an equal value of new objects, or throws and
                          leaves nothing behind;
    * `newVarient_meets` — the same for a Varient constructed from an object.
-/
import MethanFV.Utility.Varient.Change

namespace Methan

open Cpp

variable {B D G : Type} {I : TypeInfo B} {σ σ' : Store B D} {f : Nat}

/-! ## §1. Destruction. -/

/-- `destroy` is right for Varients nested at most `f` deep. -/
def Destroys (I : TypeInfo B) (f : Nat) (destroy : Nat → Action B D Unit) : Prop :=
  ∀ (t : Tree B D) (σ : Store B D), Represents I σ t → t.depth ≤ f → σ.Has t.locs t.payloads →
    (destroy t.loc σ).Meets (fun _ σ' => Change σ σ' t.locs t.payloads [] []) fun _ _ => False

section Destroy

variable {destroy : Nat → Action B D Unit}

/-- The members of an object, in any order. -/
theorem Destroys.fields (hd : Destroys I f destroy) : ∀ (fs : List (Field D))
    (ts : List (Tree B D)) (σ : Store B D), Field.varients fs = ts.map Tree.loc →
    (∀ t ∈ ts, Represents I σ t ∧ t.depth ≤ f) →
    σ.Has (ts.flatMap Tree.locs) (ts.flatMap Tree.payloads) →
    (destroyFields destroy fs σ).Meets
      (fun _ σ' => Change σ σ' (ts.flatMap Tree.locs) (ts.flatMap Tree.payloads) [] [])
      fun _ _ => False
  | [], ts, σ, hfs, _, hs => by
      have hts : ts = [] := List.map_eq_nil_iff.mp hfs.symm
      subst hts
      exact Change.refl hs
  | .data _ :: fs, ts, σ, hfs, ht, hs => hd.fields fs ts σ hfs ht hs
  | .varient l :: fs, ts, σ, hfs, ht, hs => by
      cases ts with
      | nil => simp [Field.varients] at hfs
      | cons t ts =>
          obtain ⟨rfl, hfs'⟩ := List.cons.inj hfs
          obtain ⟨hr, hdepth⟩ := ht t List.mem_cons_self
          rw [List.flatMap_cons, List.flatMap_cons] at hs ⊢
          refine (hd t σ hr hdepth hs.left).andThen (fun _ σ₁ hc => ?_) fun _ _ h => h
          -- the other members are not touched
          have hrest : ∀ u ∈ ts, Represents I σ₁ u ∧ u.depth ≤ f := by
            intro u hu
            obtain ⟨hur, hud⟩ := ht u (List.mem_cons_of_mem _ hu)
            refine ⟨hur.change hc hs.toBounded (fun i hi hmem => ?_) fun i hi hmem => ?_, hud⟩
            · exact (List.nodup_append.mp hs.locs.1).2.2 i hmem i
                (List.mem_flatMap.mpr ⟨u, hu, hi⟩) rfl
            · exact (List.nodup_append.mp hs.payloads.1).2.2 i hmem i
                (List.mem_flatMap.mpr ⟨u, hu, hi⟩) rfl
          have hframe := hc.frame hs
          refine (hd.fields fs ts σ₁ hfs' hrest (hframe.has hs)).mono (fun _ σ₂ h₂ => ?_) fun _ _ h => h
          exact hframe.trans h₂ hs.toBounded

/-- `delete` on a payload. -/
theorem Destroys.payload [DecidableEq B] (hd : Destroys I f destroy) {T : ObjectType B} {p : Nat}
    {os : Objects B D} (hp : σ.heap p = some ⟨T, os.fields⟩) (hr : RepresentsAll I σ os)
    (hdepth : os.depth ≤ f) (hs : σ.Has os.locs (p :: os.payloads)) :
    (deletePayload destroy T p σ).Meets
      (fun _ σ' => Change σ σ' os.locs (p :: os.payloads) [] []) fun _ _ => False := by
  have hcomm : (p :: os.payloads).Perm (os.payloads ++ [p]) := (List.perm_append_singleton p _).symm
  have hs' : σ.Has (os.locs ++ []) (os.payloads ++ [p]) :=
    hs.perm (by rw [List.append_nil]) hcomm
  have hperm := List.reverse_perm os.trees
  have hlocs : (os.trees.reverse.flatMap Tree.locs).Perm os.locs := by
    rw [os.locs_eq]
    exact hperm.flatMap_right _
  have hpay : (os.trees.reverse.flatMap Tree.payloads).Perm os.payloads := by
    rw [os.payloads_eq]
    exact hperm.flatMap_right _
  unfold deletePayload
  simp only [hp, ne_eq, not_true_eq_false, if_false]
  refine (hd.fields os.fields.reverse os.trees.reverse σ ?_ (fun t ht => ?_) ?_).andThen
    (fun _ σ₁ hc => ?_) fun _ _ h => h
  · rw [Field.varients_reverse, os.varients_fields, List.map_reverse]
  · have ht := List.mem_reverse.mp ht
    exact ⟨representsAll_iff.mp hr t ht, Nat.le_trans (Objects.depth_le t ht) hdepth⟩
  · exact hs'.left.perm hlocs.symm hpay.symm
  · have hframe := (hc.perm hlocs hpay (.refl _) (.refl _)).frame hs'
    have hall := hframe.trans (change_releasePayload p) hs.toBounded
    exact hall.perm (by rw [List.append_nil]) hcomm.symm (.refl _) (.refl _)

theorem destruct_of_not_owner [DecidableEq B] {v : Varient B} (h : v.owner = false) :
    destruct destroy v σ = .ok () σ := by
  simp [destruct, h]

theorem destruct_ofPayload [DecidableEq B] (T : ObjectType B) (p : Nat) :
    destruct destroy (.ofPayload I T p) σ = deletePayload destroy T p σ := by
  rw [destruct, if_pos (Varient.owner_ofPayload I T p)]
  rfl

/-- `__destruct()` destroys the content and leaves the Varient. -/
theorem Destroys.destruct [DecidableEq B] (hd : Destroys I f destroy) {t : Tree B D} {v : Varient B}
    (hr : Represents I σ t) (hv : σ.varients t.loc = some v) (hdepth : t.depth ≤ f + 1)
    (hs : σ.Has t.locs t.payloads) :
    (destruct destroy v σ).Meets (fun _ σ' => Change σ σ' t.members.locs t.payloads [] [])
      fun _ _ => False := by
  cases t with
  | empty l =>
      have : v = .ofNull := Option.some.inj (hv.symm.trans hr)
      rw [this, destruct_of_not_owner Varient.owner_ofNull]
      exact Change.refl hs.toBounded.has
  | ptr l X a =>
      have : v = .ofPointer I X a := Option.some.inj (hv.symm.trans hr.1)
      rw [this, destruct_of_not_owner (Varient.owner_ofPointer I X a)]
      exact Change.refl hs.toBounded.has
  | val l b p os =>
      obtain ⟨hl, -, hp, hm⟩ := hr
      have : v = .ofPayload I (.base false b) p := Option.some.inj (hv.symm.trans hl)
      rw [this, destruct_ofPayload]
      exact hd.payload hp hm (Nat.le_of_succ_le_succ hdepth)
        (Store.Has.right (L := [l]) (P := []) hs)

end Destroy

/-- **`~Varient()`** destroys everything that the Varient holds. -/
theorem destroys [DecidableEq B] (I : TypeInfo B) : ∀ f, Destroys (D := D) I f (destroyVarient f)
  | 0 => fun t σ _ hdepth _ => by
      rw [t.depth_eq] at hdepth
      omega
  | f + 1 => fun t σ hr hdepth hs => by
      obtain ⟨v, hv⟩ := hr.live
      rw [destroyVarient, hv]
      refine ((destroys I f).destruct hr hv hdepth hs).andThen (fun _ σ₁ hc => ?_) fun _ _ h => h
      have hs' : σ.Has (t.members.locs ++ [t.loc]) (t.payloads ++ []) := by
        rw [List.append_nil]
        exact hs.perm (t.locs_eq ▸ (List.perm_append_singleton t.loc _).symm) (.refl _)
      have hall := (hc.frame hs').trans (change_removeVarient t.loc) hs.toBounded
      rw [List.append_nil] at hall
      exact hall.perm (t.locs_eq ▸ List.perm_append_singleton t.loc _) (.refl _) (.refl _) (.refl _)

/-! ## §2. Copies. -/

variable {E : Runtime B D} {g : D → G}

/-- `t'` is a copy of the value `t`, made of new objects. -/
structure Copied (I : TypeInfo B) (g : D → G) (σ σ' : Store B D) (t t' : Tree B D) : Prop where
  value : t'.value g = t.value g
  represents : Represents I σ' t'
  change : Change σ σ' [] [] t'.locs t'.payloads

/-- A copy constructor of the program threw, and what had been built is destroyed. -/
structure Undone (E : Runtime B D) (σ : Store B D) (x : Thrown) (σ' : Store B D) : Prop where
  thrown : x = .copy
  throws : ¬ E.NoThrow
  change : Change σ σ' [] [] [] []

/-- `copy` is right for Varients nested at most `f` deep. -/
def Copies (E : Runtime B D) (g : D → G) (f : Nat) (copy : Nat → Action B D Nat) : Prop :=
  ∀ (t : Tree B D) (σ : Store B D), Represents E.toTypeInfo σ t → t.depth ≤ f → σ.Bounded →
    (copy t.loc σ).Meets (fun l σ' => ∃ t', t'.loc = l ∧ Copied E.toTypeInfo g σ σ' t t')
      (Undone E σ)

section Copy

variable {copy : Nat → Action B D Nat} {destroy : Nat → Action B D Unit}

/-- The members of an object. -/
theorem Copies.fields (hc : Copies E g f copy) (hd : Destroys E.toTypeInfo f destroy)
    (hg : E.Keeps g) (T : ObjectType B) : ∀ (os : Objects B D) (σ : Store B D),
    RepresentsAll E.toTypeInfo σ os → os.depth ≤ f → σ.Bounded →
    (copyFields E copy destroy T os.fields σ).Meets
      (fun fs σ' => ∃ os', fs = os'.fields ∧ os'.value g = os.value g ∧
        RepresentsAll E.toTypeInfo σ' os' ∧ Change σ σ' [] [] os'.locs os'.payloads)
      (Undone E σ)
  | .nil, σ, _, _, hb => ⟨.nil, rfl, rfl, trivial, .refl hb.has⟩
  | .data d rest, σ, hr, hdepth, hb => by
      rw [Objects.fields, copyFields]
      have hcount := change_copies (σ := σ) (σ.copies + 1)
      cases hcopy : E.copyData σ.copies T d with
      | none => exact ⟨rfl, fun hn => hn _ _ _ hcopy, hcount⟩
      | some d' =>
          have hb' := (hcount.has hb.has).toBounded
          have hr' : RepresentsAll E.toTypeInfo _ rest :=
            RepresentsAll.grow (o := rest) hr hcount hb
          refine (hc.fields hd hg T rest _ hr' hdepth hb').andThen (fun fs σ₁ h => ?_)
            fun x σ₁ h => ?_
          · obtain ⟨os', rfl, hv, hr₁, hch⟩ := h
            refine ⟨.data d' os', rfl, ?_, hr₁, hcount.trans hch hb⟩
            rw [Objects.value, Objects.value, hv, hg _ _ _ _ hcopy]
          · exact ⟨h.thrown, h.throws, hcount.trans h.change hb⟩
  | .varient t rest, σ, hr, hdepth, hb => by
      rw [Objects.fields, copyFields]
      have hdt : t.depth ≤ f := Nat.le_trans (Nat.le_max_left _ _) hdepth
      have hdr : rest.depth ≤ f := Nat.le_trans (Nat.le_max_right _ _) hdepth
      refine (hc t σ hr.1 hdt hb).andThen (fun m σ₁ h => ?_) fun _ _ h => h
      obtain ⟨t', rfl, hcopied⟩ := h
      have hs₁ : σ₁.Has t'.locs t'.payloads := hcopied.change.has hb.has
      have hrest := hc.fields hd hg T rest σ₁ (hr.2.grow hcopied.change hb) hdr hs₁.toBounded
      have hdt' : t'.depth ≤ f := by rwa [← t'.depth_value g, hcopied.value, t.depth_value g]
      refine (hrest.unwinding fun x σ₂ h => ?_).andThen (fun fs σ₂ h => ?_) fun x σ₂ h => h
      · -- the copy of `t` is destroyed again
        have hs₂ : σ₂.Has t'.locs t'.payloads := (h.change.frame hs₁).has hs₁
        have hr₂ := hcopied.represents.change h.change hs₁.toBounded (by simp) (by simp)
        have hundo := hd t' σ₂ hr₂ hdt' hs₂
        refine hundo.mono (fun _ σ₃ h₃ => ?_) fun _ _ h => h.elim
        show Undone E σ x σ₃
        exact ⟨h.thrown, h.throws, (hcopied.change.trans (h.change.frame hs₁) hb).trans h₃ hb⟩
      · obtain ⟨os', rfl, hv, hr₂, hch⟩ := h
        refine ⟨.varient t' os', rfl, ?_, ⟨?_, hr₂⟩, ?_⟩
        · rw [Objects.value, Objects.value, hv, hcopied.value]
        · exact hcopied.represents.change hch hs₁.toBounded (by simp) (by simp)
        · exact (hcopied.change.trans (hch.frame hs₁) hb).perm (.refl _) (.refl _)
            List.perm_append_comm List.perm_append_comm

/-- `new T(...)` -/
theorem Copies.newPayload (hc : Copies E g f copy) (hd : Destroys E.toTypeInfo f destroy)
    (hg : E.Keeps g) (T : ObjectType B) {os : Objects B D}
    (hr : RepresentsAll E.toTypeInfo σ os) (hdepth : os.depth ≤ f) (hb : σ.Bounded) :
    (Methan.newPayload E copy destroy T os.fields σ).Meets
      (fun p σ' => ∃ os', σ'.heap p = some ⟨T, os'.fields⟩ ∧ os'.value g = os.value g ∧
        RepresentsAll E.toTypeInfo σ' os' ∧ Change σ σ' [] [] os'.locs (p :: os'.payloads))
      (Undone E σ) := by
  have hres := (change_reserve (σ := σ)).has hb.has
  have hr' : RepresentsAll E.toTypeInfo σ.reserve os := hr.frame (fun _ _ => rfl) fun _ _ => rfl
  refine (hc.fields hd hg T os σ.reserve hr' hdepth hres.toBounded).andThen (fun fs σ₁ h => ?_)
    fun x σ₁ h => ⟨h.thrown, h.throws, h.change.of_reserve⟩
  obtain ⟨os', rfl, hv, hr₁, hch⟩ := h
  have hall := hch.complete hb ⟨T, os'.fields⟩
  refine ⟨os', Function.update_self .., hv, hr₁.frame (fun _ _ => rfl) fun p hp => ?_, ?_⟩
  · refine Function.update_of_ne (fun heq => ?_) _ _
    subst heq
    exact (List.nodup_append.mp hall.heap.nodup).2.2 _ hp _ (List.mem_singleton_self _) rfl
  · exact hall.perm (.refl _) (.refl _) (.refl _) (List.perm_append_singleton _ _)

/-- A new Varient for a new payload. -/
theorem Copies.newVarient (hc : Copies E g f copy) (hd : Destroys E.toTypeInfo f destroy)
    (hg : E.Keeps g) {b : B} (hu : E.uses (.base false b)) {os : Objects B D} (l₀ p₀ : Nat)
    (hr : RepresentsAll E.toTypeInfo σ os) (hdepth : os.depth ≤ f) (hb : σ.Bounded) :
    ((Methan.newPayload E copy destroy (.base false b) os.fields σ.reserve).andThen fun p σ' =>
        .ok σ.next (σ'.setVarient σ.next (.ofPayload E.toTypeInfo (.base false b) p))).Meets
      (fun l σ' => ∃ t', t'.loc = l ∧ Copied E.toTypeInfo g σ σ' (.val l₀ b p₀ os) t')
      (Undone E σ) := by
  have hres := (change_reserve (σ := σ)).has hb.has
  have hr' : RepresentsAll E.toTypeInfo σ.reserve os := hr.frame (fun _ _ => rfl) fun _ _ => rfl
  refine (hc.newPayload hd hg (.base false b) hr' hdepth hres.toBounded).andThen (fun p σ₁ h => ?_)
    fun x σ₁ h => ⟨h.thrown, h.throws, h.change.of_reserve⟩
  obtain ⟨os', hp, hv, hr₁, hch⟩ := h
  -- the location was taken before the payload was built
  have hbuilt := (change_reserve.trans (hch.frame (K := [σ.next]) (Q := []) hres) hb).perm (.refl _)
    (.refl _) List.perm_append_comm (by rw [List.append_nil])
  have hnot : σ.next ∉ os'.locs := (List.nodup_cons.mp hbuilt.varients.nodup).1
  refine ⟨.val σ.next b p os', rfl, ?_, ⟨Function.update_self .., hu, hp, ?_⟩, ?_⟩
  · rw [Tree.value, Tree.value, hv]
  · refine hr₁.frame (fun l hl => Function.update_of_ne (fun heq => ?_) _ _) fun _ _ => rfl
    subst heq
    exact hnot hl
  · exact (hbuilt.andThen [σ.next] [] (change_setVarient σ.next _) hb.has)

end Copy

/-- A new Varient that owns nothing. -/
theorem change_newVarient (hb : σ.Bounded) (v : Varient B) :
    Change σ (σ.reserve.setVarient σ.next v) [] [] [σ.next] [] :=
  change_reserve.trans (change_setVarient σ.next v) hb

/-- **The copy constructor** makes an equal value of new objects. -/
theorem copies [DecidableEq B] (E : Runtime B D) (g : D → G) (hg : E.Keeps g) : ∀ f,
    Copies E g f (copyVarient E f)
  | 0 => fun t σ _ hdepth _ => by
      rw [t.depth_eq] at hdepth
      omega
  | f + 1 => fun t σ hr hdepth hb => by
      cases t with
      | empty l =>
          have hv : σ.varients (Tree.empty (B := B) (D := D) l).loc = some .ofNull := hr
          simp only [copyVarient, hv, Varient.owner_ofNull, Bool.false_eq_true, if_false]
          exact ⟨.empty σ.next, rfl, rfl, Function.update_self .., change_newVarient hb _⟩
      | ptr l X a =>
          simp only [copyVarient, Tree.loc, hr.1, Varient.owner_ofPointer, Bool.false_eq_true,
            if_false]
          exact ⟨.ptr σ.next X a, rfl, rfl, ⟨Function.update_self .., hr.2⟩, change_newVarient hb _⟩
      | val l b p os =>
          obtain ⟨hl, hu, hp, hm⟩ := hr
          have hrun : runCopy E (copyVarient E f) (destroyVarient f) (some (.base false b)) (.heap p)
              σ.reserve = newPayload E (copyVarient E f) (destroyVarient f) (.base false b) os.fields
                σ.reserve := by
            simp [runCopy, Store.reserve, hp]
          have hv : σ.varients (Tree.val l b p os).loc =
              some (.ofPayload E.toTypeInfo (.base false b) p) := hl
          simp only [copyVarient, hv, Varient.owner_ofPayload, if_true]
          show (Outcome.andThen (runCopy E (copyVarient E f) (destroyVarient f)
            (some (.base false b)) (.heap p) σ.reserve) _).Meets _ _
          rw [hrun]
          exact (copies E g hg f).newVarient (destroys E.toTypeInfo f) hg hu l p hm
            (Nat.le_of_succ_le_succ hdepth) hb

end Methan
