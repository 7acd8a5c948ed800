/-
  MethanFV.Cpp.Footprint — what an operation changes of a memory, and how such changes compose.

  A memory is a partial map from addresses to objects.  The footprint `L → L'` of a change says
  that the objects at `L` were given up for those at `L'`: what is in neither list is as before,
  what is in `L` only is gone, and what is in `L'` only is new.

    * `Footprint.frame`  — objects that are not touched may be added on both sides;
    * `Footprint.trans`  — one change after another;
    * `Conserves`        — the ledger of a change: objects created and destroyed;
    * `Bounded`          — nothing lives from an address on, so that new addresses are fresh.
-/
import Mathlib.Data.List.Perm.Basic
import Mathlib.Data.List.Nodup
import Mathlib.Data.List.Perm.Subperm
import Mathlib.Logic.Function.Basic

namespace Cpp

variable {C : Type} {lo mid hi : Nat} {m m₁ m₂ : Nat → Option C} {L L₁ L₂ K : List Nat} {i : Nat}

/-! ## §1. Fresh addresses. -/

/-- Nothing lives at `n` or above. -/
def Bounded (m : Nat → Option C) (n : Nat) : Prop := ∀ i, n ≤ i → m i = none

theorem Bounded.lt {c : C} (h : Bounded m lo) (hi : m i = some c) : i < lo := by
  by_contra hlt
  rw [h i (by omega)] at hi
  cases hi

theorem Bounded.mono (h : Bounded m lo) (hle : lo ≤ hi) : Bounded m hi :=
  fun i hi => h i (Nat.le_trans hle hi)

/-- Different addresses from `lo` up to `hi`. -/
def Fresh (lo hi : Nat) (L : List Nat) : Prop := L.Nodup ∧ ∀ i ∈ L, lo ≤ i ∧ i < hi

theorem Fresh.nil : Fresh lo hi [] := ⟨List.nodup_nil, by simp⟩

theorem Fresh.single (hlo : lo ≤ i) (hhi : i < hi) : Fresh lo hi [i] :=
  ⟨List.nodup_singleton i, by simp; omega⟩

theorem Fresh.append (h₁ : Fresh lo mid L₁) (h₂ : Fresh mid hi L₂) (hlo : lo ≤ mid)
    (hhi : mid ≤ hi) : Fresh lo hi (L₁ ++ L₂) := by
  refine ⟨List.nodup_append.mpr ⟨h₁.1, h₂.1, fun a ha b hb heq => ?_⟩, fun i hi => ?_⟩
  · have := (h₁.2 a ha).2
    have := (h₂.2 b hb).1
    omega
  · rcases List.mem_append.mp hi with hi | hi
    · have := h₁.2 i hi
      omega
    · have := h₂.2 i hi
      omega

theorem Fresh.perm (h : Fresh lo hi L₁) (hp : L₁.Perm L₂) : Fresh lo hi L₂ :=
  ⟨hp.nodup_iff.mp h.1, fun i hi => h.2 i (hp.mem_iff.mpr hi)⟩

theorem Fresh.length_le {n : Nat} (h : Fresh 0 n L) : L.length ≤ n := by
  have hsub : L ⊆ List.range n := fun i hi => List.mem_range.mpr (h.2 i hi).2
  have hle := (h.1.subperm hsub).length_le
  rwa [List.length_range] at hle

/-! ## §2. Footprints. -/

/-- From `m` to `m₁` the objects at `L` are given up for those at `L₁`. -/
structure Footprint (lo hi : Nat) (m m₁ : Nat → Option C) (L L₁ : List Nat) : Prop where
  kept : ∀ i, i ∉ L → i ∉ L₁ → m₁ i = m i
  gone : ∀ i ∈ L, i ∉ L₁ → m₁ i = none
  taken : ∀ i ∈ L₁, i ∈ L ∨ lo ≤ i ∧ i < hi
  nodup : L₁.Nodup

namespace Footprint

theorem refl (hL : L.Nodup) : Footprint lo hi m m L L :=
  ⟨fun _ _ _ => rfl, fun _ h h' => absurd h h', fun _ h => Or.inl h, hL⟩

/-- An object is written. -/
theorem set (c : C) : Footprint lo hi m (Function.update m i (some c)) [i] [i] where
  kept j hj _ := Function.update_of_ne (by simpa using hj) _ _
  gone j h h' := absurd h h'
  taken j h := Or.inl h
  nodup := List.nodup_singleton i

/-- An address is taken before its object is there. -/
theorem reserve (hlo : lo ≤ i) (hhi : i < hi) : Footprint lo hi m m [] [i] where
  kept _ _ _ := rfl
  gone j h _ := by simp at h
  taken j h := by simp at h; omega
  nodup := List.nodup_singleton i

/-- The end of an object. -/
theorem erase : Footprint lo hi m (Function.update m i none) [i] [] where
  kept j hj _ := Function.update_of_ne (by simpa using hj) _ _
  gone j hj _ := by rw [List.mem_singleton.mp hj, Function.update_self]
  taken j h := by simp at h
  nodup := List.nodup_nil

theorem perm (h : Footprint lo hi m m₁ L L₁) {K K₁ : List Nat} (hp : L.Perm K) (hp₁ : L₁.Perm K₁) :
    Footprint lo hi m m₁ K K₁ where
  kept i hi hi' := h.kept i (fun hL => hi (hp.mem_iff.mp hL)) fun hL => hi' (hp₁.mem_iff.mp hL)
  gone i hi hi' := h.gone i (hp.mem_iff.mpr hi) fun hL => hi' (hp₁.mem_iff.mp hL)
  taken i hi := (h.taken i (hp₁.mem_iff.mpr hi)).imp_left hp.mem_iff.mp
  nodup := hp₁.nodup_iff.mp h.nodup

/-- **The frame rule.** -/
theorem frame (h : Footprint lo hi m m₁ L L₁) (hK : K.Nodup) (hL : ∀ i ∈ K, i ∉ L)
    (hlo : ∀ i ∈ K, i < lo) : Footprint lo hi m m₁ (L ++ K) (L₁ ++ K) where
  kept i hi hi' := by
    rw [List.mem_append, not_or] at hi hi'
    exact h.kept i hi.1 hi'.1
  gone i hi hi' := by
    rw [List.mem_append, not_or] at hi'
    exact h.gone i ((List.mem_append.mp hi).resolve_right hi'.2) hi'.1
  taken i hi := by
    rcases List.mem_append.mp hi with hi | hi
    · exact (h.taken i hi).imp_left (List.mem_append_left _)
    · exact Or.inl (List.mem_append_right _ hi)
  nodup := by
    refine List.nodup_append.mpr ⟨h.nodup, hK, fun a ha b hb heq => ?_⟩
    subst heq
    rcases h.taken a ha with hr | hr
    · exact hL a hb hr
    · have := hlo a hb
      omega

/-- **One change after another.** -/
theorem trans (h : Footprint lo mid m m₁ L L₁) (h₂ : Footprint mid hi m₁ m₂ L₁ L₂)
    (hm : Bounded m lo) (hlo : lo ≤ mid) (hhi : mid ≤ hi) : Footprint lo hi m m₂ L L₂ where
  kept i hi hi' := by
    by_cases hmem : i ∈ L₁
    · -- it was new, and it is gone again
      rcases h.taken i hmem with hr | hr
      · exact absurd hr hi
      · rw [h₂.gone i hmem hi', hm i hr.1]
    · rw [h₂.kept i hmem hi', h.kept i hi hmem]
  gone i hi hi' := by
    by_cases hmem : i ∈ L₁
    · exact h₂.gone i hmem hi'
    · rw [h₂.kept i hmem hi', h.gone i hi hmem]
  taken i hi := by
    rcases h₂.taken i hi with hr | hr
    · rcases h.taken i hr with hr | hr
      · exact Or.inl hr
      · exact Or.inr ⟨hr.1, by omega⟩
    · exact Or.inr ⟨by omega, hr.2⟩
  nodup := h₂.nodup

/-- What was not given up is as before. -/
theorem apply_eq (h : Footprint lo hi m m₁ L L₁) (hL : i ∉ L) (hi : i < lo) : m₁ i = m i := by
  refine h.kept i hL fun hmem => ?_
  rcases h.taken i hmem with hr | hr
  · exact hL hr
  · omega

theorem bounded (h : Footprint lo hi m m₁ L L₁) (hm : Bounded m lo) (hle : lo ≤ hi)
    (hL : ∀ i ∈ L, i < lo) : Bounded m₁ hi := by
  intro i hi
  rw [h.kept i (fun hmem => ?_) fun hmem => ?_]
  · exact hm i (by omega)
  · have := hL i hmem
    omega
  · rcases h.taken i hmem with hr | hr
    · have := hL i hr
      omega
    · omega

end Footprint

/-! ## §3. The ledger. -/

/-- The logs of created and destroyed objects grow by what the footprint `L → L₁` accounts for. -/
def Conserves (lo hi : Nat) (created created₁ destroyed destroyed₁ L L₁ : List Nat) : Prop :=
  ∃ new old, Fresh lo hi new ∧ created₁.Perm (new ++ created) ∧
    destroyed₁.Perm (old ++ destroyed) ∧ (new ++ L).Perm (L₁ ++ old)

namespace Conserves

variable {created created₁ created₂ destroyed destroyed₁ destroyed₂ : List Nat}

theorem refl : Conserves lo hi created created destroyed destroyed L L :=
  ⟨[], [], .nil, .refl _, .refl _, by simp⟩

theorem erase : Conserves lo hi created created destroyed (i :: destroyed) [i] [] :=
  ⟨[], [i], .nil, .refl _, .refl _, by simp⟩

/-- The object at `lo` is created after the objects that it is built with. -/
theorem create (h : Conserves (lo + 1) hi created created₁ destroyed destroyed₁ L L₁)
    (hle : lo + 1 ≤ hi) :
    Conserves lo hi created (lo :: created₁) destroyed destroyed₁ L (L₁ ++ [lo]) := by
  obtain ⟨new, old, hf, hc, hd, hl⟩ := h
  have hlo : Fresh lo (lo + 1) [lo] := .single (Nat.le_refl _) (Nat.lt_succ_self _)
  refine ⟨[lo] ++ new, old, hlo.append hf (Nat.le_succ _) hle, hc.cons lo, hd, ?_⟩
  refine List.perm_iff_count.mpr fun a => ?_
  have := hl.count_eq a
  simp only [List.count_append] at *
  omega

theorem perm (h : Conserves lo hi created created₁ destroyed destroyed₁ L L₁) {K K₁ : List Nat}
    (hp : L.Perm K) (hp₁ : L₁.Perm K₁) :
    Conserves lo hi created created₁ destroyed destroyed₁ K K₁ := by
  obtain ⟨new, old, hf, hc, hd, hl⟩ := h
  exact ⟨new, old, hf, hc, hd, (hp.symm.append_left new).trans (hl.trans (hp₁.append_right old))⟩

theorem frame (h : Conserves lo hi created created₁ destroyed destroyed₁ L L₁) :
    Conserves lo hi created created₁ destroyed destroyed₁ (L ++ K) (L₁ ++ K) := by
  obtain ⟨new, old, hf, hc, hd, hl⟩ := h
  refine ⟨new, old, hf, hc, hd, List.perm_iff_count.mpr fun a => ?_⟩
  have := hl.count_eq a
  simp only [List.count_append] at this ⊢
  omega

theorem trans (h : Conserves lo mid created created₁ destroyed destroyed₁ L L₁)
    (h₂ : Conserves mid hi created₁ created₂ destroyed₁ destroyed₂ L₁ L₂) (hlo : lo ≤ mid)
    (hhi : mid ≤ hi) : Conserves lo hi created created₂ destroyed destroyed₂ L L₂ := by
  obtain ⟨new, old, hf, hc, hd, hl⟩ := h
  obtain ⟨new₂, old₂, hf₂, hc₂, hd₂, hl₂⟩ := h₂
  refine ⟨new ++ new₂, old ++ old₂, hf.append hf₂ hlo hhi, ?_, ?_, ?_⟩ <;>
    refine List.perm_iff_count.mpr fun a => ?_
  · have := hc.count_eq a
    have := hc₂.count_eq a
    simp only [List.count_append] at *
    omega
  · have := hd.count_eq a
    have := hd₂.count_eq a
    simp only [List.count_append] at *
    omega
  · have := hl.count_eq a
    have := hl₂.count_eq a
    simp only [List.count_append] at *
    omega

/-- The objects that are given up are accounted for: with `L` live, `created` is what lives and
what was destroyed. -/
theorem balance (h : Conserves lo hi created created₁ destroyed destroyed₁ L L₁)
    (hb : created.Perm (L ++ destroyed)) : created₁.Perm (L₁ ++ destroyed₁) := by
  obtain ⟨new, old, -, hc, hd, hl⟩ := h
  refine List.perm_iff_count.mpr fun a => ?_
  have := hc.count_eq a
  have := hd.count_eq a
  have := hl.count_eq a
  have := hb.count_eq a
  simp only [List.count_append] at *
  omega

/-- What creates nothing has destroyed what was there and is no more. -/
theorem destroyed_length (h : Conserves lo hi created created destroyed destroyed₁ L L₁) :
    destroyed₁.length + L₁.length = destroyed.length + L.length := by
  obtain ⟨new, old, -, hc, hd, hl⟩ := h
  have hc := hc.length_eq
  have hd := hd.length_eq
  have hl := hl.length_eq
  simp only [List.length_append] at hc hd hl
  omega

/-- No address is used twice. -/
theorem fresh (h : Conserves lo hi created created₁ destroyed destroyed₁ L L₁)
    (hf : Fresh 0 lo created) (hle : lo ≤ hi) : Fresh 0 hi created₁ := by
  obtain ⟨new, old, hnew, hc, -, -⟩ := h
  exact (hf.append hnew (Nat.zero_le _) hle).perm (List.perm_append_comm.trans hc.symm)

end Conserves

end Cpp
