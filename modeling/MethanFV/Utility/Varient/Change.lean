/-
  MethanFV.Utility.Varient.Change — what an operation changes of the store.

    * `Change σ σ' L P L' P'` — the Varients at `L` and the payloads at `P` are given up for those
      at `L'` and `P'`, with the ledger of created and destroyed payloads in step;
    * `Change.frame`, `Change.trans` — changes of parts, and one change after another;
    * `Holds I σ os`                 — the store holds the forest `os`, and nothing else;
    * `Holds.change`                 — a change of the store and of the forest.
-/
import MethanFV.Cpp.Footprint
import MethanFV.Utility.Varient.Forest

namespace Methan

open Cpp

variable {B D : Type} {I : TypeInfo B} {σ σ₁ σ₂ σ' : Store B D}
variable {L L₁ L₂ L' K P P₁ P₂ P' Q : List Nat}

/-! ## §1. Changes. -/

/-- Nothing lives at `next` or above. -/
structure Store.Bounded (σ : Store B D) : Prop where
  varients : Cpp.Bounded σ.varients σ.next
  heap : Cpp.Bounded σ.heap σ.next

/-- Different locations and different addresses, all of them handed out. -/
structure Store.Has (σ : Store B D) (L P : List Nat) : Prop extends σ.Bounded where
  locs : Fresh 0 σ.next L
  payloads : Fresh 0 σ.next P

theorem Store.Has.perm (h : σ.Has L P) (hL : L.Perm L') (hP : P.Perm P') : σ.Has L' P' :=
  ⟨h.toBounded, h.locs.perm hL, h.payloads.perm hP⟩

theorem Store.Has.left (h : σ.Has (L ++ K) (P ++ Q)) : σ.Has L P :=
  ⟨h.toBounded, ⟨h.locs.1.of_append_left, fun i hi => h.locs.2 i (List.mem_append_left _ hi)⟩,
    ⟨h.payloads.1.of_append_left, fun i hi => h.payloads.2 i (List.mem_append_left _ hi)⟩⟩

theorem Store.Has.right (h : σ.Has (L ++ K) (P ++ Q)) : σ.Has K Q :=
  ⟨h.toBounded, ⟨h.locs.1.of_append_right, fun i hi => h.locs.2 i (List.mem_append_right _ hi)⟩,
    ⟨h.payloads.1.of_append_right, fun i hi => h.payloads.2 i (List.mem_append_right _ hi)⟩⟩

theorem Store.Bounded.has (h : σ.Bounded) : σ.Has [] [] := ⟨h, .nil, .nil⟩

/-- The Varients at `L` and the payloads at `P` are given up for those at `L'` and `P'`. -/
structure Change (σ σ' : Store B D) (L P L' P' : List Nat) : Prop where
  next_le : σ.next ≤ σ'.next
  varients : Footprint σ.next σ'.next σ.varients σ'.varients L L'
  heap : Footprint σ.next σ'.next σ.heap σ'.heap P P'
  conserves : Conserves σ.next σ'.next σ.created σ'.created σ.destroyed σ'.destroyed P P'

namespace Change

theorem perm (h : Change σ σ' L P L' P') {M R M' R' : List Nat} (hL : L.Perm M) (hP : P.Perm R)
    (hL' : L'.Perm M') (hP' : P'.Perm R') : Change σ σ' M R M' R' :=
  ⟨h.next_le, h.varients.perm hL hL', h.heap.perm hP hP', h.conserves.perm hP hP'⟩

/-- The frame rule. -/
theorem frame (h : Change σ σ' L P L' P') (hs : σ.Has (L ++ K) (P ++ Q)) :
    Change σ σ' (L ++ K) (P ++ Q) (L' ++ K) (P' ++ Q) := by
  have hr := hs.right
  refine ⟨h.next_le, ?_, ?_, h.conserves.frame⟩
  · exact h.varients.frame hr.locs.1
      (fun i hK hL => (List.nodup_append.mp hs.locs.1).2.2 i hL i hK rfl) fun i hi => (hr.locs.2 i hi).2
  · exact h.heap.frame hr.payloads.1
      (fun i hQ hP => (List.nodup_append.mp hs.payloads.1).2.2 i hP i hQ rfl)
      fun i hi => (hr.payloads.2 i hi).2

theorem trans (h : Change σ σ₁ L P L₁ P₁) (h₁ : Change σ₁ σ₂ L₁ P₁ L₂ P₂) (hb : σ.Bounded) :
    Change σ σ₂ L P L₂ P₂ :=
  ⟨Nat.le_trans h.next_le h₁.next_le,
    h.varients.trans h₁.varients hb.varients h.next_le h₁.next_le,
    h.heap.trans h₁.heap hb.heap h.next_le h₁.next_le,
    h.conserves.trans h₁.conserves h.next_le h₁.next_le⟩

theorem has (h : Change σ σ' L P L' P') (hs : σ.Has L P) : σ'.Has L' P' where
  varients := h.varients.bounded hs.varients h.next_le fun i hi => (hs.locs.2 i hi).2
  heap := h.heap.bounded hs.heap h.next_le fun i hi => (hs.payloads.2 i hi).2
  locs := by
    refine ⟨h.varients.nodup, fun i hi => ⟨Nat.zero_le i, ?_⟩⟩
    rcases h.varients.taken i hi with hr | hr
    · exact Nat.lt_of_lt_of_le (hs.locs.2 i hr).2 h.next_le
    · exact hr.2
  payloads := by
    refine ⟨h.heap.nodup, fun i hi => ⟨Nat.zero_le i, ?_⟩⟩
    rcases h.heap.taken i hi with hr | hr
    · exact Nat.lt_of_lt_of_le (hs.payloads.2 i hr).2 h.next_le
    · exact hr.2

/-- One change after another, where the second concerns a part of what the first left. -/
theorem andThen (L₁ P₁ : List Nat) (h : Change σ σ₁ L P (L₁ ++ K) (P₁ ++ Q)) (h₁ : Change σ₁ σ₂ L₁ P₁ L₂ P₂)
    (hs : σ.Has L P) : Change σ σ₂ L P (L₂ ++ K) (P₂ ++ Q) :=
  h.trans (h₁.frame (h.has hs)) hs.toBounded

theorem refl (hs : σ.Has L P) : Change σ σ L P L P :=
  ⟨Nat.le_refl _, .refl hs.locs.1, .refl hs.payloads.1, .refl⟩

end Change

/-! ## §2. The changes of the store operations. -/

theorem change_setVarient (l : Nat) (v : Varient B) :
    Change σ (σ.setVarient l v) [l] [] [l] [] :=
  ⟨Nat.le_refl _, .set v, .refl List.nodup_nil, .refl⟩

theorem change_removeVarient (l : Nat) : Change σ (σ.removeVarient l) [l] [] [] [] :=
  ⟨Nat.le_refl _, .erase, .refl List.nodup_nil, .refl⟩

theorem change_setPayload (p : Nat) (x : Payload B D) :
    Change σ (σ.setPayload p x) [] [p] [] [p] :=
  ⟨Nat.le_refl _, .refl List.nodup_nil, .set x, .refl⟩

theorem change_releasePayload (p : Nat) : Change σ (σ.releasePayload p) [] [p] [] [] :=
  ⟨Nat.le_refl _, .refl List.nodup_nil, .erase, .erase⟩

/-- A location is taken. -/
theorem change_reserve : Change σ σ.reserve [] [] [σ.next] [] :=
  ⟨Nat.le_succ _, .reserve (Nat.le_refl _) (Nat.lt_succ_self _), .refl List.nodup_nil, .refl⟩

theorem change_copies (n : Nat) : Change σ { σ with copies := n } [] [] [] [] :=
  ⟨Nat.le_refl _, .refl List.nodup_nil, .refl List.nodup_nil, .refl⟩

/-- What an operation did after the next number was taken. -/
theorem Change.of_reserve (h : Change σ.reserve σ' [] [] L' P') : Change σ σ' [] [] L' P' := by
  refine ⟨Nat.le_trans (Nat.le_succ _) h.next_le, ⟨h.varients.kept, h.varients.gone, ?_,
    h.varients.nodup⟩, ⟨h.heap.kept, h.heap.gone, ?_, h.heap.nodup⟩, ?_⟩
  · exact fun i hi => (h.varients.taken i hi).imp_right fun hr => ⟨Nat.le_of_succ_le hr.1, hr.2⟩
  · exact fun i hi => (h.heap.taken i hi).imp_right fun hr => ⟨Nat.le_of_succ_le hr.1, hr.2⟩
  · obtain ⟨new, old, hf, hc, hd, hl⟩ := h.conserves
    exact ⟨new, old, ⟨hf.1, fun i hi => ⟨Nat.le_of_succ_le (hf.2 i hi).1, (hf.2 i hi).2⟩⟩, hc, hd, hl⟩

/-- A payload is completed after its members were built. -/
theorem Change.complete (h : Change σ.reserve σ' [] [] L' P') (hb : σ.Bounded)
    (x : Payload B D) : Change σ (σ'.completePayload σ.next x) [] [] L' (P' ++ [σ.next]) where
  next_le := (Change.of_reserve h).next_le
  varients := (Change.of_reserve h).varients
  heap := by
    have hr : Footprint σ.next (σ.next + 1) σ.heap σ.heap [] [σ.next] :=
      .reserve (Nat.le_refl _) (Nat.lt_succ_self _)
    have hm := h.heap.frame (K := [σ.next]) (List.nodup_singleton _) (by simp)
      (by simp [Store.reserve])
    have hset : Footprint σ'.next σ'.next σ'.heap (Function.update σ'.heap σ.next (some x))
        [σ.next] [σ.next] := .set x
    have hd : ∀ i ∈ P', i ∉ [σ.next] := by
      intro i hi hmem
      rcases h.heap.taken i hi with ht | ht
      · simp at ht
      · have : i = σ.next := by simpa using hmem
        have : σ.next + 1 ≤ i := ht.1
        omega
    have hlt : ∀ i ∈ P', i < σ'.next := by
      intro i hi
      rcases h.heap.taken i hi with ht | ht
      · simp at ht
      · exact ht.2
    have hf := (hset.frame h.heap.nodup hd hlt).perm List.perm_append_comm List.perm_append_comm
    have hle : σ.next + 1 ≤ σ'.next := h.next_le
    exact (hr.trans (hm.trans hf (hb.heap.mono (Nat.le_succ _)) hle (Nat.le_refl _)) hb.heap
      (Nat.le_succ _) hle)
  conserves := h.conserves.create h.next_le

/-! ## §3. Values through a change. -/

theorem Represents.lt {t : Tree B D} (h : Represents I σ t) (hb : σ.Bounded) :
    (∀ l ∈ t.locs, l < σ.next) ∧ ∀ p ∈ t.payloads, p < σ.next := by
  refine ⟨fun l hl => ?_, fun p hp => ?_⟩
  · obtain ⟨v, hv⟩ := h.live_all.1 l hl
    exact hb.varients.lt hv
  · obtain ⟨x, hx⟩ := h.live_all.2 p hp
    exact hb.heap.lt hx

/-- What an operation does not give up keeps its value. -/
theorem Represents.change {t : Tree B D} (h : Represents I σ t) (hc : Change σ σ' L P L' P')
    (hb : σ.Bounded) (hL : ∀ l ∈ t.locs, l ∉ L) (hP : ∀ p ∈ t.payloads, p ∉ P) :
    Represents I σ' t := by
  obtain ⟨hl, hp⟩ := h.lt hb
  exact h.frame (fun l hm => hc.varients.apply_eq (hL l hm) (hl l hm))
    fun p hm => hc.heap.apply_eq (hP p hm) (hp p hm)

/-- An operation that only makes new objects changes no value. -/
theorem RepresentsAll.grow {o : Objects B D} (h : RepresentsAll I σ o)
    (hc : Change σ σ' [] [] L' P') (hb : σ.Bounded) : RepresentsAll I σ' o :=
  representsAll_iff.mpr fun t ht =>
    (representsAll_iff.mp h t ht).change hc hb (by simp) (by simp)

/-- Members that share nothing with what is given up. -/
theorem RepresentsAll.apart {os : Objects B D} (h : RepresentsAll I σ os)
    (hc : Change σ σ' L P L' P') (hs : σ.Has (L ++ os.locs) (P ++ os.payloads)) :
    RepresentsAll I σ' os := by
  refine h.frame (fun i hi => ?_) fun i hi => ?_
  · refine hc.varients.apply_eq (fun hL => ?_) (hs.right.locs.2 i hi).2
    exact (List.nodup_append.mp hs.locs.1).2.2 i hL i hi rfl
  · refine hc.heap.apply_eq (fun hP => ?_) (hs.right.payloads.2 i hi).2
    exact (List.nodup_append.mp hs.payloads.1).2.2 i hP i hi rfl

/-! ## §4. The store and the forest. -/

/-- The live objects are those of the forest `os`, and every payload that was created is one of
them or was destroyed. -/
structure Holds (I : TypeInfo B) (σ : Store B D) (os : Objects B D) : Prop where
  represents : RepresentsAll I σ os
  has : σ.Has os.locs os.payloads
  dead : ∀ l, l ∉ os.locs → σ.varients l = none
  freed : ∀ p, p ∉ os.payloads → σ.heap p = none
  created : Fresh 0 σ.next σ.created
  ledger : σ.created.Perm (os.payloads ++ σ.destroyed)

/-- **A change of the store and of the forest.** -/
theorem Holds.change {os os' : Objects B D} (h : Holds I σ os) (hc : Change σ σ' L P L' P')
    (hL : os.locs.Perm (L ++ K)) (hP : os.payloads.Perm (P ++ Q))
    (hL' : os'.locs.Perm (L' ++ K)) (hP' : os'.payloads.Perm (P' ++ Q))
    (hr : RepresentsAll I σ' os') : Holds I σ' os' := by
  have hs : σ.Has (L ++ K) (P ++ Q) := h.has.perm hL hP
  have hall := (hc.frame hs).perm hL.symm hP.symm hL'.symm hP'.symm
  refine ⟨hr, hall.has h.has, fun l hl => ?_, fun p hp => ?_, ?_, hall.conserves.balance h.ledger⟩
  · by_cases hmem : l ∈ os.locs
    · exact hall.varients.gone l hmem hl
    · rw [hall.varients.kept l hmem hl, h.dead l hmem]
  · by_cases hmem : p ∈ os.payloads
    · exact hall.heap.gone p hmem hp
    · rw [hall.heap.kept p hmem hp, h.freed p hmem]
  · exact hall.conserves.fresh h.created hall.next_le

theorem Holds.live {os : Objects B D} (h : Holds I σ os) {l : Nat} :
    l ∈ os.locs ↔ ∃ v, σ.varients l = some v := by
  refine ⟨h.represents.live_all.1 l, fun hlive => ?_⟩
  obtain ⟨v, hv⟩ := hlive
  by_contra hl
  rw [h.dead l hl] at hv
  cases hv

/-- The Varient at `l` gets another content. -/
theorem Holds.replace {os : Objects B D} {l : Nat} {s s' : Tree B D} (h : Holds I σ os)
    (hf : os.find l = some s) (hs' : s'.loc = l)
    (hc : Change σ σ' s.locs s.payloads s'.locs s'.payloads) (hr : Represents I σ' s') :
    Holds I σ' (os.replace l s') := by
  obtain ⟨K, Q, hK, hQ, hsplit⟩ := Objects.replace_split hf h.has.locs.1
  refine h.change hc hK hQ (hsplit s').1 (hsplit s').2 ?_
  refine h.represents.replace hs' hr hf h.has.locs.1 h.has.payloads.1 ?_ ?_
  · exact fun m hm hms => hc.varients.apply_eq hms (h.has.locs.2 m hm).2
  · exact fun p hp hps => hc.heap.apply_eq hps (h.has.payloads.2 p hp).2

/-- A new variable. -/
theorem Holds.push {os : Objects B D} {t : Tree B D} (h : Holds I σ os)
    (hc : Change σ σ' [] [] t.locs t.payloads) (hr : Represents I σ' t) :
    Holds I σ' (.varient t os) :=
  h.change hc (.refl _) (.refl _) (.refl _) (.refl _)
    ⟨hr, h.represents.grow hc h.has.toBounded⟩

/-- An operation that leaves nothing behind. -/
theorem Holds.same {os : Objects B D} (h : Holds I σ os) (hc : Change σ σ' [] [] [] []) :
    Holds I σ' os :=
  h.change hc (.refl _) (.refl _) (.refl _) (.refl _) (h.represents.grow hc h.has.toBounded)

end Methan
