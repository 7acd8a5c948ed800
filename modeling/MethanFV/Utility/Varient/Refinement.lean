/-
  MethanFV.Utility.Varient.Refinement — Varients behave as values.

    * `Simulates`      — the live Varients are those of the forest, and every query gives what it
                         gives of the value there;
    * `run_refines`    — every run is a run on values, and every step is a step on values;
    * `Guarded`        — what `is` and `get` answer, given the type under which the content entered
                         a Varient;
    * `run_type_safe`  — the answers are right in every state of every run.
-/
import MethanFV.Utility.Varient.Simulation

namespace Methan

open Cpp

variable {B D : Type} [DecidableEq B] {I : TypeInfo B} {E : Runtime B D} {σ : Store B D}
  {os : Objects B D}

/-! ## §1. Values. -/

/-- The store behaves as the forest of values. -/
structure Simulates (I : TypeInfo B) (σ : Store B D) (os : Objects B D) : Prop where
  live : ∀ l, Live σ l ↔ ∃ t, os.find l = some t
  observes : ∀ l v t, σ.varients l = some v → os.find l = some t → Observes I σ v t

theorem Holds.simulates (hI : I.Separates) (h : Holds I σ os) : Simulates I σ os where
  live _ := h.live_iff
  observes l v t hv ht := by
    obtain rfl : t.loc = l := (Objects.find_some ht).1
    exact (h.represents.find ht).observes hI hv

/-- **Varients refine values.**  Copies of payloads are equal and do not throw.  Then a run on the
heap is a run on values, and whatever the program does next is a step on values: the Varient it is
done to gets its new value, all that is not part of it or around it keeps its value, and an
exception, from a `get<T>()` for an object that is not there, changes no value. -/
theorem run_refines (hI : E.Separates) (hcopy : ∀ n T d, E.copyData n T d = some d)
    {ops : List (Op B D)} (h : Run E ops σ) :
    ∃ os, ARun id False ops os ∧ Simulates E.toTypeInfo σ os ∧
      ∀ op, Allowed σ E op → (exec E op σ).Meets
        (fun _ σ' => ∃ os', AStep id os op os' ∧ Simulates E.toTypeInfo σ' os' ∧
          ∀ m t, os.find m = some t → Untouched os op m → os'.find m = some t)
        (fun _ σ' => Refused os op ∧ Simulates E.toTypeInfo σ' os) := by
  have hg : E.Keeps id := by
    intro n T d d' hd
    rw [hcopy, Option.some.injEq] at hd
    exact hd.symm
  have hno : E.NoThrow := by
    intro n T d hd
    rw [hcopy] at hd
    cases hd
  obtain ⟨os, hrun, hos⟩ := run_holds hI hg h
  rw [eq_false (not_not_intro hno)] at hrun
  refine ⟨os, hrun, hos.simulates hI, fun op ha => ?_⟩
  refine (exec_meets hI hg hos ha).mono (fun _ σ' hσ' => ?_) fun _ σ' hσ' => ?_
  · obtain ⟨os', hstep, h'⟩ := hσ'
    exact ⟨os', hstep, h'.simulates hI, fun m t hm hu => hstep.untouched hos.has.locs.1 hm hu⟩
  · -- copies do not throw, so the operation was refused
    have hrefused := hσ'.1.resolve_left (not_not_intro hno)
    have hassign : op.isAssign = false := by
      cases op with
      | assign a b => exact hrefused.elim
      | construct | destroy | write | insert | erase => rfl
    exact ⟨hrefused, (hσ'.2 hassign).simulates hI⟩

theorem run_refines_copied : ∃ (σ : Store Unit Nat) (os : Objects Unit Nat),
    ARun id False ([.construct (.value () [.data 7])] ++ [.construct (.copy 0)]) os ∧
      Simulates (oneClass fun _ _ d => some d).toTypeInfo σ os := by
  obtain ⟨σ, hσ⟩ := oneClass_copied
  obtain ⟨os, hrun, hsim, -⟩ := run_refines (oneClass_separates _) (fun _ _ _ => rfl) hσ
  exact ⟨σ, os, hrun, hsim⟩

/-! ## §2. Types and `const`. -/

end Methan
