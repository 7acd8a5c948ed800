/-
  MethanFV.Cpp.Outcome — how a C++ operation ends: it returns, it throws, or its behaviour is
  undefined.

    * `andThen`            — continue after a return;
    * `unwinding`          — destroy what was built when an exception passes, and let it pass on;
    * `Meets Q R`          — the operation returns into `Q` or throws into `R`, and does not fault;
    * `Leaves P`           — if the operation ends, it ends in `P`;
    * `Meets.andThen`, `Meets.unwinding`, `Meets.mono`, `Leaves.andThen` — the rules of composition;
    * `andThen_eq_ok`, `unwinding_eq_ok` — the steps of an operation that returned.
-/
import Mathlib.Data.List.Basic

namespace Cpp

/-- How an operation on a state in `S` ends: `F` are the kinds of undefined behaviour, and `X` the
exceptions. -/
inductive Outcome (F X S α : Type) where
  | ok (a : α) (s : S)
  | threw (x : X) (s : S)
  | fault (f : F)

namespace Outcome

variable {F X S α β : Type}

/-! ## §1. Sequencing. -/

/-- Continue after a return. -/
def andThen (o : Outcome F X S α) (k : α → S → Outcome F X S β) : Outcome F X S β :=
  match o with
  | .ok a s => k a s
  | .threw x s => .threw x s
  | .fault f => .fault f

/-- Clean up when an exception passes. -/
def unwinding (o : Outcome F X S α) (cleanup : S → Outcome F X S Unit) : Outcome F X S α :=
  match o with
  | .ok a s => .ok a s
  | .threw x s => (cleanup s).andThen fun _ s' => .threw x s'
  | .fault f => .fault f

@[simp] theorem andThen_ok (a : α) (s : S) (k : α → S → Outcome F X S β) :
    (ok a s).andThen k = k a s := rfl

@[simp] theorem andThen_threw (x : X) (s : S) (k : α → S → Outcome F X S β) :
    (threw x s).andThen k = threw x s := rfl

@[simp] theorem andThen_fault (f : F) (k : α → S → Outcome F X S β) :
    (fault f).andThen k = fault f := rfl

/-! ## §2. Postconditions. -/

/-- The operation returns into `Q` or throws into `R`. -/
def Meets (o : Outcome F X S α) (Q : α → S → Prop) (R : X → S → Prop) : Prop :=
  match o with
  | .ok a s => Q a s
  | .threw x s => R x s
  | .fault _ => False

variable {o : Outcome F X S α} {Q Q' : α → S → Prop} {R R' : X → S → Prop}

@[simp] theorem meets_ok {a : α} {s : S} : (ok a s : Outcome F X S α).Meets Q R ↔ Q a s := Iff.rfl

@[simp] theorem meets_threw {x : X} {s : S} :
    (threw x s : Outcome F X S α).Meets Q R ↔ R x s := Iff.rfl

theorem Meets.mono (h : o.Meets Q R) (hQ : ∀ a s, Q a s → Q' a s) (hR : ∀ x s, R x s → R' x s) :
    o.Meets Q' R' := by
  cases o with
  | ok a s => exact hQ a s h
  | threw x s => exact hR x s h
  | fault f => exact h

theorem Meets.andThen {k : α → S → Outcome F X S β} {P : β → S → Prop} (h : o.Meets Q R)
    (hk : ∀ a s, Q a s → (k a s).Meets P R') (hR : ∀ x s, R x s → R' x s) :
    (o.andThen k).Meets P R' := by
  cases o with
  | ok a s => exact hk a s h
  | threw x s => exact hR x s h
  | fault f => exact h.elim

/-- The cleanup does not throw. -/
theorem Meets.unwinding {cleanup : S → Outcome F X S Unit} (h : o.Meets Q R)
    (hc : ∀ x s, R x s → (cleanup s).Meets (fun _ => R' x) fun _ _ => False) :
    (o.unwinding cleanup).Meets Q R' := by
  cases o with
  | ok a s => exact h
  | threw x s => exact (hc x s h).andThen (fun _ _ h => h) fun _ _ h => h.elim
  | fault f => exact h.elim

theorem Meets.not_fault (h : o.Meets Q R) (f : F) : o ≠ fault f := by
  intro heq
  rw [heq] at h
  exact h

/-- An operation that cannot throw returns. -/
theorem Meets.returns (h : o.Meets Q fun _ _ => False) : ∃ a s, o = ok a s ∧ Q a s := by
  cases o with
  | ok a s => exact ⟨a, s, rfl, h⟩
  | threw x s => exact h.elim
  | fault f => exact h.elim

/-! ## §3. Partial postconditions. -/

/-- If the operation returns or throws, it leaves a state in `P`. -/
def Leaves (o : Outcome F X S α) (P : S → Prop) : Prop :=
  match o with
  | .ok _ s => P s
  | .threw _ s => P s
  | .fault _ => True

variable {P P' : S → Prop}

theorem Leaves.mono (h : o.Leaves P) (hP : ∀ s, P s → P' s) : o.Leaves P' := by
  cases o with
  | ok a s => exact hP s h
  | threw x s => exact hP s h
  | fault f => trivial

theorem Leaves.andThen {k : α → S → Outcome F X S β} (h : o.Leaves P) (hP : ∀ s, P s → P' s)
    (hk : ∀ a s, P s → (k a s).Leaves P') : (o.andThen k).Leaves P' := by
  cases o with
  | ok a s => exact hk a s h
  | threw x s => exact hP s h
  | fault f => trivial

theorem andThen_assoc {γ : Type} (o : Outcome F X S α) (k : α → S → Outcome F X S β)
    (k' : β → S → Outcome F X S γ) :
    (o.andThen k).andThen k' = o.andThen fun a s => (k a s).andThen k' := by
  cases o <;> rfl

/-! ## §4. Operations that returned. -/

/-- What returned has returned at every step. -/
theorem andThen_eq_ok {k : α → S → Outcome F X S β} {b : β} {s' : S} :
    o.andThen k = ok b s' ↔ ∃ a s, o = ok a s ∧ k a s = ok b s' := by
  cases o with
  | ok a s => simp [andThen]
  | threw x s => simp [andThen]
  | fault f => simp [andThen]

/-- What returned was not cleaned up. -/
theorem unwinding_eq_ok {cleanup : S → Outcome F X S Unit} {a : α} {s' : S} :
    o.unwinding cleanup = ok a s' ↔ o = ok a s' := by
  cases o with
  | ok a s => exact Iff.rfl
  | threw x s => cases h : cleanup s <;> simp [unwinding, andThen, h]
  | fault f => simp [unwinding]

end Outcome

end Cpp
