/-
  MethanFV.Cpp.ObjectType — C++ object types with pointers and `const` at any depth, the traits of
  `<type_traits>` on them, and `typeid`.

  Class and arithmetic types are the points of an arbitrary type `B`.  References, `volatile` and
  functions are left out.
-/
import Mathlib.Data.List.Basic

namespace Cpp

/-! ## §1. Types and traits. -/

/-- A type: `b`, `const b`, `T*` or `T* const`. -/
inductive ObjectType (B : Type) where
  | base (isConst : Bool) (b : B)
  | pointer (isConst : Bool) (pointee : ObjectType B)
  deriving DecidableEq, Repr

namespace ObjectType

variable {B : Type}

/-- `std::is_const<T>` -/
def isConst : ObjectType B → Bool
  | base c _ => c
  | pointer c _ => c

/-- `std::remove_const_t<T>` -/
def removeConst : ObjectType B → ObjectType B
  | base _ b => base false b
  | pointer _ X => pointer false X

/-- `std::add_const_t<T>` -/
def addConst : ObjectType B → ObjectType B
  | base _ b => base true b
  | pointer _ X => pointer true X

/-- `std::is_pointer<T>` -/
def isPointer : ObjectType B → Bool
  | base _ _ => false
  | pointer _ _ => true

/-- `std::remove_pointer_t<T>` -/
def removePointer : ObjectType B → ObjectType B
  | base c b => base c b
  | pointer _ X => X

/-- What `typeid(T)` denotes: the type without its top-level `const`. -/
def typeid (T : ObjectType B) : ObjectType B := T.removeConst

/-- `std::remove_const_t<std::remove_pointer_t<T>>*` -/
def toMutable (T : ObjectType B) : ObjectType B := pointer false T.removePointer.removeConst

@[simp] theorem isPointer_removeConst (T : ObjectType B) : T.removeConst.isPointer = T.isPointer := by
  cases T <;> rfl

@[simp] theorem isConst_removeConst (T : ObjectType B) : T.removeConst.isConst = false := by
  cases T <;> rfl

@[simp] theorem removeConst_removeConst (T : ObjectType B) :
    T.removeConst.removeConst = T.removeConst := by
  cases T <;> rfl

@[simp] theorem isConst_addConst (T : ObjectType B) : T.addConst.isConst = true := by
  cases T <;> rfl

theorem removeConst_of_not_isConst {T : ObjectType B} (h : T.isConst = false) :
    T.removeConst = T := by
  cases T <;> simp_all [isConst, removeConst]

/-- `T` is a pointer to `X` up to top-level `const`. -/
theorem typeid_eq_pointer {T X : ObjectType B} :
    T.typeid = pointer false X ↔ T.isPointer = true ∧ T.removePointer = X := by
  cases T <;> simp [typeid, removeConst, isPointer, removePointer]

/-- Only `X` and `const X` lose their `const` to a non-const `X`. -/
theorem removeConst_eq {T X : ObjectType B} (hX : X.isConst = false) :
    T.removeConst = X ↔ T = X ∨ T = X.addConst := by
  cases T with
  | base c b => cases X <;> cases c <;> simp_all [removeConst, addConst, isConst, eq_comm]
  | pointer c Y => cases X <;> cases c <;> simp_all [removeConst, addConst, isConst, eq_comm]

theorem typeid_eq_base {T : ObjectType B} {b : B} :
    T.typeid = base false b ↔ ∃ c, T = base c b := by
  cases T <;> simp [typeid, removeConst]

end ObjectType

/-! ## §2. Run-time type information. -/

/-- The types that a program uses, and their `std::type_info`: the hash code and the name of the
type that `typeid` denotes. -/
structure TypeInfo (B : Type) where
  uses : ObjectType B → Prop
  hashOf : ObjectType B → UInt64
  nameOf : ObjectType B → String

variable {B : Type}

/-- `typeid(T).hash_code()` -/
def TypeInfo.hash_code (I : TypeInfo B) (T : ObjectType B) : UInt64 := I.hashOf T.typeid

/-- `typeid(T).name()` -/
def TypeInfo.name (I : TypeInfo B) (T : ObjectType B) : String := I.nameOf T.typeid

/-- The hash codes tell the types of a program apart, and none is zero. -/
structure TypeInfo.Separates (I : TypeInfo B) : Prop where
  distinct : ∀ T U, I.uses T → I.uses U → I.hash_code T = I.hash_code U → T.typeid = U.typeid
  nonzero : ∀ T, I.uses T → I.hash_code T ≠ 0
  toMutable : ∀ T, I.uses T → T.isPointer = true → I.uses T.toMutable

theorem TypeInfo.Separates.hash_code_eq {I : TypeInfo B} (h : I.Separates) {T U : ObjectType B}
    (hT : I.uses T) (hU : I.uses U) : I.hash_code T = I.hash_code U ↔ T.typeid = U.typeid :=
  ⟨h.distinct T U hT hU, fun heq => by rw [hash_code, hash_code, heq]⟩

end Cpp
