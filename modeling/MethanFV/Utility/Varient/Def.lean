/-
  MethanFV.Utility.Varient.Def — `utility/varient.hpp`: Varient objects over a heap of payloads.

  Every Varient object, a variable of the program or a member of a payload, has a location; every
  payload allocated with `new T(...)` has an address.  The `std::function` members are the closures
  of the value constructor, so they are named by the type T they were made for.

    construct        — `Varient(nullptr)`, `Varient(const X*)`, `Varient(X*)`, `Varient(const T&)`,
                       `Varient(const Varient&)`
    destroyVarient   — `~Varient()`, `__destruct()`, and the destructors of the payload's members
    copyVarient      — the copy constructor, and the copy constructors of the payload's members
    assign           — `operator=`, write by write
    is, get          — the queries, with assertions enabled (METHAN_DEBUG)

  What C++ leaves undefined is a `Fault`.  Destroying and copying recurse into payloads; the
  recursion is on fuel, and running out of it is a fault too.
-/
import MethanFV.Cpp.ObjectType
import MethanFV.Cpp.Outcome
import MethanFV.Utility.Exception
import Mathlib.Logic.Function.Basic
import Mathlib.Logic.Relation

namespace Methan

open Cpp

variable {B D : Type}

/-! ## §1. Objects. -/

/-- A pointer value. -/
inductive Address where
  | null
  /-- An object of the program. -/
  | object (n : Nat)
  /-- A payload. -/
  | heap (p : Nat)
  deriving DecidableEq, Repr

/-- `static constexpr uint8_t IsConstant` -/
def IsConstant : UInt8 := 0x01

/-- `static constexpr uint8_t IsDataOwner` -/
def IsDataOwner : UInt8 := 0x02

/-- The fields of a Varient. -/
structure Varient (B : Type) where
  m_typeId : UInt64
  m_data : Address
  m_flag : UInt8
  /-- `[](void* _data) { delete reinterpret_cast<T*>(_data); }` for this T. -/
  m_destructor : Option (ObjectType B)
  /-- `[](void** dest, void* _data) { *dest = new T(*reinterpret_cast<T*>(_data)); }` for this T. -/
  m_copy : Option (ObjectType B)
  m_dataName : Option String
  deriving DecidableEq, Repr

/-- `m_flag & IsDataOwner` -/
def Varient.owner (v : Varient B) : Bool := v.m_flag &&& IsDataOwner != 0

/-- `m_flag & IsConstant` -/
def Varient.constant (v : Varient B) : Bool := v.m_flag &&& IsConstant != 0

/-- A member of an object: plain data, or a Varient. -/
inductive Field (D : Type) where
  | data (d : D)
  | varient (l : Nat)
  deriving DecidableEq, Repr

/-- The Varients among members. -/
def Field.varients : List (Field D) → List Nat
  | [] => []
  | .data _ :: fs => varients fs
  | .varient l :: fs => l :: varients fs

/-- The object behind a `new T(...)`. -/
structure Payload (B D : Type) where
  type : ObjectType B
  fields : List (Field D)
  deriving DecidableEq, Repr

/-- The live objects, and the log of the payloads. -/
structure Store (B D : Type) where
  varients : Nat → Option (Varient B)
  heap : Nat → Option (Payload B D)
  /-- The next location or address. -/
  next : Nat
  /-- Every payload whose construction was completed. -/
  created : List Nat
  /-- Every payload that was destroyed. -/
  destroyed : List Nat
  /-- How many copies of data were attempted. -/
  copies : Nat

/-- The types of a program and how their data are copied: `copyData n T d` is the `n`-th copy, of
data `d` of an object of type T, and `none` when the copy throws. -/
structure Runtime (B D : Type) extends TypeInfo B where
  copyData : Nat → ObjectType B → D → Option D
  /-- What `__FILE__` is in `varient.hpp`. -/
  file : String

/-- No copy constructor of the program throws. -/
def Runtime.NoThrow (E : Runtime B D) : Prop := ∀ n T d, E.copyData n T d ≠ none

/-- What `g` sees of the data is copied. -/
def Runtime.Keeps {G : Type} (E : Runtime B D) (g : D → G) : Prop :=
  ∀ n T d d', E.copyData n T d = some d' → g d' = g d

/-! ## §2. Operations. -/

/-- Undefined behaviour. -/
inductive Fault where
  /-- A Varient is used outside its lifetime. -/
  | deadVarient
  /-- A payload is destroyed a second time. -/
  | doubleFree
  /-- A payload is read after its destruction. -/
  | useAfterFree
  /-- `delete` on what is no payload. -/
  | invalidDelete
  /-- A payload is accessed as an object of another type. -/
  | typeMismatch
  /-- An empty `std::function` is called. -/
  | badFunctionCall
  /-- The recursion does not end. -/
  | stackOverflow
  deriving DecidableEq, Repr

/-- What is thrown: by a copy constructor of the program, or by `get`. -/
inductive Thrown where
  | copy
  | methan (e : Exception)
  deriving DecidableEq, Repr

/-- An operation on the store. -/
abbrev Action (B D α : Type) := Store B D → Outcome Fault Thrown (Store B D) α

/-! ## §3. The store. -/

namespace Store

/-- Put a Varient object at a location. -/
def setVarient (σ : Store B D) (l : Nat) (v : Varient B) : Store B D :=
  { σ with varients := Function.update σ.varients l (some v) }

/-- The lifetime of a Varient object ends. -/
def removeVarient (σ : Store B D) (l : Nat) : Store B D :=
  { σ with varients := Function.update σ.varients l none }

/-- The fields of a payload. -/
def setPayload (σ : Store B D) (p : Nat) (x : Payload B D) : Store B D :=
  { σ with heap := Function.update σ.heap p (some x) }

/-- A payload's construction is completed. -/
def completePayload (σ : Store B D) (p : Nat) (x : Payload B D) : Store B D :=
  { σ.setPayload p x with created := p :: σ.created }

/-- A payload's lifetime ends and its memory is released. -/
def releasePayload (σ : Store B D) (p : Nat) : Store B D :=
  { σ with heap := Function.update σ.heap p none, destroyed := p :: σ.destroyed }

/-- Take the next location or address. -/
def reserve (σ : Store B D) : Store B D := { σ with next := σ.next + 1 }

/-- The store before the program starts. -/
def empty : Store B D where
  varients _ := none
  heap _ := none
  next := 0
  created := []
  destroyed := []
  copies := 0

end Store

variable [DecidableEq B]

/-! ## §4. Destruction. -/

/-- The members of an object, destroyed one after another; `destroy` is `~Varient()`. -/
def destroyFields (destroy : Nat → Action B D Unit) : List (Field D) → Action B D Unit
  | [], σ => .ok () σ
  | .data _ :: fs, σ => destroyFields destroy fs σ
  | .varient l :: fs, σ => (destroy l σ).andThen fun _ => destroyFields destroy fs

/-- `delete reinterpret_cast<T*>(p)`: the members in reverse order, then the memory. -/
def deletePayload (destroy : Nat → Action B D Unit) (T : ObjectType B) (p : Nat) :
    Action B D Unit := fun σ =>
  match σ.heap p with
  | none => .fault .doubleFree
  | some x =>
      if x.type ≠ T then .fault .typeMismatch
      else (destroyFields destroy x.fields.reverse σ).andThen fun _ σ' =>
        .ok () (σ'.releasePayload p)

/-- `__destruct()`: `if(m_flag & IsDataOwner) m_destructor(m_data);` -/
def destruct (destroy : Nat → Action B D Unit) (v : Varient B) : Action B D Unit := fun σ =>
  if v.owner then
    match v.m_destructor, v.m_data with
    | none, _ => .fault .badFunctionCall
    | some _, .null => .ok () σ
    | some _, .object _ => .fault .invalidDelete
    | some T, .heap p => deletePayload destroy T p σ
  else .ok () σ

/-- `~Varient()` -/
def destroyVarient : Nat → Nat → Action B D Unit
  | 0, _, _ => .fault .stackOverflow
  | f + 1, l, σ =>
      match σ.varients l with
      | none => .fault .deadVarient
      | some v => (destruct (destroyVarient f) v σ).andThen fun _ σ' => .ok () (σ'.removeVarient l)

/-! ## §5. Copies. -/

section Copies

variable (E : Runtime B D)

/-- The members of a new object of type T, copied one after another.  When a copy throws, the
members that were built are destroyed again. -/
def copyFields (copy : Nat → Action B D Nat) (destroy : Nat → Action B D Unit)
    (T : ObjectType B) : List (Field D) → Action B D (List (Field D))
  | [], σ => .ok [] σ
  | .data d :: fs, σ =>
      match E.copyData σ.copies T d with
      | none => .threw .copy { σ with copies := σ.copies + 1 }
      | some d' =>
          (copyFields copy destroy T fs { σ with copies := σ.copies + 1 }).andThen fun fs' σ' =>
            .ok (.data d' :: fs') σ'
  | .varient m :: fs, σ =>
      (copy m σ).andThen fun m' σ' =>
        ((copyFields copy destroy T fs σ').unwinding (destroy m')).andThen fun fs' σ'' =>
          .ok (.varient m' :: fs') σ''

/-- `new T(source)`: the address of the new payload. -/
def newPayload (copy : Nat → Action B D Nat) (destroy : Nat → Action B D Unit)
    (T : ObjectType B) (source : List (Field D)) : Action B D Nat := fun σ =>
  (copyFields E copy destroy T source σ.reserve).andThen fun fs σ' =>
    .ok σ.next (σ'.completePayload σ.next ⟨T, fs⟩)

/-- `m_copy(&m_data, data)`: `new T(*reinterpret_cast<T*>(data))`. -/
def runCopy (copy : Nat → Action B D Nat) (destroy : Nat → Action B D Unit)
    (m_copy : Option (ObjectType B)) (data : Address) : Action B D Nat := fun σ =>
  match m_copy, data with
  | none, _ => .fault .badFunctionCall
  | some T, .heap p =>
      match σ.heap p with
      | none => .fault .useAfterFree
      | some x =>
          if x.type ≠ T then .fault .typeMismatch else newPayload E copy destroy T x.fields σ
  | some _, _ => .fault .typeMismatch

/-- `Varient(const Varient& other)` -/
def copyVarient : Nat → Nat → Action B D Nat
  | 0, _, _ => .fault .stackOverflow
  | f + 1, other, σ =>
      match σ.varients other with
      | none => .fault .deadVarient
      | some v =>
          if v.owner then
            (runCopy E (copyVarient f) (destroyVarient f) v.m_copy v.m_data σ.reserve).andThen
              fun p σ' => .ok σ.next (σ'.setVarient σ.next { v with m_data := .heap p })
          else .ok σ.next (σ.reserve.setVarient σ.next v)

/-! ## §6. Assignment. -/

/-- The writes of `operator=`, in their order. -/
def assignFields (this other : Varient B) : Varient B :=
  let this := { this with m_dataName := other.m_dataName }
  let this := { this with m_typeId := other.m_typeId }
  let this := { this with m_flag := other.m_flag }
  let this := { this with m_destructor := other.m_destructor }
  let this := { this with m_copy := other.m_copy }
  { this with m_data := other.m_data }

omit [DecidableEq B] in
/-- Every field is written. -/
@[simp] theorem assignFields_eq (this other : Varient B) : assignFields this other = other := rfl

/-- `a = b`: `__destruct()`, then the writes, then `m_copy(&m_data, other.m_data)`. -/
def assign (f a b : Nat) : Action B D Unit := fun σ =>
  match σ.varients a with
  | none => .fault .deadVarient
  | some this =>
      (destruct (destroyVarient f) this σ).andThen fun _ σ₁ =>
        match σ₁.varients b with
        | none => .fault .deadVarient
        | some other =>
            let v := assignFields this other
            let σ₂ := σ₁.setVarient a v
            if v.owner then
              (runCopy E (copyVarient E f) (destroyVarient f) v.m_copy other.m_data σ₂).andThen
                fun p σ₃ => .ok () (σ₃.setVarient a { v with m_data := .heap p })
            else .ok () σ₂

end Copies

/-! ## §7. Construction. -/

section Construction

variable (I : TypeInfo B)

/-- `Varient(std::nullptr_t)` -/
def Varient.ofNull : Varient B where
  m_data := .null
  m_dataName := none
  m_typeId := 0
  m_flag := 0
  m_destructor := none
  m_copy := none

/-- `Varient(T constPtr)` for a pointer-to-const T. -/
def Varient.ofConstPointer (T : ObjectType B) (constPtr : Address) : Varient B where
  m_data := constPtr
  m_dataName := some (I.name T)
  m_typeId := I.hash_code T
  m_flag := IsConstant
  m_destructor := none
  m_copy := none

/-- `Varient(T ptr)` for a pointer-to-non-const T. -/
def Varient.ofMutablePointer (T : ObjectType B) (ptr : Address) : Varient B where
  m_data := ptr
  m_dataName := some (I.name T)
  m_typeId := I.hash_code T
  m_flag := 0
  m_destructor := none
  m_copy := none

/-- The constructor that overload resolution picks for a pointer to X. -/
def Varient.ofPointer (X : ObjectType B) (a : Address) : Varient B :=
  if X.isConst then .ofConstPointer I (.pointer false X) a
  else .ofMutablePointer I (.pointer false X) a

/-- `Varient(const T& ref)` once `new T(ref)` has returned `p`. -/
def Varient.ofPayload (T : ObjectType B) (p : Nat) : Varient B where
  m_data := .heap p
  m_dataName := some (I.name T)
  m_typeId := I.hash_code T
  m_flag := IsDataOwner
  m_destructor := some T
  m_copy := some T

omit [DecidableEq B] in
@[simp] theorem Varient.owner_ofNull : (Varient.ofNull : Varient B).owner = false := by
  simp [owner, ofNull]

omit [DecidableEq B] in
@[simp] theorem Varient.owner_ofPayload (T : ObjectType B) (p : Nat) :
    (Varient.ofPayload I T p).owner = true := by
  simp [owner, ofPayload, IsDataOwner]

omit [DecidableEq B] in
@[simp] theorem Varient.owner_ofPointer (X : ObjectType B) (a : Address) :
    (Varient.ofPointer I X a).owner = false := by
  unfold ofPointer
  split
  · show (IsConstant &&& IsDataOwner != 0) = false
    decide
  · show ((0 : UInt8) &&& IsDataOwner != 0) = false
    decide

/-- What a Varient is constructed from: T is deduced without a top-level `const`. -/
inductive Init (B D : Type) where
  | null
  | pointer (X : ObjectType B) (a : Address)
  /-- An object of type `b` and its members. -/
  | value (b : B) (members : List (Field D))
  | copy (other : Nat)

/-- A new Varient: its location. -/
def construct (E : Runtime B D) (f : Nat) : Init B D → Action B D Nat
  | .null, σ => .ok σ.next (σ.reserve.setVarient σ.next .ofNull)
  | .pointer X a, σ => .ok σ.next (σ.reserve.setVarient σ.next (.ofPointer E.toTypeInfo X a))
  | .value b members, σ =>
      (newPayload E (copyVarient E f) (destroyVarient f) (.base false b) members σ.reserve).andThen
        fun p σ' => .ok σ.next (σ'.setVarient σ.next (.ofPayload E.toTypeInfo (.base false b) p))
  | .copy other, σ => copyVarient E f other σ

end Construction

/-! ## §8. Queries. -/

section Queries

variable (I : TypeInfo B)

/-- `isEmpty()` -/
def Varient.isEmpty (v : Varient B) : Bool := v.m_typeId == 0

/-- `isNonEmpty()` -/
def Varient.isNonEmpty (v : Varient B) : Bool := !v.isEmpty

/-- `typeId()` -/
def Varient.typeId (v : Varient B) : UInt64 := v.m_typeId

/-- `is<T>()` -/
def Varient.is (v : Varient B) (T : ObjectType B) : Bool :=
  if v.isEmpty then false
  else if v.m_typeId == I.hash_code T then true
  else if T.isPointer && !v.constant then v.m_typeId == I.hash_code T.toMutable
  else false

/-- What `get<T>()` returns. -/
inductive Reference (B : Type) where
  /-- `reinterpret_cast<T>(m_data)` -/
  | pointer (T : ObjectType B) (a : Address)
  /-- `*reinterpret_cast<T*>(m_data)` -/
  | object (T : ObjectType B) (a : Address)
  deriving DecidableEq, Repr

/-- The message of a failed cast.  Only the Varient made from `nullptr` has no name, and it is
empty: the assertion before this one has failed then. -/
def Varient.castMessage (v : Varient B) (T : ObjectType B) : String :=
  "Cannot cast from type `" ++ v.m_dataName.getD "" ++ "` to type `" ++ I.name T ++ "`"

/-- The two assertions that every `get<T>()` starts with; `line` is the first one's. -/
def Varient.checkCast (v : Varient B) (T : ObjectType B) (file : String) (line : Nat) :
    Except Exception Unit := do
  methanForceAssert file line v.isNonEmpty .IllegalArgument
    "The call to `get` failed as the Varient is currently empty"
  methanForceAssert file (line + 1) (v.is I T) .BadCastException (v.castMessage I T)

/-- `get<T>()` for a pointer-to-const T. -/
def Varient.getConstPointer (v : Varient B) (T : ObjectType B) (file : String) :
    Except Exception (Reference B) := do
  v.checkCast I T file 123
  return .pointer T v.m_data

/-- `get<T>()` for a pointer-to-non-const T. -/
def Varient.getMutablePointer (v : Varient B) (T : ObjectType B) (file : String) :
    Except Exception (Reference B) := do
  v.checkCast I T file 131
  methanForceAssert file 133 (!v.constant) .BadCastException
    "Cannot cast a pointer-to-constant to a pointer-to-non-const"
  return .pointer T v.m_data

/-- `get<T>()` for any other T: the const overload is at line 140, the mutable one at line 148. -/
def Varient.getObject (v : Varient B) (T : ObjectType B) (file : String) (line : Nat) :
    Except Exception (Reference B) := do
  v.checkCast I T file line
  return .object T v.m_data

/-- `get<T>()`, on a const Varient or not. -/
def Varient.get (v : Varient B) (T : ObjectType B) (file : String) (onConst : Bool) :
    Except Exception (Reference B) :=
  if T.isPointer then
    if T.removePointer.isConst then v.getConstPointer I T file
    else v.getMutablePointer I T file
  else v.getObject I T file (if onConst then 140 else 148)

end Queries

/-! ## §9. Mutation in place. -/

section Mutation

variable (E : Runtime B D)

/-- The payload behind the mutable reference that `get<T>()` returns. -/
def reach (l : Nat) (T : ObjectType B) : Action B D Nat := fun σ =>
  match σ.varients l with
  | none => .fault .deadVarient
  | some v =>
      match v.get E.toTypeInfo T E.file false with
      | .error e => .threw (.methan e) σ
      | .ok (.object _ (.heap p)) =>
          match σ.heap p with
          | none => .fault .useAfterFree
          | some x => if x.type ≠ T.typeid then .fault .typeMismatch else .ok p σ
      | .ok _ => .fault .typeMismatch

/-- Write the members of a payload. -/
def updateFields (p : Nat) (g : List (Field D) → List (Field D)) : Action B D Unit := fun σ =>
  match σ.heap p with
  | none => .fault .useAfterFree
  | some x => .ok () (σ.setPayload p { x with fields := g x.fields })

/-- A write to the object behind `get<T>()`. -/
def write (l : Nat) (T : ObjectType B) (fields : List (Field D)) : Action B D Unit := fun σ =>
  (reach E l T σ).andThen fun p => updateFields p fun _ => fields

/-- A copy of a Varient is added to the members of the object behind `get<T>()`. -/
def insert (f l : Nat) (T : ObjectType B) (i other : Nat) : Action B D Unit := fun σ =>
  (reach E l T σ).andThen fun p σ =>
    (copyVarient E f other σ).andThen fun m => updateFields p (·.insertIdx i (.varient m))

/-- The Varient that is member number `i` of the object behind `get<T>()` is removed. -/
def erase (f l : Nat) (T : ObjectType B) (i m : Nat) : Action B D Unit := fun σ =>
  (reach E l T σ).andThen fun p σ =>
    (destroyVarient f m σ).andThen fun _ => updateFields p (·.eraseIdx i)

end Mutation

/-! ## §10. Runs. -/

/-- An operation of the program. -/
inductive Op (B D : Type) where
  | construct (init : Init B D)
  | assign (a b : Nat)
  | destroy (l : Nat)
  | write (l : Nat) (b : B) (fields : List (Field D))
  | insert (l : Nat) (b : B) (i other : Nat)
  | erase (l : Nat) (b : B) (i m : Nat)

/-- `σ.next` is fuel enough: Varients are nested no deeper than there are locations. -/
def exec (E : Runtime B D) : Op B D → Action B D Unit
  | .construct init, σ => (construct E σ.next init σ).andThen fun _ σ' => .ok () σ'
  | .assign a b, σ => assign E σ.next a b σ
  | .destroy l, σ => destroyVarient σ.next l σ
  | .write l b fields, σ => write E l (.base false b) fields σ
  | .insert l b i other, σ => insert E σ.next l (.base false b) i other σ
  | .erase l b i m, σ => erase E σ.next l (.base false b) i m σ

section Runs

variable (σ : Store B D)

/-- A Varient is in its lifetime. -/
def Live (l : Nat) : Prop := ∃ v, σ.varients l = some v

/-- The Varient at `l` is flagged as the owner of the payload `x` at `p`. -/
def FlaggedOwner (l p : Nat) (x : Payload B D) : Prop :=
  ∃ v, σ.varients l = some v ∧ v.owner = true ∧ v.m_data = .heap p ∧ σ.heap p = some x

/-- The Varient at `m` is a member of the payload that the Varient at `l` owns. -/
def Member (m l : Nat) : Prop :=
  ∃ p x, FlaggedOwner σ l p x ∧ m ∈ Field.varients x.fields

/-- The Varient at `m` is stored, at some depth, inside the payload that the Varient at `l` owns. -/
def Inside (m l : Nat) : Prop := Relation.TransGen (Member σ) m l

/-- What a program may do.  Varients in use are live, members are destroyed with the object that
they belong to, assignments do not alias, and a write keeps the Varients among the members. -/
def Allowed (E : Runtime B D) : Op B D → Prop
  | .construct .null => True
  | .construct (.pointer X _) => E.uses (.pointer false X)
  | .construct (.value b members) =>
      E.uses (.base false b) ∧ ∀ m ∈ Field.varients members, Live σ m
  | .construct (.copy other) => Live σ other
  | .assign a b => Live σ a ∧ Live σ b ∧ a ≠ b ∧ ¬ Inside σ a b ∧ ¬ Inside σ b a
  | .destroy l => Live σ l ∧ ∀ k, ¬ Member σ l k
  | .write l b fields => Live σ l ∧ E.uses (.base false b) ∧
      ∀ p x, FlaggedOwner σ l p x → (Field.varients fields).Perm (Field.varients x.fields)
  | .insert l b i other => Live σ l ∧ E.uses (.base false b) ∧ Live σ other ∧
      ∀ p x, FlaggedOwner σ l p x → i ≤ x.fields.length
  | .erase l b i m => Live σ l ∧ E.uses (.base false b) ∧
      ∀ p x, FlaggedOwner σ l p x → x.fields[i]? = some (.varient m)

end Runs

/-- Copies made by an assignment do not throw in a run. -/
def Op.isAssign : Op B D → Bool
  | .assign _ _ => true
  | _ => false

/-- The program goes on from a state. -/
inductive Steps (E : Runtime B D) (σ₀ : Store B D) : List (Op B D) → Store B D → Prop where
  | nil : Steps E σ₀ [] σ₀
  | returned {ops : List (Op B D)} {σ σ' : Store B D} {op : Op B D} : Steps E σ₀ ops σ →
      Allowed σ E op → exec E op σ = .ok () σ' → Steps E σ₀ (ops ++ [op]) σ'
  | thrown {ops : List (Op B D)} {σ σ' : Store B D} {op : Op B D} {x : Thrown} :
      Steps E σ₀ ops σ → Allowed σ E op → op.isAssign = false → exec E op σ = .threw x σ' →
      Steps E σ₀ (ops ++ [op]) σ'

/-- The runs of a program, and the states that they reach. -/
abbrev Run (E : Runtime B D) : List (Op B D) → Store B D → Prop := Steps E .empty

end Methan
