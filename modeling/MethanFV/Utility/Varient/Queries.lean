/-
  MethanFV.Utility.Varient.Queries — the queries of a Varient that holds a value.

    * `serves S T`           — what entered as an `S` may be asked for as a `T`;
    * `Represents.is_iff`    — `is<T>()` for every T;
    * `Represents.get_eq`    — `get<T>()`: the stored address or object, or the exception.
-/
import MethanFV.Utility.Varient.Forest

namespace Methan

open Cpp

variable {B D : Type}

/-! ## §1. The queries of a value. -/

/-- The type under which the content entered a Varient. -/
def Tree.recorded : Tree B D → Option (ObjectType B)
  | .empty _ => none
  | .ptr _ X _ => some (.pointer false X)
  | .val _ b _ _ => some (.base false b)

variable [DecidableEq B]

/-- What entered as an `S` may be asked for as a `T`: as `S` itself, or an `X*` as a `const X*`. -/
def serves (S T : ObjectType B) : Bool :=
  T.typeid == S ||
    match S with
    | .base _ _ => false
    | .pointer _ X => !X.isConst && T.typeid == .pointer false X.addConst

/-- `isEmpty()` -/
def Tree.isEmpty : Tree B D → Bool
  | .empty _ => true
  | _ => false

/-- `typeId()` -/
def Tree.typeId (I : TypeInfo B) (t : Tree B D) : UInt64 :=
  match t.recorded with
  | none => 0
  | some S => I.hash_code S

/-- `is<T>()` -/
def Tree.is (t : Tree B D) (T : ObjectType B) : Bool :=
  match t.recorded with
  | none => false
  | some S => serves S T

/-- What `get<T>()` gives access to. -/
inductive View (B D : Type) where
  | pointer (T : ObjectType B) (a : Address)
  | object (T : ObjectType B) (members : Objects B D)

/-- `get<T>()` -/
def Tree.get (t : Tree B D) (T : ObjectType B) : Except ExceptionType (View B D) :=
  match t with
  | .empty _ => .error .IllegalArgument
  | .ptr _ X a => if serves (.pointer false X) T then .ok (.pointer T a) else .error .BadCastException
  | .val _ b _ ms => if serves (.base false b) T then .ok (.object T ms) else .error .BadCastException

theorem serves_base {b : B} {T : ObjectType B} :
    serves (.base false b) T = true ↔ T.typeid = .base false b := by
  simp [serves]

/-- The content is a pointer to `X`. -/
theorem serves_pointer {X T : ObjectType B} : serves (.pointer false X) T = true ↔
    T.isPointer = true ∧ (T.removePointer = X ∨ X.isConst = false ∧ T.removePointer = X.addConst) := by
  simp only [serves, Bool.or_eq_true, beq_iff_eq, Bool.and_eq_true, Bool.not_eq_true',
    ObjectType.typeid_eq_pointer]
  exact ⟨fun h => h.elim (fun h => ⟨h.1, Or.inl h.2⟩) fun h => ⟨h.2.1, Or.inr ⟨h.1, h.2.2⟩⟩,
    fun h => h.2.elim (fun hX => Or.inl ⟨h.1, hX⟩) fun hX => Or.inr ⟨hX.1, h.1, hX.2⟩⟩

/-! ## §2. The flags. -/

variable {I : TypeInfo B} {σ : Store B D} {T : ObjectType B} {t : Tree B D} {v : Varient B}

omit [DecidableEq B] in
@[simp] theorem Varient.constant_ofPayload (p : Nat) : (Varient.ofPayload I T p).constant = false := by
  show (IsDataOwner &&& IsConstant != 0) = false
  decide

omit [DecidableEq B] in
@[simp] theorem Varient.constant_ofPointer (X : ObjectType B) (a : Address) :
    (Varient.ofPointer I X a).constant = X.isConst := by
  unfold ofPointer
  cases h : X.isConst
  · show ((0 : UInt8) &&& IsConstant != 0) = false
    decide
  · show (IsConstant &&& IsConstant != 0) = true
    decide

omit [DecidableEq B] in
@[simp] theorem Varient.m_typeId_ofPointer (X : ObjectType B) (a : Address) :
    (Varient.ofPointer I X a).m_typeId = I.hash_code (.pointer false X) := by
  unfold ofPointer
  split <;> rfl

omit [DecidableEq B] in
@[simp] theorem Varient.m_data_ofPointer (X : ObjectType B) (a : Address) :
    (Varient.ofPointer I X a).m_data = a := by
  unfold ofPointer
  split <;> rfl

omit [DecidableEq B] in
@[simp] theorem Varient.m_dataName_ofPointer (X : ObjectType B) (a : Address) :
    (Varient.ofPointer I X a).m_dataName = some (I.name (.pointer false X)) := by
  unfold ofPointer
  split <;> rfl

/-! ## §3. `is`. -/

/-- How a content is stored. -/
def Tree.varient (I : TypeInfo B) : Tree B D → Varient B
  | .empty _ => .ofNull
  | .ptr _ X a => .ofPointer I X a
  | .val _ b p _ => .ofPayload I (.base false b) p

omit [DecidableEq B] in
theorem Represents.varient (hr : Represents I σ t) (hv : σ.varients t.loc = some v) :
    v = t.varient I := by
  cases t with
  | empty l => exact Option.some.inj (hv.symm.trans hr)
  | ptr l X a => exact Option.some.inj (hv.symm.trans hr.1)
  | val l b p ms => exact Option.some.inj (hv.symm.trans hr.1)

omit [DecidableEq B] in
theorem Represents.uses (hr : Represents I σ t) {S : ObjectType B} (hS : t.recorded = some S) :
    I.uses S := by
  cases t with
  | empty l => cases hS
  | ptr l X a => exact Option.some.inj hS ▸ hr.2
  | val l b p ms => exact Option.some.inj hS ▸ hr.2.1

omit [DecidableEq B] in
/-- `typeId()` -/
theorem Tree.typeId_varient : (t.varient I).typeId = t.typeId I := by
  cases t with
  | empty l => rfl
  | ptr l X a => exact Varient.m_typeId_ofPointer X a
  | val l b p ms => rfl

omit [DecidableEq B] in
/-- `isEmpty()`: no hash code is zero. -/
theorem Represents.isEmpty_iff (hI : I.Separates) (hr : Represents I σ t) :
    (t.varient I).isEmpty = true ↔ t.recorded = none := by
  rw [Varient.isEmpty, beq_iff_eq, ← Varient.typeId, Tree.typeId_varient, Tree.typeId]
  cases hS : t.recorded with
  | none => simp
  | some S => simp [hI.nonzero S (hr.uses hS)]

omit [DecidableEq B] in
theorem Varient.is_iff : v.is I T = true ↔ v.isEmpty = false ∧ (v.m_typeId = I.hash_code T ∨
    T.isPointer = true ∧ v.constant = false ∧ v.m_typeId = I.hash_code T.toMutable) := by
  unfold Varient.is
  cases v.isEmpty <;> by_cases h : v.m_typeId = I.hash_code T <;> cases T.isPointer <;>
    cases v.constant <;> simp [h]

/-- **`is<T>()`** -/
theorem Represents.is_eq (hI : I.Separates) (hr : Represents I σ t) (hT : I.uses T) :
    (t.varient I).is I T = t.is T := by
  have hempty := hr.isEmpty_iff hI
  rw [Bool.eq_iff_iff, Varient.is_iff, ← Varient.typeId, Tree.typeId_varient]
  cases t with
  | empty l =>
      have h : (Tree.varient (D := D) I (.empty l)).isEmpty = true := hempty.mpr rfl
      simp [h, Tree.is, Tree.recorded]
  | ptr l X a =>
      have hne : (Tree.varient (D := D) I (.ptr l X a)).isEmpty = false :=
        Bool.eq_false_iff.mpr fun h => by cases hempty.mp h
      have hid : I.hash_code (.pointer false X) = I.hash_code T ↔
          T.isPointer = true ∧ T.removePointer = X := by
        rw [hI.hash_code_eq hr.2 hT, eq_comm]
        exact ObjectType.typeid_eq_pointer
      have hmut : T.isPointer = true → (I.hash_code (.pointer false X) = I.hash_code T.toMutable ↔
          T.removePointer.removeConst = X) := by
        intro hp
        rw [hI.hash_code_eq hr.2 (hI.toMutable T hT hp)]
        show ObjectType.pointer false X = .pointer false T.removePointer.removeConst ↔ _
        rw [ObjectType.pointer.injEq, eq_comm (a := X)]
        exact and_iff_right rfl
      have hconst : (Tree.varient (D := D) I (.ptr l X a)).constant = X.isConst :=
        Varient.constant_ofPointer X a
      show _ ∧ (I.hash_code (.pointer false X) = I.hash_code T ∨ _ ∧ _ ∧
        I.hash_code (.pointer false X) = _) ↔ serves (.pointer false X) T = true
      rw [serves_pointer, hconst, hid]
      constructor
      · intro hall
        obtain ⟨-, h⟩ := hall
        rcases h with ⟨hp, h⟩ | ⟨hp, hX, h⟩
        · exact ⟨hp, Or.inl h⟩
        · -- the second comparison ignores the `const` of the pointee
          have h := (ObjectType.removeConst_eq hX).mp ((hmut hp).mp h)
          exact ⟨hp, h.imp_right fun h => ⟨hX, h⟩⟩
      · intro hall
        obtain ⟨hp, h⟩ := hall
        rcases h with h | ⟨hX, h⟩
        · exact ⟨hne, Or.inl ⟨hp, h⟩⟩
        · exact ⟨hne, Or.inr ⟨hp, hX, (hmut hp).mpr ((ObjectType.removeConst_eq hX).mpr (Or.inr h))⟩⟩
  | val l b p ms =>
      have hne : (Tree.varient (D := D) I (.val l b p ms)).isEmpty = false :=
        Bool.eq_false_iff.mpr fun h => by cases hempty.mp h
      show _ ∧ (I.hash_code (.base false b) = I.hash_code T ∨ _ ∧ _ ∧
        I.hash_code (.base false b) = _) ↔ serves (.base false b) T = true
      rw [serves_base, hI.hash_code_eq hr.2.1 hT, eq_comm (b := T.typeid)]
      constructor
      · intro hall
        obtain ⟨-, h⟩ := hall
        rcases h with h | ⟨hp, -, h⟩
        · exact h
        · -- an object is no pointer
          have h := (hI.hash_code_eq hr.2.1 (hI.toMutable T hT hp)).mp h
          cases h
      · intro h
        exact ⟨hne, Or.inl h⟩

/-! ## §4. `get`. -/

/-- A successful `get<T>()`. -/
def Varient.reference (v : Varient B) (T : ObjectType B) : Reference B :=
  if T.isPointer then .pointer T v.m_data else .object T v.m_data

/-- The first assertion of the overload that `get<T>()` picks. -/
def getLine (T : ObjectType B) (onConst : Bool) : Nat :=
  if T.isPointer then if T.removePointer.isConst then 123 else 131
  else if onConst then 140 else 148

omit [DecidableEq B] in
/-- What `get<T>()` does when the assertion on constness, if there is one, holds. -/
theorem Varient.get_eq {file : String} {onConst : Bool}
    (hc : v.is I T = true → T.isPointer = true → T.removePointer.isConst = false →
      v.constant = false) :
    v.get I T file onConst =
      if v.isEmpty then .error (.create
        "The call to `get` failed as the Varient is currently empty" file (getLine T onConst)
        .IllegalArgument)
      else if v.is I T then .ok (v.reference T)
      else .error (.create (v.castMessage I T) file (getLine T onConst + 1) .BadCastException) := by
  unfold Varient.get getLine Varient.reference
  cases hp : T.isPointer <;> cases hx : T.removePointer.isConst <;> cases he : v.isEmpty <;>
    cases hi : v.is I T <;>
    simp_all [getConstPointer, getMutablePointer, getObject, checkCast, methanForceAssert,
      methanThrowException, isNonEmpty, bind, Except.bind, pure, Except.pure]

/-- Only a pointer to non-const is served as a pointer to non-const. -/
theorem Represents.constant_eq (hI : I.Separates) (hr : Represents I σ t) (hT : I.uses T)
    (h : (t.varient I).is I T = true) (_ : T.isPointer = true)
    (hX : T.removePointer.isConst = false) : (t.varient I).constant = false := by
  rw [hr.is_eq hI hT] at h
  cases t with
  | empty l => cases h
  | ptr l X a =>
      rcases (serves_pointer.mp h).2 with heq | ⟨hX', -⟩
      · rw [heq] at hX
        exact (Varient.constant_ofPointer X a).trans hX
      · exact (Varient.constant_ofPointer X a).trans hX'
  | val l b p ms => exact Varient.constant_ofPayload p

/-- **`get<T>()`** -/
theorem Represents.get_eq (hI : I.Separates) (hr : Represents I σ t) (hT : I.uses T)
    (file : String) (onConst : Bool) : (t.varient I).get I T file onConst =
      if (t.varient I).isEmpty then .error (.create
        "The call to `get` failed as the Varient is currently empty" file (getLine T onConst)
        .IllegalArgument)
      else if (t.varient I).is I T then .ok ((t.varient I).reference T)
      else .error (.create ((t.varient I).castMessage I T) file (getLine T onConst + 1)
        .BadCastException) :=
  Varient.get_eq (hr.constant_eq hI hT)

/-! ## §5. What is observed of a Varient. -/

/-- The reference gives access to what the view shows. -/
def Reads (I : TypeInfo B) (σ : Store B D) : Reference B → View B D → Prop
  | .pointer T a, .pointer T' a' => T = T' ∧ a = a'
  | .object T (.heap p), .object T' ms =>
      T = T' ∧ σ.heap p = some ⟨T.typeid, ms.fields⟩ ∧ RepresentsAll I σ ms
  | _, _ => False

/-- The two calls of `get` return the same, or throw an exception of the same type. -/
def Agree (I : TypeInfo B) (σ : Store B D) :
    Except Exception (Reference B) → Except ExceptionType (View B D) → Prop
  | .ok r, .ok w => Reads I σ r w
  | .error e, .error k => e.m_type = k
  | _, _ => False

/-- Every query of the Varient `v` gives what it gives of the value `t`. -/
structure Observes (I : TypeInfo B) (σ : Store B D) (v : Varient B) (t : Tree B D) : Prop where
  isEmpty : v.isEmpty = t.isEmpty
  isNonEmpty : v.isNonEmpty = !t.isEmpty
  typeId : v.typeId = t.typeId I
  is : ∀ T, I.uses T → v.is I T = t.is T
  get : ∀ T, I.uses T → ∀ file onConst, Agree I σ (v.get I T file onConst) (t.get T)

theorem Represents.agree (hI : I.Separates) (hr : Represents I σ t) (hT : I.uses T)
    (file : String) (onConst : Bool) :
    Agree I σ ((t.varient I).get I T file onConst) (t.get T) := by
  have hempty := hr.isEmpty_iff hI
  rw [hr.get_eq hI hT, hr.is_eq hI hT]
  cases t with
  | empty l =>
      rw [if_pos (hempty.mpr rfl)]
      exact rfl
  | ptr l X a =>
      have hne : ¬ (Tree.varient I (.ptr (D := D) l X a)).isEmpty = true := fun h => by
        cases hempty.mp h
      have hget : (Tree.ptr (D := D) l X a).get T =
          if serves (.pointer false X) T then .ok (.pointer T a) else .error .BadCastException := rfl
      have his : (Tree.ptr (D := D) l X a).is T = serves (.pointer false X) T := rfl
      rw [if_neg hne, his, hget]
      by_cases h : serves (.pointer false X) T = true
      · rw [if_pos h, if_pos h, Varient.reference, if_pos (serves_pointer.mp h).1]
        exact ⟨rfl, Varient.m_data_ofPointer X a⟩
      · rw [if_neg h, if_neg h]
        exact rfl
  | val l b p ms =>
      have hne : ¬ (Tree.varient I (.val l b p ms)).isEmpty = true := fun h => by
        cases hempty.mp h
      have hget : (Tree.val l b p ms).get T =
          if serves (.base false b) T then .ok (.object T ms) else .error .BadCastException := rfl
      have his : (Tree.val l b p ms).is T = serves (.base false b) T := rfl
      rw [if_neg hne, his, hget]
      by_cases h : serves (.base false b) T = true
      · have hT' := serves_base.mp h
        have hp : ¬ T.isPointer = true := by
          obtain ⟨c, rfl⟩ := ObjectType.typeid_eq_base.mp hT'
          exact Bool.false_ne_true
        rw [if_pos h, if_pos h, Varient.reference, if_neg hp]
        exact ⟨rfl, hT' ▸ hr.2.2.1, hr.2.2.2⟩
      · rw [if_neg h, if_neg h]
        exact rfl

/-- **A Varient that holds a value is observed to hold it.** -/
theorem Represents.observes (hI : I.Separates) (hr : Represents I σ t)
    (hv : σ.varients t.loc = some v) : Observes I σ v t := by
  rw [hr.varient hv]
  have hempty : (t.varient I).isEmpty = t.isEmpty := by
    rw [Bool.eq_iff_iff, hr.isEmpty_iff hI]
    cases t <;> simp [Tree.recorded, Tree.isEmpty]
  exact ⟨hempty, congrArg (!·) hempty, Tree.typeId_varient, fun T hT => hr.is_eq hI hT,
    fun T hT file onConst => hr.agree hI hT file onConst⟩

end Methan
