/-
  MethanFV.Utility.EnumFlag — the flag sets of `utility/enum.hpp`.

  An `EnumFlag` is a word of the enumeration's underlying type, of `w` bits: C++ promotes narrow words
  before it operates on them and truncates the result, which is the operation on `w` bits.  What a
  flag set is for is a set of bits, and a program that computes with flag sets and enumerators, with
  the operators of the class and those of `METHAN_ENUMSET_OPERATORS`, is compared with a program that
  computes with sets:

    * `runFlags_sets`       — after every run the variables are the sets that the set program makes, and
                              every expression, comparison and conversion to `bool` is that on sets;
    * `not_not_iff`         — `~` is a complement of the flag sets within `fullValue` only;
    * `runFlags_complement` — which no run leaves.
-/
import MethanFV.Cpp.Bits

namespace Methan

open Cpp

/-! ## §1. `EnumFlag`. -/

/-- An enumeration with an underlying type of `w` bits. -/
class EnumClass (T : Type) (w : outParam Nat) where
  /-- `static_cast<UnderlyingType>` -/
  underlying : T → BitVec w

/-- `EnumFlag<T, fullValue>` -/
structure EnumFlag (T : Type) {w : Nat} [EnumClass T w] (fullValue : BitVec w) where
  m_value : BitVec w
  deriving DecidableEq, Repr

namespace EnumFlag

variable {T : Type} {w : Nat} [EnumClass T w] {fullValue : BitVec w}

/-- `EnumFlag()` -/
def empty : EnumFlag T fullValue := ⟨0⟩

/-- `EnumFlag(T value)` -/
def ofEnum (value : T) : EnumFlag T fullValue := ⟨EnumClass.underlying value⟩

/-- `operator==` -/
def eq (a b : EnumFlag T fullValue) : Bool := a.m_value == b.m_value

/-- `operator!=` -/
def ne (a b : EnumFlag T fullValue) : Bool := !a.eq b

/-- `operator&` -/
def and (a b : EnumFlag T fullValue) : EnumFlag T fullValue := ⟨a.m_value &&& b.m_value⟩

/-- `operator>=` -/
def ge (a b : EnumFlag T fullValue) : Bool := (a.and b).eq b

/-- `operator<=` -/
def le (a b : EnumFlag T fullValue) : Bool := (a.and b).eq a

/-- `operator|` -/
def or (a b : EnumFlag T fullValue) : EnumFlag T fullValue := ⟨a.m_value ||| b.m_value⟩

/-- `operator^` -/
def xor (a b : EnumFlag T fullValue) : EnumFlag T fullValue := ⟨a.m_value ^^^ b.m_value⟩

/-- `operator~` -/
def not (a : EnumFlag T fullValue) : EnumFlag T fullValue := ⟨fullValue &&& ~~~a.m_value⟩

/-- `operator|=`: what `*this` becomes. -/
def orAssign (a b : EnumFlag T fullValue) : EnumFlag T fullValue :=
  { a with m_value := a.m_value ||| b.m_value }

/-- `operator&=` -/
def andAssign (a b : EnumFlag T fullValue) : EnumFlag T fullValue :=
  { a with m_value := a.m_value &&& b.m_value }

/-- `operator^=` -/
def xorAssign (a b : EnumFlag T fullValue) : EnumFlag T fullValue :=
  { a with m_value := a.m_value ^^^ b.m_value }

/-- `operator UnderlyingType` -/
def toUnderlying (a : EnumFlag T fullValue) : BitVec w := a.m_value

end EnumFlag

/-! ## §2. `METHAN_ENUMSET_OPERATORS`: an enumerator on the left. -/

section Operators

variable {T : Type} {w : Nat} [EnumClass T w] {fullValue : BitVec w}

def enumEq (a : T) (b : EnumFlag T fullValue) : Bool := (EnumFlag.ofEnum a).eq b

def enumNe (a : T) (b : EnumFlag T fullValue) : Bool := (EnumFlag.ofEnum a).ne b

def enumGe (a : T) (b : EnumFlag T fullValue) : Bool := (EnumFlag.ofEnum a).ge b

def enumLe (a : T) (b : EnumFlag T fullValue) : Bool := (EnumFlag.ofEnum a).le b

/-- `b | a` -/
def enumOr (a : T) (b : EnumFlag T fullValue) : EnumFlag T fullValue := b.or (EnumFlag.ofEnum a)

/-- `b & a` -/
def enumAnd (a : T) (b : EnumFlag T fullValue) : EnumFlag T fullValue := b.and (EnumFlag.ofEnum a)

/-- `b ^ a` -/
def enumXor (a : T) (b : EnumFlag T fullValue) : EnumFlag T fullValue := b.xor (EnumFlag.ofEnum a)

/-- `~class(a)` -/
def enumNot (a : T) : EnumFlag T fullValue := (EnumFlag.ofEnum a).not

end Operators

/-! ## §3. Expressions and runs. -/

/-- The binary operators that make a flag set. -/
inductive FlagOp where
  | or | and | xor
  deriving DecidableEq, Repr

/-- The comparisons. -/
inductive FlagCmp where
  | eq | ne | ge | le
  deriving DecidableEq, Repr

/-- An expression over the enumerators `T` and the flag variables `X`. -/
inductive FlagExpr (T X : Type) where
  | enumerator (t : T)
  | empty
  | var (x : X)
  | binary (op : FlagOp) (a b : FlagExpr T X)
  | complement (a : FlagExpr T X)

/-- A statement: `x = e` or `x op= e`. -/
inductive FlagStep (T X : Type) where
  | assign (x : X) (e : FlagExpr T X)
  | update (op : FlagOp) (x : X) (e : FlagExpr T X)

section Semantics

variable {T X : Type} {w : Nat} [EnumClass T w] {fullValue : BitVec w}

/-- The value of an expression: an enumerator, or a flag set. -/
inductive FlagValue (T : Type) {w : Nat} [EnumClass T w] (fullValue : BitVec w) where
  | enumerator (t : T)
  | flags (a : EnumFlag T fullValue)

namespace FlagValue

/-- The conversion to the class. -/
def toFlags : FlagValue T fullValue → EnumFlag T fullValue
  | .enumerator t => .ofEnum t
  | .flags a => a

/-- Overload resolution: the operator of the class when a flag set is on the left, that of
`METHAN_ENUMSET_OPERATORS` when an enumerator is.  The operand on the right is converted. -/
def resolve {α : Type} (member : EnumFlag T fullValue → EnumFlag T fullValue → α)
    (free : T → EnumFlag T fullValue → α) (a b : FlagValue T fullValue) : α :=
  match a with
  | .flags a => member a b.toFlags
  | .enumerator t => free t b.toFlags

/-- `~a` -/
def complement : FlagValue T fullValue → EnumFlag T fullValue
  | .flags a => a.not
  | .enumerator t => enumNot t

end FlagValue

def FlagOp.apply : FlagOp → FlagValue T fullValue → FlagValue T fullValue → EnumFlag T fullValue
  | .or => FlagValue.resolve EnumFlag.or enumOr
  | .and => FlagValue.resolve EnumFlag.and enumAnd
  | .xor => FlagValue.resolve EnumFlag.xor enumXor

def FlagOp.assign : FlagOp → EnumFlag T fullValue → EnumFlag T fullValue → EnumFlag T fullValue
  | .or => EnumFlag.orAssign
  | .and => EnumFlag.andAssign
  | .xor => EnumFlag.xorAssign

def FlagCmp.apply : FlagCmp → FlagValue T fullValue → FlagValue T fullValue → Bool
  | .eq => FlagValue.resolve EnumFlag.eq enumEq
  | .ne => FlagValue.resolve EnumFlag.ne enumNe
  | .ge => FlagValue.resolve EnumFlag.ge enumGe
  | .le => FlagValue.resolve EnumFlag.le enumLe

def FlagExpr.eval (ρ : X → EnumFlag T fullValue) : FlagExpr T X → FlagValue T fullValue
  | .enumerator t => .enumerator t
  | .empty => .flags EnumFlag.empty
  | .var x => .flags (ρ x)
  | .binary op a b => .flags (op.apply (a.eval ρ) (b.eval ρ))
  | .complement a => .flags (a.eval ρ).complement

variable [DecidableEq X]

def FlagStep.run (ρ : X → EnumFlag T fullValue) : FlagStep T X → X → EnumFlag T fullValue
  | .assign x e => Function.update ρ x (e.eval ρ).toFlags
  | .update op x e => Function.update ρ x (op.assign (ρ x) (e.eval ρ).toFlags)

/-- A run of any length. -/
def runFlags (ρ : X → EnumFlag T fullValue) (steps : List (FlagStep T X)) :
    X → EnumFlag T fullValue :=
  steps.foldl FlagStep.run ρ

end Semantics

/-! ## §4. Sets. -/

section Sets

variable {T X : Type} {w : Nat} [EnumClass T w] (full : Set (Fin w))

def FlagOp.sets : FlagOp → Set (Fin w) → Set (Fin w) → Set (Fin w)
  | .or => (· ∪ ·)
  | .and => (· ∩ ·)
  | .xor => symmDiff

def FlagCmp.sets : FlagCmp → Set (Fin w) → Set (Fin w) → Prop
  | .eq => (· = ·)
  | .ne => (· ≠ ·)
  | .ge => (· ⊇ ·)
  | .le => (· ⊆ ·)

/-- The set that an expression stands for. -/
def FlagExpr.sets (ρ : X → Set (Fin w)) : FlagExpr T X → Set (Fin w)
  | .enumerator t => bits (EnumClass.underlying t)
  | .empty => ∅
  | .var x => ρ x
  | .binary op a b => op.sets (a.sets ρ) (b.sets ρ)
  | .complement a => full \ a.sets ρ

variable [DecidableEq X]

def FlagStep.sets (ρ : X → Set (Fin w)) : FlagStep T X → X → Set (Fin w)
  | .assign x e => Function.update ρ x (e.sets full ρ)
  | .update op x e => Function.update ρ x (op.sets (ρ x) (e.sets full ρ))

def runSets (ρ : X → Set (Fin w)) (steps : List (FlagStep T X)) : X → Set (Fin w) :=
  steps.foldl (FlagStep.sets full) ρ

end Sets

/-! ## §5. Flag sets are sets. -/

namespace EnumFlag

variable {T X : Type} {w : Nat} [EnumClass T w] {fullValue : BitVec w}

/-- The set that a flag set stands for. -/
def sets (a : EnumFlag T fullValue) : Set (Fin w) := bits a.m_value

theorem sets_inj {a b : EnumFlag T fullValue} : a.sets = b.sets ↔ a = b := by
  unfold sets
  rw [bits_inj]
  constructor
  · intro h
    cases a
    exact congrArg mk h
  · rintro rfl
    rfl

theorem sets_not (a : EnumFlag T fullValue) : a.not.sets = bits fullValue \ a.sets :=
  bits_and_not fullValue a.m_value

/-- **`~` is a complement** of the flag sets within `fullValue`, and of no others. -/
theorem not_not_iff {a : EnumFlag T fullValue} :
    a.not.not = a ↔ a.sets ⊆ bits fullValue := by
  rw [← sets_inj, sets_not, sets_not, sdiff_sdiff_right_self]
  exact Set.inter_eq_right

end EnumFlag

section Refinement

variable {T X : Type} {w : Nat} [EnumClass T w] {fullValue : BitVec w}

/-- The operators do to the words what the set operators do to the sets, whichever overload is
chosen. -/
theorem FlagOp.sets_apply (op : FlagOp) (a b : FlagValue T fullValue) :
    (op.apply a b).sets = op.sets a.toFlags.sets b.toFlags.sets := by
  have hor := bits_or (w := w)
  have hand := bits_and (w := w)
  have hxor := bits_xor (w := w)
  cases op <;> cases a
  · exact (hor _ _).trans (Set.union_comm _ _)
  · exact hor _ _
  · exact (hand _ _).trans (Set.inter_comm _ _)
  · exact hand _ _
  · exact (hxor _ _).trans (symmDiff_comm _ _)
  · exact hxor _ _

theorem FlagOp.sets_assign (op : FlagOp) (a b : EnumFlag T fullValue) :
    (op.assign a b).sets = op.sets a.sets b.sets := by
  cases op
  · exact bits_or _ _
  · exact bits_and _ _
  · exact bits_xor _ _

theorem FlagValue.sets_complement (a : FlagValue T fullValue) :
    a.complement.sets = bits fullValue \ a.toFlags.sets := by
  cases a <;> exact EnumFlag.sets_not _

theorem FlagExpr.sets_eval (ρ : X → EnumFlag T fullValue) (e : FlagExpr T X) :
    (e.eval ρ).toFlags.sets = e.sets (bits fullValue) fun x => (ρ x).sets := by
  induction e with
  | enumerator t => rfl
  | empty => exact bits_zero
  | var x => rfl
  | binary op a b iha ihb =>
      show (op.apply (a.eval ρ) (b.eval ρ)).sets = _
      rw [FlagOp.sets_apply, iha, ihb]
      rfl
  | complement a iha =>
      show (a.eval ρ).complement.sets = _
      rw [FlagValue.sets_complement, iha]
      rfl

variable [DecidableEq X]

/-- One statement. -/
theorem FlagStep.sets_run (ρ : X → EnumFlag T fullValue) (step : FlagStep T X) :
    (fun x => (step.run ρ x).sets) = step.sets (bits fullValue) fun x => (ρ x).sets := by
  funext y
  cases step with
  | assign x e =>
      have he := e.sets_eval ρ
      by_cases h : y = x
      · subst h
        simpa [FlagStep.run, FlagStep.sets] using he
      · simp [FlagStep.run, FlagStep.sets, h]
  | update op x e =>
      have he := e.sets_eval ρ
      by_cases h : y = x
      · subst h
        simp [FlagStep.run, FlagStep.sets, FlagOp.sets_assign, he]
      · simp [FlagStep.run, FlagStep.sets, h]

/-- A run, by induction on its statements. -/
theorem sets_runFlags (steps : List (FlagStep T X)) :
    ∀ ρ : X → EnumFlag T fullValue, (fun x => (runFlags ρ steps x).sets) =
      runSets (bits fullValue) (fun x => (ρ x).sets) steps := by
  induction steps with
  | nil => intro ρ; rfl
  | cons step steps ih =>
      intro ρ
      show (fun x => (runFlags (step.run ρ) steps x).sets) = _
      rw [ih, FlagStep.sets_run]
      rfl

end Refinement

/-! ## §6. Staying within `fullValue`. -/

section Within

variable {T X : Type} {w : Nat} [EnumClass T w] {full : Set (Fin w)}

/-- The enumerators in an expression. -/
def FlagExpr.enumerators : FlagExpr T X → List T
  | .enumerator t => [t]
  | .empty | .var _ => []
  | .binary _ a b => a.enumerators ++ b.enumerators
  | .complement a => a.enumerators

def FlagStep.enumerators : FlagStep T X → List T
  | .assign _ e | .update _ _ e => e.enumerators

theorem FlagOp.sets_within (op : FlagOp) {a b : Set (Fin w)} (ha : a ⊆ full) (hb : b ⊆ full) :
    op.sets a b ⊆ full := by
  cases op with
  | or => exact Set.union_subset ha hb
  | and => exact Set.inter_subset_left.trans ha
  | xor =>
      intro i hi
      rcases Set.mem_symmDiff.mp hi with h | h
      · exact ha h.1
      · exact hb h.1

theorem FlagExpr.sets_within {ρ : X → Set (Fin w)} (hρ : ∀ x, ρ x ⊆ full) (e : FlagExpr T X)
    (he : ∀ t ∈ e.enumerators, bits (EnumClass.underlying t) ⊆ full) : e.sets full ρ ⊆ full := by
  induction e with
  | enumerator t => exact he t List.mem_cons_self
  | empty => exact Set.empty_subset full
  | var x => exact hρ x
  | binary op a b iha ihb =>
      exact op.sets_within (iha fun t ht => he t (List.mem_append_left _ ht))
        (ihb fun t ht => he t (List.mem_append_right _ ht))
  | complement a _ => exact Set.sdiff_subset

variable [DecidableEq X]

theorem FlagStep.sets_within {ρ : X → Set (Fin w)} (hρ : ∀ x, ρ x ⊆ full) (step : FlagStep T X)
    (hstep : ∀ t ∈ step.enumerators, bits (EnumClass.underlying t) ⊆ full) (y : X) :
    step.sets full ρ y ⊆ full := by
  have hupdate : ∀ (x : X) (v : Set (Fin w)), v ⊆ full → Function.update ρ x v y ⊆ full := by
    intro x v hv
    by_cases h : y = x
    · subst h
      rwa [Function.update_self]
    · rw [Function.update_of_ne h]
      exact hρ y
  cases step with
  | assign x e => exact hupdate x _ (e.sets_within hρ hstep)
  | update op x e => exact hupdate x _ (op.sets_within (hρ x) (e.sets_within hρ hstep))

theorem runSets_within (steps : List (FlagStep T X)) : ∀ {ρ : X → Set (Fin w)},
    (∀ x, ρ x ⊆ full) →
    (∀ step ∈ steps, ∀ t ∈ step.enumerators, bits (EnumClass.underlying t) ⊆ full) →
    ∀ x, runSets full ρ steps x ⊆ full := by
  induction steps with
  | nil => intro ρ hρ _; exact hρ
  | cons step steps ih =>
      intro ρ hρ hsteps
      exact ih (step.sets_within hρ (hsteps step List.mem_cons_self))
        fun s hs => hsteps s (List.mem_cons_of_mem _ hs)

/-- **No run leaves `fullValue`**, and every variable has a complement all along. -/
theorem runFlags_complement {fullValue : BitVec w} (ρ : X → EnumFlag T fullValue)
    (steps : List (FlagStep T X)) (hρ : ∀ x, (ρ x).sets ⊆ bits fullValue)
    (hsteps : ∀ step ∈ steps, ∀ t ∈ step.enumerators,
      bits (EnumClass.underlying t) ⊆ bits fullValue) (x : X) :
    let a := runFlags ρ steps x
    a.sets ⊆ bits fullValue ∧ a.not.not = a ∧ a.or a.not = ⟨fullValue⟩ ∧
      a.and a.not = EnumFlag.empty := by
  intro a
  have ha : a.sets ⊆ bits fullValue := by
    have hrun : a.sets = runSets (bits fullValue) (fun y => (ρ y).sets) steps x :=
      congrFun (sets_runFlags steps ρ) x
    -- the set program never leaves `fullValue`
    rw [hrun]
    exact runSets_within steps hρ hsteps x
  refine ⟨ha, EnumFlag.not_not_iff.mpr ha, ?_, ?_⟩
  · rw [← EnumFlag.sets_inj]
    show bits (a.m_value ||| a.not.m_value) = bits fullValue
    rw [bits_or]
    exact (congrArg (a.sets ∪ ·) a.sets_not).trans (Set.union_sdiff_cancel ha)
  · rw [← EnumFlag.sets_inj]
    show bits (a.m_value &&& a.not.m_value) = bits 0
    rw [bits_and, bits_zero]
    exact (congrArg (a.sets ∩ ·) a.sets_not).trans (Set.inter_sdiff_self _ _)

/-- An enumeration of three flags in a byte. -/
inductive ThreeFlags where
  | a | b | c
  deriving DecidableEq, Repr

instance : EnumClass ThreeFlags 8 where
  underlying
    | .a => 1
    | .b => 2
    | .c => 4

theorem threeFlags_within (t : ThreeFlags) :
    bits (EnumClass.underlying t) ⊆ bits (7 : BitVec 8) := by
  rw [← and_eq_left_iff]
  cases t <;> rfl

/-- `x = A; x |= ~B;` leaves `x` with a complement. -/
theorem runFlags_complement_three :
    let a := runFlags (fun _ : Unit => (EnumFlag.empty : EnumFlag ThreeFlags (7 : BitVec 8)))
      [.assign () (.enumerator .a), .update .or () (.complement (.enumerator .b))] ()
    a.sets ⊆ bits 7 ∧ a.not.not = a ∧ a.or a.not = ⟨7⟩ ∧ a.and a.not = EnumFlag.empty := by
  refine runFlags_complement _ _ ?_ ?_ ()
  · intro x
    show bits 0 ⊆ _
    rw [bits_zero]
    exact Set.empty_subset _
  · intro step _ t _
    exact threeFlags_within t

end Within

end Methan
