/-
  MethanFV.Utility.Assertion.Bounds — `METHAN_FORCE_ASSERT_INDEX` as a bounds check.

  The arguments are two variables of any integer types, and the macro compares them as C++ compares
  them: a negative index, or a negative bound, is kept, or becomes a large number.

    * `BoundsChecked`       — the macro returns for 0 ≤ i < u alone, and otherwise throws an
                              `IndexOutOfBounds` exception;
    * `indexOutOfBounds_iff` — this is so iff neither value is negative, or the negative one happens
                              to be on the failing side of the comparison.
-/
import MethanFV.Utility.Assertion.Check
import MethanFV.Cpp.Integer

namespace Methan

open Cpp

variable {W : DataModel}

/-! ## §1. Two variables. -/

/-- An integer of a type of the data model. -/
structure Integer (W : DataModel) where
  type : IntType
  value : Int
  isValue : W.IsValue type value

inductive Variable where
  | index | upperBound | nullptr

inductive Value (W : DataModel) where
  | integer (i : Integer W)
  | bool (b : Bool)
  | null

/-- What the variables hold. -/
structure Variables (W : DataModel) where
  index : Integer W
  upperBound : Integer W

/-- The parts of the implementation that make no difference. -/
structure Implementation where
  leftFirst : Bool
  stringize : List (ExprToken Variable) → String
  file : String

/-- A program that compares integers and does nothing else. -/
def integers (W : DataModel) (I : Implementation) :
    Program Variable (Value W) (Variables W) Unit (Value W) where
  atom a s :=
    match a with
    | .index => .ok (.integer s.index) s
    | .upperBound => .ok (.integer s.upperBound) s
    | .nullptr => .ok .null s
  load v s := .ok v s
  truth v s :=
    match v with
    | .bool b => .ok b s
    | _ => .fault ()
  bool := .bool
  unary _ _ _ := .fault ()
  suffix _ _ _ := .fault ()
  subscript _ _ _ := .fault ()
  call _ _ _ := .fault ()
  binary op v w s :=
    match op, v, w with
    | .lt, .integer i, .integer u => .ok (.bool (W.less i.type u.type i.value u.value)) s
    | _, _, _ => .fault ()
  assign _ _ _ _ := .fault ()
  raise := .program
  leftFirst _ f _ :=
    match f with
    | .atom .nullptr => true
    | _ => I.leftFirst
  argsLeftFirst _ := I.leftFirst
  nullptr := .nullptr
  null := .null
  atom_nullptr _ := rfl
  load_null _ := rfl
  leftFirst_nullptr _ _ := rfl
  to_string v :=
    match v with
    | .integer i => toString i.value
    | _ => ""
  stringize := I.stringize
  file := I.file

/-- `METHAN_FORCE_ASSERT_INDEX(index, upperBound)` -/
def assertIndex (W : DataModel) (I : Implementation) (line : Nat) :
    Option (Statement Variable (Variables W) Unit (Value W)) :=
  (integers W I).methanForceAssertIndex line [.atom .index] [.atom .upperBound]

/-! ## §2. The check. -/

/-- `m` is a check of 0 ≤ i < u. -/
structure BoundsChecked {A S F T : Type} (m : Statement A S F T) (s : Traced A S) (i u : Int) :
    Prop where
  returns : (∃ t, m s = .ok () t) ↔ 0 ≤ i ∧ i < u
  throws : ¬ (0 ≤ i ∧ i < u) → ∃ e t, m s = .threw (.methan e) t ∧ e.m_type = .IndexOutOfBounds

/-- The converted values compare as they should.  A negative value is kept by a signed comparison,
and 2^w larger in an unsigned one. -/
def ComparesBounds (W : DataModel) (T U : IntType) (i u : Int) : Prop :=
  (0 ≤ i ∧ 0 ≤ u) ∨
    if (W.comparison T U).signed then u ≤ i
    else (i < 0 ∧ u ≤ i + 2 ^ W.width (W.comparison T U).rank) ∨
      (u < 0 ∧ u + 2 ^ W.width (W.comparison T U).rank ≤ i)

theorem less_bounds_iff {T U : IntType} {i u : Int} (hi : W.IsValue T i) (hu : W.IsValue U u) :
    (W.less T U i u = true ↔ 0 ≤ i ∧ i < u) ↔ ComparesBounds W T U i u := by
  rw [DataModel.less_iff hi hu, ComparesBounds]
  split
  · omega
  · rename_i hunsigned
    have hnonneg := DataModel.nonneg_of_unsigned (Bool.eq_false_iff.mpr hunsigned)
      (DataModel.promote_represents hi) (DataModel.promote_represents hu)
    unfold DataModel.wrapped
    split <;> split <;> omega

variable {I : Implementation}

/-- Both variables are read. -/
theorem operands_variables (s : Traced Variable (Variables W)) :
    ∃ t, (integers W I).operands (.atom .index) (.atom .upperBound) s =
      .ok (.integer s.state.index, .integer s.state.upperBound) t ∧ t.state = s.state := by
  have hleft : (integers W I).leftFirst (.atom .index) (.atom .upperBound) s.state = I.leftFirst := rfl
  rw [Program.operands, hleft]
  cases I.leftFirst with
  | true => exact ⟨_, rfl, rfl⟩
  | false => exact ⟨_, rfl, rfl⟩

/-- The macro compares the two values, and reports them. -/
theorem assertIndex_eq (W : DataModel) (I : Implementation) (line : Nat) :
    ∃ m, assertIndex W I line = some m ∧ ∀ s : Traced Variable (Variables W), ∃ t, m s =
      if W.less s.state.index.type s.state.upperBound.type s.state.index.value
        s.state.upperBound.value then .ok () t
      else .threw (.methan (.create (Program.indexText (toString s.state.index.value)
        (toString s.state.upperBound.value)) I.file line .IndexOutOfBounds)) t := by
  have hwhole : Program.WholeOperands .lt (.atom Variable.index) (.atom .upperBound) := rfl
  have hindex : (Expr.atom Variable.index).Grammatical := trivial
  have hupper : (Expr.atom Variable.upperBound).Grammatical := trivial
  have heq : assertIndex W I line = _ := Program.methanForceAssertIndex_eq hindex hupper hwhole
  refine ⟨_, heq, fun s => ?_⟩
  obtain ⟨t, hoperands, ht⟩ := operands_variables (I := I) s
  -- the message reads the same two variables once more
  obtain ⟨t', hagain, -⟩ := operands_variables (I := I) t
  rw [ht] at hagain
  have hless : (integers W I).less (.integer s.state.index, .integer s.state.upperBound) t =
      .ok (W.less s.state.index.type s.state.upperBound.type s.state.index.value
        s.state.upperBound.value) t := rfl
  simp only [hoperands, Outcome.andThen_ok, hless]
  cases W.less s.state.index.type s.state.upperBound.type s.state.index.value
      s.state.upperBound.value with
  | true => exact ⟨t, rfl⟩
  | false =>
      refine ⟨t', ?_⟩
      show ((integers W I).indexReport _ _ t).andThen _ = _
      rw [Program.indexReport, hagain]
      rfl

/-- **The macro checks the bounds** iff neither value is negative, or the negative one is on the
failing side after the conversions. -/
theorem indexOutOfBounds_iff (W : DataModel) (I : Implementation) (line : Nat) :
    ∃ m, assertIndex W I line = some m ∧ ∀ s : Traced Variable (Variables W),
      BoundsChecked m s s.state.index.value s.state.upperBound.value ↔
        ComparesBounds W s.state.index.type s.state.upperBound.type s.state.index.value
          s.state.upperBound.value := by
  obtain ⟨m, hm, heq⟩ := assertIndex_eq W I line
  refine ⟨m, hm, fun s => ?_⟩
  obtain ⟨t, hs⟩ := heq s
  rw [← less_bounds_iff s.state.index.isValue s.state.upperBound.isValue]
  cases hless : W.less s.state.index.type s.state.upperBound.type s.state.index.value
      s.state.upperBound.value with
  | true =>
      rw [hless, if_pos rfl] at hs
      constructor
      · intro h
        exact iff_of_true rfl (h.returns.mp ⟨t, hs⟩)
      · intro h
        exact ⟨iff_of_true ⟨t, hs⟩ (h.mp rfl), fun hno => absurd (h.mp rfl) hno⟩
  | false =>
      rw [hless, if_neg Bool.false_ne_true] at hs
      -- the macro throws, so it returns nowhere
      have hno : ¬ ∃ t', m s = .ok () t' := by
        intro h
        obtain ⟨t', ht'⟩ := h
        cases hs.symm.trans ht'
      constructor
      · intro h
        exact iff_of_false Bool.false_ne_true fun hin => hno (h.returns.mpr hin)
      · intro h
        exact ⟨iff_of_false hno fun hin => Bool.false_ne_true (h.mpr hin), fun _ => ⟨_, t, hs, rfl⟩⟩

end Methan
