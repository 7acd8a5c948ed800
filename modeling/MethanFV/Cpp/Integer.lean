/-
  MethanFV.Cpp.Integer — the integer types of C++, their conversions, and what `<` compares.

  The widths are those of a DATA MODEL: at least what the standard asks of each type, and none
  smaller than the one before.  An operand is promoted first (a type below `int` to `int`, or to
  `unsigned int` where `int` does not hold its values), and the usual arithmetic conversions then take
  both operands to one type; an unsigned type of width w holds values modulo 2^w.

    * `common_signed`, `common_unsigned` — what the common type does to the values of either operand;
    * `less_iff`                         — so that `x < y` compares the values, but for a negative
                                           operand of an unsigned comparison, which is 2^w larger.
-/
import Mathlib.Algebra.Order.Ring.Int
import Mathlib.Tactic.Linarith

namespace Cpp

/-! ## §1. Types. -/

inductive IntRank where
  | char | short | int | long | longLong
  deriving DecidableEq, Repr

def IntRank.order : IntRank → Nat
  | .char => 0
  | .short => 1
  | .int => 2
  | .long => 3
  | .longLong => 4

/-- The width that the standard asks for. -/
def IntRank.leastWidth : IntRank → Nat
  | .char => 8
  | .short => 16
  | .int => 16
  | .long => 32
  | .longLong => 64

/-- A signed or unsigned integer type; `char` is one of the two. -/
structure StandardType where
  rank : IntRank
  signed : Bool
  deriving DecidableEq, Repr

inductive IntType where
  | bool
  | standard (t : StandardType)
  deriving DecidableEq, Repr

structure DataModel where
  width : IntRank → Nat
  least : ∀ r, r.leastWidth ≤ width r
  mono : ∀ r r', r.order ≤ r'.order → width r ≤ width r'

variable (W : DataModel)

namespace DataModel

def minValue (t : StandardType) : Int := if t.signed then -2 ^ (W.width t.rank - 1) else 0

def maxValue (t : StandardType) : Int :=
  if t.signed then 2 ^ (W.width t.rank - 1) - 1 else 2 ^ W.width t.rank - 1

/-- `x` is a value of the type. -/
def Represents (t : StandardType) (x : Int) : Prop := W.minValue t ≤ x ∧ x ≤ W.maxValue t

def IsValue : IntType → Int → Prop
  | .bool, x => x = 0 ∨ x = 1
  | .standard t, x => W.Represents t x

/-- All values of `u` are values of `t`. -/
def covers (t u : StandardType) : Bool :=
  decide (W.minValue t ≤ W.minValue u ∧ W.maxValue u ≤ W.maxValue t)

/-! ## §2. Conversions. -/

/-- Integral promotion. -/
def promote : IntType → StandardType
  | .bool => ⟨.int, true⟩
  | .standard t =>
      if t.rank.order < IntRank.order .int then
        if W.covers ⟨.int, true⟩ t then ⟨.int, true⟩ else ⟨.int, false⟩
      else t

/-- A signed and an unsigned operand. -/
def mixed (s u : StandardType) : StandardType :=
  if s.rank.order ≤ u.rank.order then u else if W.covers s u then s else ⟨s.rank, false⟩

/-- The usual arithmetic conversions: the common type of two promoted operands. -/
def common (t u : StandardType) : StandardType :=
  if t.signed = u.signed then if t.rank.order ≤ u.rank.order then u else t
  else if t.signed then W.mixed t u else W.mixed u t

/-- The value of `x` in the type `t`. -/
def convert (t : StandardType) (x : Int) : Int :=
  if t.signed then Int.bmod x (2 ^ W.width t.rank) else x % 2 ^ W.width t.rank

/-- The type in which `<` compares operands of the types `T` and `U`. -/
def comparison (T U : IntType) : StandardType := W.common (W.promote T) (W.promote U)

/-- `x < y` for an operand of type `T` and one of type `U`. -/
def less (T U : IntType) (x y : Int) : Bool :=
  decide (W.convert (W.comparison T U) (W.convert (W.promote T) x) <
    W.convert (W.comparison T U) (W.convert (W.promote U) y))

/-! ## §3. Conversions that keep the value. -/

variable {W} {t u : StandardType} {x : Int}

theorem width_pos (r : IntRank) : 8 ≤ W.width r := by
  have h := W.least r
  cases r <;> simp only [IntRank.leastWidth] at h <;> omega

theorem two_pow_half (r : IntRank) : (2 : Int) ^ W.width r = 2 * 2 ^ (W.width r - 1) := by
  have h := width_pos (W := W) r
  rw [← pow_succ', Nat.sub_add_cancel (by omega)]

theorem pow_width_mono {r r' : IntRank} (h : r.order ≤ r'.order) :
    (2 : Int) ^ W.width r ≤ 2 ^ W.width r' :=
  pow_le_pow_right₀ (by decide) (W.mono r r' h)

theorem half_pos (r : IntRank) : (0 : Int) < 2 ^ (W.width r - 1) := by positivity

theorem represents_signed (h : t.signed = true) : W.Represents t x ↔
    -2 ^ (W.width t.rank - 1) ≤ x ∧ x < 2 ^ (W.width t.rank - 1) := by
  rw [Represents, minValue, maxValue, if_pos h, if_pos h]
  omega

theorem represents_unsigned (h : t.signed = false) : W.Represents t x ↔
    0 ≤ x ∧ x < 2 ^ W.width t.rank := by
  rw [Represents, minValue, maxValue, if_neg (by simp [h]), if_neg (by simp [h])]
  omega

/-- A value of the type is converted to itself. -/
theorem convert_eq (h : W.Represents t x) : W.convert t x = x := by
  have hhalf := two_pow_half (W := W) t.rank
  cases hs : t.signed with
  | true =>
      rw [represents_signed hs] at h
      rw [convert, if_pos hs]
      refine Int.bmod_eq_of_le_mul_two ?_ ?_
      · push_cast
        omega
      · push_cast
        omega
  | false =>
      rw [represents_unsigned hs] at h
      rw [convert, if_neg (by simp [hs])]
      exact Int.emod_eq_of_lt h.1 h.2

theorem represents_mono (hsigned : t.signed = u.signed) (hrank : t.rank.order ≤ u.rank.order)
    (h : W.Represents t x) : W.Represents u x := by
  cases hs : u.signed with
  | true =>
      have hpow : (2 : Int) ^ (W.width t.rank - 1) ≤ 2 ^ (W.width u.rank - 1) :=
        pow_le_pow_right₀ (by decide) (Nat.sub_le_sub_right (W.mono _ _ hrank) 1)
      rw [represents_signed (hsigned.trans hs)] at h
      rw [represents_signed hs]
      omega
  | false =>
      have hpow := pow_width_mono (W := W) hrank
      rw [represents_unsigned (hsigned.trans hs)] at h
      rw [represents_unsigned hs]
      omega

/-- An unsigned type holds the values of every type of its rank or below that are not negative. -/
theorem represents_of_nonneg (hu : u.signed = false) (hrank : t.rank.order ≤ u.rank.order)
    (h : W.Represents t x) (hx : 0 ≤ x) : W.Represents u x := by
  have hpow := pow_width_mono (W := W) hrank
  have hhalf := two_pow_half (W := W) t.rank
  have hpos := half_pos (W := W) t.rank
  rw [represents_unsigned hu]
  cases hs : t.signed with
  | true =>
      rw [represents_signed hs] at h
      omega
  | false =>
      rw [represents_unsigned hs] at h
      omega

theorem covers_iff : W.covers t u = true ↔ ∀ x, W.Represents u x → W.Represents t x := by
  have hu : W.minValue u ≤ W.maxValue u := by
    have hhalf := half_pos (W := W) u.rank
    have hpow := two_pow_half (W := W) u.rank
    rw [minValue, maxValue]
    split <;> omega
  rw [covers, decide_eq_true_eq]
  constructor
  · intro h y hy
    exact ⟨le_trans h.1 hy.1, le_trans hy.2 h.2⟩
  · intro h
    exact ⟨(h _ ⟨le_refl _, hu⟩).1, (h _ ⟨hu, le_refl _⟩).2⟩

/-- Promotion keeps every value. -/
theorem promote_represents {T : IntType} (h : W.IsValue T x) : W.Represents (W.promote T) x := by
  cases T with
  | bool =>
      have hpow : (2 : Int) ^ 1 ≤ 2 ^ (W.width .int - 1) := by
        refine pow_le_pow_right₀ (by decide) ?_
        have hint := W.least .int
        simp only [IntRank.leastWidth] at hint
        omega
      rw [promote, represents_signed rfl]
      rcases h with rfl | rfl <;> constructor <;> linarith
  | standard t =>
      rw [promote]
      split
      · rename_i hrank
        split
        · rename_i hcovers
          exact covers_iff.mp hcovers x h
        · rename_i hcovers
          -- `int` holds the values of every smaller signed type
          have hunsigned : t.signed = false := by
            by_contra hs
            refine hcovers (covers_iff.mpr fun y hy => ?_)
            exact represents_mono (Bool.of_not_eq_false hs) (le_of_lt hrank) hy
          exact represents_mono hunsigned (le_of_lt hrank) h
      · exact h

/-! ## §4. The common type. -/

theorem order_inj {r r' : IntRank} (h : r.order = r'.order) : r = r' := by
  cases r <;> cases r' <;> first | rfl | cases h

theorem common_comm (t u : StandardType) : W.common t u = W.common u t := by
  obtain ⟨r, a⟩ := t
  obtain ⟨r', b⟩ := u
  unfold common
  by_cases hs : a = b
  · subst hs
    simp only [if_true]
    by_cases hle : r.order ≤ r'.order
    · by_cases hge : r'.order ≤ r.order
      · rw [order_inj (le_antisymm hle hge)]
      · rw [if_pos hle, if_neg hge]
    · rw [if_neg hle, if_pos (le_of_not_ge hle)]
  · cases a <;> cases b <;> first | exact absurd rfl hs | simp

theorem rank_le_common (t u : StandardType) : t.rank.order ≤ (W.common t u).rank.order := by
  unfold common mixed
  split
  · split <;> omega
  · split
    · split
      · assumption
      · split <;> exact le_refl _
    · split
      · exact le_refl _
      · rename_i hlt
        split <;> exact le_of_lt (Nat.lt_of_not_le hlt)

/-- A signed common type holds all values of both operands. -/
theorem common_signed (h : (W.common t u).signed = true) (hx : W.Represents t x) :
    W.Represents (W.common t u) x := by
  have hrank := rank_le_common (W := W) t u
  by_cases hs : t.signed = u.signed
  · refine represents_mono ?_ hrank hx
    unfold common at h ⊢
    rw [if_pos hs] at h ⊢
    split <;> first | exact hs | rfl
  · cases ht : t.signed with
    | true =>
        exact represents_mono (ht.trans h.symm) hrank hx
    | false =>
        -- then `u` is the signed operand, and the common type covers `t`
        unfold common mixed at h ⊢
        rw [if_neg hs, if_neg (by simp [ht])] at h ⊢
        split at h
        · rw [ht] at h
          cases h
        · rename_i hlt
          rw [if_neg hlt]
          split at h
          · rename_i hcovers
            rw [if_pos hcovers]
            exact covers_iff.mp hcovers x hx
          · cases h

/-- Operands of an unsigned comparison are not both negative. -/
theorem nonneg_of_unsigned {y : Int} (h : (W.common t u).signed = false) (hx : W.Represents t x)
    (hy : W.Represents u y) : 0 ≤ x ∨ 0 ≤ y := by
  cases ht : t.signed with
  | false => exact Or.inl ((represents_unsigned ht).mp hx).1
  | true =>
      cases hu : u.signed with
      | false => exact Or.inr ((represents_unsigned hu).mp hy).1
      | true =>
          unfold common at h
          rw [if_pos (ht.trans hu.symm)] at h
          split at h
          · cases hu.symm.trans h
          · cases ht.symm.trans h

/-- What an unsigned common type of width `w` makes of an operand. -/
def wrapped (w : Nat) (x : Int) : Int := if 0 ≤ x then x else x + 2 ^ w

/-- An unsigned common type keeps what is not negative, and adds 2^w to what is. -/
theorem common_unsigned (h : (W.common t u).signed = false) (hx : W.Represents t x) :
    W.convert (W.common t u) x = wrapped (W.width (W.common t u).rank) x := by
  have hrank := rank_le_common (W := W) t u
  unfold wrapped
  split
  · rename_i hnonneg
    exact convert_eq (represents_of_nonneg h hrank hx hnonneg)
  · rename_i hneg
    have hpow := pow_width_mono (W := W) hrank
    have hhalf := two_pow_half (W := W) t.rank
    have hpos := half_pos (W := W) t.rank
    have hlow : -2 ^ W.width (W.common t u).rank ≤ x := by
      cases hs : t.signed with
      | true =>
          rw [represents_signed hs] at hx
          omega
      | false =>
          rw [represents_unsigned hs] at hx
          omega
    rw [convert, if_neg (by simp [h]), ← Int.add_emod_right]
    exact Int.emod_eq_of_lt (by omega) (by omega)

/-- **What `<` compares**: the values, where the common type is signed; and otherwise the values
modulo 2^w. -/
theorem less_iff {T U : IntType} {x y : Int} (hx : W.IsValue T x) (hy : W.IsValue U y) :
    W.less T U x y = true ↔
      if (W.comparison T U).signed then x < y
      else wrapped (W.width (W.comparison T U).rank) x < wrapped (W.width (W.comparison T U).rank) y := by
  have hx' := promote_represents hx
  have hy' := promote_represents hy
  rw [less, decide_eq_true_eq, convert_eq hx', convert_eq hy']
  unfold comparison
  cases hs : (W.common (W.promote T) (W.promote U)).signed with
  | true =>
      have hs' := common_comm (W := W) (W.promote T) (W.promote U) ▸ hs
      rw [convert_eq (common_signed hs hx'), common_comm, convert_eq (common_signed hs' hy')]
      simp
  | false =>
      have hs' := common_comm (W := W) (W.promote T) (W.promote U) ▸ hs
      rw [common_unsigned hs hx', common_comm, common_unsigned hs' hy']
      simp

end DataModel

end Cpp
