/-
  MethanFV.Cpp.Bits — a word as the set of its bits that are set.

  `bits` turns the bitwise operators into the operations on sets, and comparing words after a bitwise
  `&` into comparing sets.
-/
import Mathlib.Data.Set.SymmDiff
import Mathlib.Order.ConditionallyCompleteLattice.Basic

namespace Cpp

variable {w : Nat}

/-- The positions of the bits that are set. -/
def bits (v : BitVec w) : Set (Fin w) := {i | v.getLsbD i = true}

theorem mem_bits {v : BitVec w} {i : Fin w} : i ∈ bits v ↔ v.getLsbD i = true := Iff.rfl

theorem bits_inj {a b : BitVec w} : bits a = bits b ↔ a = b := by
  constructor
  · intro h
    apply BitVec.eq_of_getLsbD_eq
    intro i hi
    have hmem : (⟨i, hi⟩ : Fin w) ∈ bits a ↔ (⟨i, hi⟩ : Fin w) ∈ bits b := by rw [h]
    rw [mem_bits, mem_bits] at hmem
    exact Bool.eq_iff_iff.mpr hmem
  · rintro rfl
    rfl

theorem bits_zero : bits (0 : BitVec w) = ∅ := by
  ext i
  simp [mem_bits]

theorem bits_or (a b : BitVec w) : bits (a ||| b) = bits a ∪ bits b := by
  ext i
  simp [mem_bits]

theorem bits_and (a b : BitVec w) : bits (a &&& b) = bits a ∩ bits b := by
  ext i
  simp [mem_bits]

theorem bits_xor (a b : BitVec w) : bits (a ^^^ b) = symmDiff (bits a) (bits b) := by
  ext i
  rw [Set.mem_symmDiff, mem_bits, mem_bits, mem_bits, BitVec.getLsbD_xor]
  cases a.getLsbD i <;> cases b.getLsbD i <;> simp

theorem bits_and_not (a b : BitVec w) : bits (a &&& ~~~b) = bits a \ bits b := by
  ext i
  simp [mem_bits]

theorem and_eq_left_iff {a b : BitVec w} : a &&& b = a ↔ bits a ⊆ bits b := by
  rw [← bits_inj, bits_and, Set.inter_eq_left]

end Cpp
