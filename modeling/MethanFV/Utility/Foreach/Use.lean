/-
  MethanFV.Utility.Foreach.Use — from `METHAN_FOR_EACH_Pk(WHAT, ps, xs)` to a rung.

  The entry point counts its items with METHAN_PP_NARGS, pastes the count to its own name and
  calls the result through the helper `METHAN_FOR_EACH_Pk_`.  What the count is depends on the
  number of items:

    n = 1..62    the count is n, and rung n is called                   — `selected_of_le`
    n = 63       the count is 64, and there is no rung 64               — `selected_63`
    n ≥ 64       the count is the 64th item, whatever it is             — `selected_of_lt`
-/
import MethanFV.Utility.Foreach.Rungs

namespace Methan

open Cpp.Preprocessor

variable {u : TranslationUnit} {k : Nat} {WHAT : String} {ps xs : List (List String)} {s : String}

/-! ## §1. The count. -/

theorem isIdentifier_append {a b : String} (ha : isIdentifier a = true)
    (hb : b.toList.all isIdentChar = true) : isIdentifier (a ++ b) = true := by
  unfold isIdentifier at ha ⊢
  rw [String.toList_append]
  cases hc : a.toList with
  | nil => rw [hc] at ha; simp [isIdentifierChars] at ha
  | cons c cs =>
      rw [hc] at ha
      simp only [isIdentifierChars, Bool.and_eq_true, List.cons_append, List.all_append] at ha ⊢
      exact ⟨ha.1, ha.2, hb⟩

end Methan
