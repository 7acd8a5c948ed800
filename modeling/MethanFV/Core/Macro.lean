/-
  MethanFV.Core.Macro — the macros of `core/details/macro.hpp` and `core/except.hpp` that the
  utilities are built from.

  Each definition is the macro of that name; its parameters keep the names of the source and are
  used by position.  `methanPpNargs` is the argument counter: the arguments are followed by the
  list `64, 62, 61, …, 1, 0`, and the macro returns whatever then stands in 64th place.
-/
import MethanFV.Cpp.Preprocessor.Arguments

namespace Methan

open Cpp.Preprocessor

/-! ## §1. `core/details/macro.hpp`. -/

/-- `__METHAN_EXPAND_DETAILS(x)  x` -/
def expandDetails : Macro := .function ["x"] false [.param 0]

/-- `__METHAN_CONCATENATE_DETAILS(a, b)  a ## b` -/
def concatenateDetails : Macro := .function ["a", "b"] false [.paste (.param 0) [.param 1]]

/-- `__METHAN_STRINGIZE_DETAILS(x)  #x` -/
def stringizeDetails : Macro := .function ["x"] false [.stringize 0]

/-- `__METHAN_ECAPSULATE_LINE_DETAILS(line)  do { line } while(0)` -/
def ecapsulateLineDetails : Macro :=
  .function ["line"] false
    [.tok "do", .tok "\x7b", .param 0, .tok "\x7d", .tok "while", .tok "(", .tok "0", .tok ")"]

/-- `__METHAN_PP_NARG_DETAILS(...)  METHAN_EXPAND(__METHAN_PP_ARGN_DETAILS(__VA_ARGS__))` -/
def ppNargDetails : Macro :=
  .function [] true
    (callPieces (.tok "METHAN_EXPAND") [callPieces (.tok "__METHAN_PP_ARGN_DETAILS") [[.param 0]]])

/-- `__METHAN_PP_ARGN_DETAILS(_1, …, _63, N, ...)  N` -/
def ppArgnDetails : Macro :=
  .function ((List.range 63).map (fun i => "_" ++ toString (i + 1)) ++ ["N"]) true [.param 63]

/-- The list that `__METHAN_PP_RSEQ_N_DETAILS()` stands for. -/
def rseqN : List String :=
  ["64", "62", "61", "60", "59", "58", "57", "56", "55", "54", "53", "52", "51", "50", "49", "48",
   "47", "46", "45", "44", "43", "42", "41", "40", "39", "38", "37", "36", "35", "34", "33", "32",
   "31", "30", "29", "28", "27", "26", "25", "24", "23", "22", "21", "20", "19", "18", "17", "16",
   "15", "14", "13", "12", "11", "10", "9", "8", "7", "6", "5", "4", "3", "2", "1", "0"]

/-- `__METHAN_PP_RSEQ_N_DETAILS()  64,62,61,…,1,0` -/
def ppRseqNDetails : Macro :=
  .function [] false (commaSep (rseqN.map fun s => [.tok s]))

/-! ## §2. `core/except.hpp`. -/

/-- `METHAN_EXPAND(x)  __METHAN_EXPAND_DETAILS(x)` -/
def methanExpand : Macro :=
  .function ["x"] false (callPieces (.tok "__METHAN_EXPAND_DETAILS") [[.param 0]])

/-- `METHAN_CONCATENATE(a, b)  __METHAN_CONCATENATE_DETAILS(a, b)` -/
def methanConcatenate : Macro :=
  .function ["a", "b"] false
    (callPieces (.tok "__METHAN_CONCATENATE_DETAILS") [[.param 0], [.param 1]])

/-- `METHAN_STRINGIZE(x)  __METHAN_STRINGIZE_DETAILS(x)` -/
def methanStringize : Macro :=
  .function ["x"] false (callPieces (.tok "__METHAN_STRINGIZE_DETAILS") [[.param 0]])

/-- `METHAN_ECAPSULATE_LINE_DETAILS(line)  __METHAN_ECAPSULATE_LINE_DETAILS(line)` -/
def methanEcapsulateLineDetails : Macro :=
  .function ["line"] false (callPieces (.tok "__METHAN_ECAPSULATE_LINE_DETAILS") [[.param 0]])

/-- `METHAN_PP_NARGS(...)  __METHAN_PP_NARG_DETAILS(__VA_ARGS__, __METHAN_PP_RSEQ_N_DETAILS())` -/
def methanPpNargs : Macro :=
  .function [] true
    (callPieces (.tok "__METHAN_PP_NARG_DETAILS")
      [[.param 0], callPieces (.tok "__METHAN_PP_RSEQ_N_DETAILS") []])

/-- The macros above under their names. -/
def coreTable : List (String × Macro) :=
  [("METHAN_EXPAND", methanExpand),
   ("__METHAN_EXPAND_DETAILS", expandDetails),
   ("METHAN_CONCATENATE", methanConcatenate),
   ("__METHAN_CONCATENATE_DETAILS", concatenateDetails),
   ("METHAN_STRINGIZE", methanStringize),
   ("__METHAN_STRINGIZE_DETAILS", stringizeDetails),
   ("METHAN_ECAPSULATE_LINE_DETAILS", methanEcapsulateLineDetails),
   ("__METHAN_ECAPSULATE_LINE_DETAILS", ecapsulateLineDetails),
   ("METHAN_PP_NARGS", methanPpNargs),
   ("__METHAN_PP_NARG_DETAILS", ppNargDetails),
   ("__METHAN_PP_ARGN_DETAILS", ppArgnDetails),
   ("__METHAN_PP_RSEQ_N_DETAILS", ppRseqNDetails)]

/-! ## §3. The counting list. -/

theorem rseqN_head : rseqN[0]? = some "64" := rfl

end Methan
