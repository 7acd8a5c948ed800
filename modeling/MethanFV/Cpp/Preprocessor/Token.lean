/-
  MethanFV.Cpp.Preprocessor.Token — preprocessing tokens, hide sets and the `##` operator.

  A preprocessing token is held as its SPELLING together with its hide set: the names of the
  macros it came out of, which it may not be replaced by again.  Token classes (identifier,
  pp-number, punctuator, literal) are recognised from the spelling, so that `##` can be what the
  language says it is: concatenate two spellings, and the result must be ONE valid token.

  Whitespace is not represented.  Raw string literals are not recognised as results of `##`.
-/
import Mathlib.Data.List.Basic

namespace Cpp.Preprocessor

/-! ## §1. Lexical classes of a spelling. -/

/-- A character that may start an identifier. -/
def isIdentStart (c : Char) : Bool := c.isAlpha || c == '_'

/-- A character that may continue an identifier. -/
def isIdentChar (c : Char) : Bool := c.isAlphanum || c == '_'

/-- The spelling of an identifier. -/
def isIdentifierChars : List Char → Bool
  | [] => false
  | c :: cs => isIdentStart c && cs.all isIdentChar

def isIdentifier (s : String) : Bool := isIdentifierChars s.toList

/-- What may follow the first digit of a pp-number: digits, identifier characters, dots, and a
sign right after an exponent letter. -/
def isPPNumberTail : List Char → Bool
  | [] => true
  | [c] => isIdentChar c || c == '.'
  | c :: d :: cs =>
      if (c == 'e' || c == 'E' || c == 'p' || c == 'P') && (d == '+' || d == '-') then
        isPPNumberTail cs
      else (isIdentChar c || c == '.') && isPPNumberTail (d :: cs)

/-- The spelling of a pp-number: it starts with a digit, or with a dot and a digit. -/
def isPPNumber (s : String) : Bool :=
  match s.toList with
  | '.' :: c :: cs => c.isDigit && isPPNumberTail cs
  | c :: cs => c.isDigit && isPPNumberTail cs
  | [] => false

/-- The operators and punctuators of the preprocessing grammar. -/
def punctuators : List String :=
  ["(", ")", ",", ";", ":", "...", "?", "::", ".", ".*", "->", "->*", "~", "!", "+", "-", "*",
   "/", "%", "^", "&", "|", "=", "+=", "-=", "*=", "/=", "%=", "^=", "&=", "|=", "==", "!=",
   "<", ">", "<=", ">=", "<=>", "&&", "||", "<<", ">>", "<<=", ">>=", "++", "--", "[", "]",
   "\x7b", "\x7d", "#", "##"]

/-- What follows the closing quote `q` of a literal whose opening quote has been read. -/
def afterLiteral (q : Char) : List Char → Option (List Char)
  | [] => none
  | [c] => if c == q then some [] else none
  | c :: d :: cs =>
      if c == q then some (d :: cs)
      else if c.toNat == 92 then afterLiteral q cs
      else afterLiteral q (d :: cs)

/-- The double and the single quote. -/
def isQuote (c : Char) : Bool := c.toNat == 34 || c.toNat == 39

/-- The spelling of a string or character literal, with its encoding prefix and its user-defined
suffix. -/
def isLiteral (s : String) : Bool :=
  ["", "u8", "u", "U", "L"].any fun enc =>
    enc.toList.isPrefixOf s.toList &&
      match s.toList.drop enc.length with
      | c :: cs => isQuote c &&
          match afterLiteral c cs with
          | some rest => rest.isEmpty || isIdentifierChars rest
          | none => false
      | [] => false

/-- The spelling of one preprocessing token. -/
def isToken (s : String) : Bool :=
  isIdentifier s || isPPNumber s || punctuators.contains s || isLiteral s

/-! ## §2. Tokens and hide sets. -/

/-- A preprocessing token and its hide set. -/
structure Token where
  text : String
  hide : List String
  deriving DecidableEq, Repr

/-- Tokens as they stand in the source file: nothing is hidden. -/
def plain (texts : List String) : List Token := texts.map fun s => ⟨s, []⟩

/-- The spellings of a token list. -/
def texts (ts : List Token) : List String := ts.map Token.text

/-- Add names to the hide set of every token (Prosser's `hsadd`). -/
def addHide (names : List String) (ts : List Token) : List Token :=
  ts.map fun t => ⟨t.text, names ++ t.hide⟩

@[simp] theorem texts_nil : texts [] = [] := rfl

@[simp] theorem texts_cons (t : Token) (ts : List Token) :
    texts (t :: ts) = t.text :: texts ts := rfl

@[simp] theorem texts_append (a b : List Token) : texts (a ++ b) = texts a ++ texts b := by
  simp [texts]

@[simp] theorem texts_plain (l : List String) : texts (plain l) = l := by
  simp [texts, plain, Function.comp_def]

@[simp] theorem texts_addHide (names : List String) (ts : List Token) :
    texts (addHide names ts) = texts ts := by
  simp [texts, addHide, Function.comp_def]

@[simp] theorem addHide_nil (names : List String) : addHide names [] = [] := rfl

@[simp] theorem addHide_cons (names : List String) (t : Token) (ts : List Token) :
    addHide names (t :: ts) = ⟨t.text, names ++ t.hide⟩ :: addHide names ts := rfl

@[simp] theorem addHide_append (names : List String) (a b : List Token) :
    addHide names (a ++ b) = addHide names a ++ addHide names b := by
  simp [addHide]

/-- Why preprocessing stops. -/
inductive Error where
  /-- The evaluator's fuel ran out: not an error of the program. -/
  | fuel
  /-- The argument list of a macro is not closed. -/
  | unterminated (name : String)
  /-- A macro got the wrong number of arguments. -/
  | arity (name : String) (given : Nat)
  /-- `##` did not form a valid token. -/
  | invalidPaste (left right : String)
  /-- A poisoned identifier was met. -/
  | poisoned (name : String)
  deriving DecidableEq, Repr

/-- `a ## b`: one token, which stays hidden from the macros both operands are hidden from. -/
def pasteTokens (a b : Token) : Except Error Token :=
  if isToken (a.text ++ b.text) then
    .ok ⟨a.text ++ b.text, a.hide.filter (· ∈ b.hide)⟩
  else .error (.invalidPaste a.text b.text)

/-- `##` on token sequences: the last token of the left operand meets the first of the right
one; an empty operand is a placemarker. -/
def glue : List Token → List Token → Except Error (List Token)
  | [], r => .ok r
  | [a], [] => .ok [a]
  | [a], b :: r => (pasteTokens a b).map (· :: r)
  | a :: a' :: l, r => (glue (a' :: l) r).map (a :: ·)

/-- The spelling of one token inside a string literal: quotes and backslashes are escaped. -/
def escaped (s : String) : String :=
  String.ofList <| s.toList.flatMap fun c =>
    if c.toNat == 34 || c.toNat == 92 then [Char.ofNat 92, c] else [c]

/-- `# parameter`: the argument's spelling as a string literal. -/
def stringizeTokens (ts : List Token) : Token :=
  let quote := String.singleton (Char.ofNat 34)
  ⟨quote ++ String.join (ts.map fun t => escaped t.text) ++ quote, []⟩

end Cpp.Preprocessor
