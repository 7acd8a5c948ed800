/-
  MethanFV.Cpp.Preprocessor.Expand — macro replacement (Prosser's algorithm).

  The expansion rules of the C and C++ preprocessor, executable:

      collect the arguments of a function-like macro   — `splitArgs`, `bindArgs`
      check their number                               — `Error.arity`
      expand each argument before substitution         — `substitute`
      `#` and `##` take the argument unexpanded        — `substPiece`
      rescan the result with the rest of the source    — `expand`
      never replace a name inside its own replacement  — the hide sets

  The recursion is on fuel; `Rules.lean` shows that the fuel only bounds the evaluator.
-/
import MethanFV.Cpp.Preprocessor.Token

namespace Cpp.Preprocessor

/-! ## §1. Macro definitions. -/

/-- An operand of `##`. -/
inductive Operand where
  | tok (text : String)
  | param (i : Nat)
  deriving DecidableEq, Repr

/-- A piece of a replacement list.  Parameters are named by position. -/
inductive Piece where
  /-- An ordinary token. -/
  | tok (text : String)
  /-- A parameter: replaced by its fully expanded argument. -/
  | param (i : Nat)
  /-- `# parameter`. -/
  | stringize (i : Nat)
  /-- `first ## second ## …`. -/
  | paste (first : Operand) (rest : List Operand)
  deriving DecidableEq, Repr

/-- A macro.  The variable part of a variadic macro is the parameter after the named ones.
A `poisoned` name must not be met at all (`#pragma GCC poison`). -/
inductive Macro where
  | object (body : List Piece)
  | function (params : List String) (variadic : Bool) (body : List Piece)
  | poisoned
  deriving DecidableEq, Repr

/-- The macros in force. -/
abbrev Env := String → Option Macro

/-! ## §2. Arguments. -/

/-- What `splitArgs` reads: the arguments, the closing parenthesis' hide set, the rest. -/
abbrev Args := List (List Token) × List String × List Token

/-- Put a token at the front of the first argument. -/
def Args.push (t : Token) : Args → Args
  | ([], h, r) => ([[t]], h, r)
  | (a :: as, h, r) => ((t :: a) :: as, h, r)

/-- Read an argument list up to its closing parenthesis, `d` parentheses deep.  Commas at depth 0
separate arguments, at most `limit` times (the variable part keeps its commas). -/
def splitArgs (limit : Option Nat) (d : Nat) : List Token → Option Args
  | [] => none
  | t :: ts =>
      if t.text = ")" then
        match d with
        | 0 => some ([[]], t.hide, ts)
        | d' + 1 => (splitArgs limit d' ts).map (Args.push t)
      else if t.text = "(" then (splitArgs limit (d + 1) ts).map (Args.push t)
      else if t.text = "," ∧ d = 0 ∧ limit ≠ some 0 then
        (splitArgs (limit.map (· - 1)) 0 ts).map fun a => ([] :: a.1, a.2)
      else (splitArgs limit d ts).map (Args.push t)

/-- The arity check.  The variable part may be left out; `F()` gives no argument to a macro
without parameters and one empty argument to a macro with one. -/
def bindArgs (name : String) (params : List String) (variadic : Bool)
    (args : List (List Token)) : Except Error (List (List Token)) :=
  if variadic then
    if args.length = params.length + 1 then .ok args
    else if args.length = params.length then .ok (args ++ [[]])
    else .error (.arity name args.length)
  else if args.length = params.length then .ok args
  else if params = [] ∧ args = [[]] then .ok []
  else .error (.arity name args.length)

/-- Read the invocation of a function-like macro after its name: `none` when no `(` follows. -/
def invocation (name : String) (params : List String) (variadic : Bool) :
    List Token → Except Error (Option Args)
  | [] => .ok none
  | p :: ts =>
      if p.text = "(" then
        match splitArgs (if variadic then some params.length else none) 0 ts with
        | none => .error (.unterminated name)
        | some a => (bindArgs name params variadic a.1).map fun actuals => some (actuals, a.2)
      else .ok none

/-! ## §3. Substitution. -/

/-- The unexpanded tokens of an operand of `##`. -/
def Operand.tokens (actuals : List (List Token)) : Operand → List Token
  | .tok s => [⟨s, []⟩]
  | .param i => actuals.getD i []

/-- One piece of a replacement list; `ex` expands an argument. -/
def substPiece (ex : List Token → Except Error (List Token)) (actuals : List (List Token)) :
    Piece → Except Error (List Token)
  | .tok s => .ok [⟨s, []⟩]
  | .param i => ex (actuals.getD i [])
  | .stringize i => .ok [stringizeTokens (actuals.getD i [])]
  | .paste o os => os.foldlM (fun l o' => glue l (o'.tokens actuals)) (o.tokens actuals)

/-- A whole replacement list. -/
def substitute (ex : List Token → Except Error (List Token)) (actuals : List (List Token)) :
    List Piece → Except Error (List Token)
  | [] => .ok []
  | p :: ps =>
      match substPiece ex actuals p with
      | .error e => .error e
      | .ok a =>
          match substitute ex actuals ps with
          | .error e => .error e
          | .ok b => .ok (a ++ b)

/-! ## §4. Expansion. -/

/-- Emit a token that is not replaced. -/
def emit (t : Token) (r : Except Error (List Token)) : Except Error (List Token) :=
  r.map (t :: ·)

/-- **Macro replacement** of a token sequence. -/
def expand (env : Env) : Nat → List Token → Except Error (List Token)
  | _, [] => .ok []
  | 0, _ :: _ => .error .fuel
  | f + 1, t :: ts =>
      match env t.text with
      | none => emit t (expand env f ts)
      | some .poisoned => .error (.poisoned t.text)
      | some (.object body) =>
          if t.text ∈ t.hide then emit t (expand env f ts)
          else
            match substitute (expand env f) [] body with
            | .error e => .error e
            | .ok r => expand env f (addHide (t.text :: t.hide) r ++ ts)
      | some (.function params variadic body) =>
          if t.text ∈ t.hide then emit t (expand env f ts)
          else
            match invocation t.text params variadic ts with
            | .error e => .error e
            | .ok none => emit t (expand env f ts)
            | .ok (some (actuals, h, rest)) =>
                match substitute (expand env f) actuals body with
                | .error e => .error e
                | .ok r =>
                    expand env f
                      (addHide (t.text :: t.hide.filter (· ∈ h)) r ++ rest)

/-- A self-referential object-like macro is replaced once and then left alone. -/
example : expand (fun s => if s = "x" then some (.object [.tok "f", .tok "x"]) else none) 9
    (plain ["x"]) = .ok [⟨"f", ["x"]⟩, ⟨"x", ["x"]⟩] := by rfl

end Cpp.Preprocessor
