/-
  MethanFV.Cpp.Expression.Grammar — the expressions of C++17: their operators, the precedence of
  each, and the tokens that an expression is written with.

    * `Expr.level`        — the precedence of the operator at the root;
    * `Expr.Grammatical`  — every operand binds at least as tightly as its place asks;
    * `Expr.tokens`       — the expression as it is written, without any parenthesis of its own.

  The levels are those of the grammar: 1 for the comma operator, 2 for assignments, `?:` and `throw`,
  3 to 13 for the binary operators from `||` to `.*`, 14 for the prefix operators and casts, 15 for
  the postfix operators, and 16 for what stands on its own.

  Names, literals, lambdas and the other primary expressions are atoms, and so are operators that do
  not evaluate their operand (`sizeof e`).
-/
import Mathlib.Data.List.Basic

namespace Cpp

/-! ## §1. Operators. -/

inductive BinaryOp where
  | comma
  | lor | land | or | xor | and
  | eq | ne
  | lt | gt | le | ge
  | shl | shr
  | add | sub
  | mul | div | mod
  | dotStar | arrowStar
  deriving DecidableEq, Repr

def BinaryOp.level : BinaryOp → Nat
  | .comma => 1
  | .lor => 3
  | .land => 4
  | .or => 5
  | .xor => 6
  | .and => 7
  | .eq | .ne => 8
  | .lt | .gt | .le | .ge => 9
  | .shl | .shr => 10
  | .add | .sub => 11
  | .mul | .div | .mod => 12
  | .dotStar | .arrowStar => 13

/-- `=` and the compound assignments. -/
inductive AssignOp where
  | assign
  | mul | div | mod | add | sub | shr | shl | and | xor | or
  deriving DecidableEq, Repr

/-- The prefix operators, and casts to a type `T`. -/
inductive PrefixOp (A : Type) where
  | inc | dec | plus | minus | not | compl | deref | address
  | cast (T : A)
  deriving DecidableEq, Repr

/-- The postfix operators without an operand of their own, `.name` and `->name` among them. -/
inductive PostfixOp (A : Type) where
  | inc | dec
  | member (arrow : Bool) (name : A)
  deriving DecidableEq, Repr

/-! ## §2. Tokens. -/

/-- The tokens of expressions over the names `A`.  `+`, `-`, `*` and `&` are the tokens of binary
operators wherever they stand. -/
inductive ExprToken (A : Type) where
  | atom (a : A)
  | cast (T : A)
  | member (arrow : Bool) (name : A)
  | binary (op : BinaryOp)
  | assign (op : AssignOp)
  | not | compl | inc | dec
  | throw
  | lparen | rparen | lbrack | rbrack
  | question | colon
  deriving DecidableEq, Repr

variable {A : Type}

def PrefixOp.token : PrefixOp A → ExprToken A
  | .inc => .inc
  | .dec => .dec
  | .plus => .binary .add
  | .minus => .binary .sub
  | .not => .not
  | .compl => .compl
  | .deref => .binary .mul
  | .address => .binary .and
  | .cast T => .cast T

def PostfixOp.token : PostfixOp A → ExprToken A
  | .inc => .inc
  | .dec => .dec
  | .member arrow name => .member arrow name

/-- What the token means where an operand is due. -/
def ExprToken.asPrefixOp : ExprToken A → Option (PrefixOp A)
  | .inc => some .inc
  | .dec => some .dec
  | .binary .add => some .plus
  | .binary .sub => some .minus
  | .not => some .not
  | .compl => some .compl
  | .binary .mul => some .deref
  | .binary .and => some .address
  | .cast T => some (.cast T)
  | _ => none

/-- What the token means after an operand. -/
def ExprToken.asPostfixOp : ExprToken A → Option (PostfixOp A)
  | .inc => some .inc
  | .dec => some .dec
  | .member arrow name => some (.member arrow name)
  | _ => none

@[simp] theorem PrefixOp.asPrefixOp_token (u : PrefixOp A) : u.token.asPrefixOp = some u := by
  cases u <;> rfl

@[simp] theorem PostfixOp.asPostfixOp_token (p : PostfixOp A) : p.token.asPostfixOp = some p := by
  cases p <;> rfl

theorem ExprToken.token_of_asPrefixOp {t : ExprToken A} {u : PrefixOp A} (h : t.asPrefixOp = some u) :
    u.token = t := by
  unfold ExprToken.asPrefixOp at h
  split at h <;> first | (cases h; rfl) | cases h

/-! ## §3. Expressions. -/

inductive Expr (A : Type) where
  | atom (a : A)
  | paren (e : Expr A)
  | suffix (p : PostfixOp A) (e : Expr A)
  | subscript (e i : Expr A)
  | call (f : Expr A) (args : List (Expr A))
  | unary (u : PrefixOp A) (e : Expr A)
  | binary (op : BinaryOp) (a b : Expr A)
  | cond (c a b : Expr A)
  | assign (op : AssignOp) (a b : Expr A)
  | throw (e : Expr A)

namespace Expr

def level : Expr A → Nat
  | .atom _ | .paren _ => 16
  | .suffix _ _ | .subscript _ _ | .call _ _ => 15
  | .unary _ _ => 14
  | .binary op _ _ => op.level
  | .cond _ _ _ | .assign _ _ _ | .throw _ => 2

mutual

/-- Every operand binds tightly enough for its place. -/
def Grammatical : Expr A → Prop
  | .atom _ => True
  | .paren e => e.Grammatical
  | .suffix _ e => e.Grammatical ∧ 15 ≤ e.level
  | .subscript e i => (e.Grammatical ∧ 15 ≤ e.level) ∧ i.Grammatical
  | .call f args => (f.Grammatical ∧ 15 ≤ f.level) ∧ AllGrammatical args
  | .unary _ e => e.Grammatical ∧ 14 ≤ e.level
  | .binary op a b =>
      (a.Grammatical ∧ op.level ≤ a.level) ∧ b.Grammatical ∧ op.level + 1 ≤ b.level
  | .cond c a b => (c.Grammatical ∧ 3 ≤ c.level) ∧ a.Grammatical ∧ b.Grammatical ∧ 2 ≤ b.level
  | .assign _ a b => (a.Grammatical ∧ 3 ≤ a.level) ∧ b.Grammatical ∧ 2 ≤ b.level
  | .throw e => e.Grammatical ∧ 2 ≤ e.level

/-- Arguments are separated by commas, so that none of them is a comma operator. -/
def AllGrammatical : List (Expr A) → Prop
  | [] => True
  | e :: es => (e.Grammatical ∧ 2 ≤ e.level) ∧ AllGrammatical es

end

mutual

def tokens : Expr A → List (ExprToken A)
  | .atom a => [.atom a]
  | .paren e => .lparen :: (e.tokens ++ [.rparen])
  | .suffix p e => e.tokens ++ [p.token]
  | .subscript e i => e.tokens ++ .lbrack :: (i.tokens ++ [.rbrack])
  | .call f [] => f.tokens ++ [.lparen, .rparen]
  | .call f (a :: args) => f.tokens ++ .lparen :: (a.tokens ++ restTokens args)
  | .unary u e => u.token :: e.tokens
  | .binary op a b => a.tokens ++ .binary op :: b.tokens
  | .cond c a b => c.tokens ++ .question :: (a.tokens ++ .colon :: b.tokens)
  | .assign op a b => a.tokens ++ .assign op :: b.tokens
  | .throw e => .throw :: e.tokens

/-- The arguments of a call after the first, and the closing parenthesis. -/
def restTokens : List (Expr A) → List (ExprToken A)
  | [] => [.rparen]
  | e :: es => .binary .comma :: (e.tokens ++ restTokens es)

end

end Expr

theorem BinaryOp.level_pos (op : BinaryOp) : 1 ≤ op.level := by
  cases op <;> decide

theorem BinaryOp.level_le (op : BinaryOp) : op.level ≤ 13 := by
  cases op <;> decide

/-- No binary operator binds as an assignment does. -/
theorem BinaryOp.level_ne (op : BinaryOp) : op.level ≠ 2 := by
  cases op <;> decide

theorem BinaryOp.eq_comma {op : BinaryOp} (h : op.level ≤ 2) : op = .comma := by
  cases op <;> first | rfl | (simp [BinaryOp.level] at h)

theorem Expr.level_pos (e : Expr A) : 1 ≤ e.level := by
  cases e with
  | binary op a b => exact op.level_pos
  | _ => simp [Expr.level]

theorem Expr.allGrammatical_iff {es : List (Expr A)} :
    AllGrammatical es ↔ ∀ e ∈ es, e.Grammatical ∧ 2 ≤ e.level := by
  induction es with
  | nil => simp [AllGrammatical]
  | cons e es ih => simp [AllGrammatical, ih]

end Cpp
