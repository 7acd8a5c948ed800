/-
  MethanFV.Cpp.Expression.Evaluate — what an expression does when it is evaluated.

  The program under evaluation is a MACHINE: it says what its names, operators and calls do.  What
  the language itself fixes is written out here: operands before operators, short circuits, the one
  branch of `?:` that is taken, assignments from right to left and shifts from left to right (C++17),
  exceptions that end everything around them.  The order of the operands of the other binary
  operators, and that of the arguments of a call, is the implementation's.

  The state records the atoms that have been evaluated, with multiplicities.  `eval_evaluates` says
  that no expression is evaluated without a trace.
-/
import Mathlib.Data.Multiset.AddSub
import MethanFV.Cpp.Expression.Parse
import MethanFV.Cpp.Outcome

namespace Cpp

/-! ## §1. Machines. -/

/-- A program over the names `A`: its values are in `V` (lvalues among them), its states in `S`,
its exceptions in `X`, and `F` are the kinds of undefined behaviour. -/
structure Machine (A V S F X : Type) where
  atom : A → S → Outcome F X S V
  /-- The lvalue-to-rvalue conversion of an operand. -/
  load : V → S → Outcome F X S V
  /-- The conversion to `bool`. -/
  truth : V → S → Outcome F X S Bool
  bool : Bool → V
  unary : PrefixOp A → V → S → Outcome F X S V
  suffix : PostfixOp A → V → S → Outcome F X S V
  subscript : V → V → S → Outcome F X S V
  call : V → List V → S → Outcome F X S V
  binary : BinaryOp → V → V → S → Outcome F X S V
  assign : AssignOp → V → V → S → Outcome F X S V
  /-- The exception that `throw v` throws. -/
  raise : V → X
  /-- The left one of two operands is evaluated first. -/
  leftFirst : Expr A → Expr A → S → Bool
  argsLeftFirst : S → Bool

/-- A state, and the atoms that have been evaluated so far. -/
structure Traced (A S : Type) where
  state : S
  evaluated : Multiset A

variable {A V S F X : Type}

/-- An operation of the machine evaluates no atom. -/
def lift {α : Type} (o : S → Outcome F X S α) (s : Traced A S) : Outcome F X (Traced A S) α :=
  match o s.state with
  | .ok a s' => .ok a ⟨s', s.evaluated⟩
  | .threw x s' => .threw x ⟨s', s.evaluated⟩
  | .fault f => .fault f

/-- Two operands, one after the other. -/
def inOrder {α β : Type} (left : Bool) (x : Traced A S → Outcome F X (Traced A S) α)
    (y : Traced A S → Outcome F X (Traced A S) β) (s : Traced A S) :
    Outcome F X (Traced A S) (α × β) :=
  if left then
    (x s).andThen fun a s => (y s).andThen fun b s => .ok (a, b) s
  else
    (y s).andThen fun b s => (x s).andThen fun a s => .ok (a, b) s

/-- The operators whose left operand is evaluated first. -/
def BinaryOp.sequenced : BinaryOp → Bool
  | .comma | .lor | .land | .shl | .shr | .dotStar | .arrowStar => true
  | _ => false

/-! ## §2. Evaluation. -/

namespace Machine

variable (M : Machine A V S F X)

mutual

def eval : Expr A → Traced A S → Outcome F X (Traced A S) V
  | .atom a, s => lift (M.atom a) ⟨s.state, a ::ₘ s.evaluated⟩
  | .paren e, s => eval e s
  | .suffix p e, s => (eval e s).andThen fun v => lift (M.suffix p v)
  | .subscript e i, s =>
      (eval e s).andThen fun v s => (eval i s).andThen fun w => lift (M.subscript v w)
  | .call f args, s =>
      (eval f s).andThen fun v s => (evalArgs args s).andThen fun vs => lift (M.call v vs)
  | .unary u e, s => (eval e s).andThen fun v => lift (M.unary u v)
  | .binary .comma a b, s => (eval a s).andThen fun _ => eval b
  | .binary .lor a b, s =>
      (eval a s).andThen fun v s => (lift (M.truth v) s).andThen fun t s =>
        if t then .ok (M.bool true) s
        else (eval b s).andThen fun w s => (lift (M.truth w) s).andThen fun t => .ok (M.bool t)
  | .binary .land a b, s =>
      (eval a s).andThen fun v s => (lift (M.truth v) s).andThen fun t s =>
        if t then (eval b s).andThen fun w s => (lift (M.truth w) s).andThen fun t => .ok (M.bool t)
        else .ok (M.bool false) s
  | .binary op a b, s =>
      (inOrder (op.sequenced || M.leftFirst a b s.state)
        (fun s => (eval a s).andThen fun v => lift (M.load v))
        (fun s => (eval b s).andThen fun v => lift (M.load v)) s).andThen fun vw =>
          lift (M.binary op vw.1 vw.2)
  | .cond c a b, s =>
      (eval c s).andThen fun v s => (lift (M.truth v) s).andThen fun t s =>
        if t then eval a s else eval b s
  | .assign op a b, s =>
      (eval b s).andThen fun w s => (lift (M.load w) s).andThen fun w s =>
        (eval a s).andThen fun v => lift (M.assign op v w)
  | .throw e, s =>
      (eval e s).andThen fun v s => (lift (M.load v) s).andThen fun v => .threw (M.raise v)

/-- The arguments of a call. -/
def evalArgs : List (Expr A) → Traced A S → Outcome F X (Traced A S) (List V)
  | [], s => .ok [] s
  | e :: es, s =>
      (inOrder (M.argsLeftFirst s.state) (eval e) (evalArgs es) s).andThen fun vs =>
        .ok (vs.1 :: vs.2)

end

/-- An operand, converted to a value. -/
def operand (e : Expr A) (s : Traced A S) : Outcome F X (Traced A S) V :=
  (M.eval e s).andThen fun v => lift (M.load v)

theorem eval_binary {op : BinaryOp} (h1 : op ≠ .comma) (h2 : op ≠ .lor) (h3 : op ≠ .land)
    (a b : Expr A) (s : Traced A S) : M.eval (.binary op a b) s =
      (inOrder (op.sequenced || M.leftFirst a b s.state) (M.operand a) (M.operand b) s).andThen
        fun vw => lift (M.binary op vw.1 vw.2) := by
  cases op <;> first | contradiction | rfl

end Machine

/-! ## §3. Every evaluation leaves a trace. -/

section Trace

variable {α β : Type} {R : Multiset A → Multiset A → Prop} {s : Traced A S}

theorem lift_evaluates (o : S → Outcome F X S α) (s : Traced A S) :
    (lift o s).Leaves fun t => t.evaluated = s.evaluated := by
  unfold lift
  cases o s.state <;> trivial

/-- A further operation of the machine. -/
theorem evaluates_lift {o : Outcome F X (Traced A S) α} {k : α → S → Outcome F X S β}
    {m : Multiset A} (h : o.Leaves fun t => R m t.evaluated) :
    (o.andThen fun a => lift (k a)).Leaves fun t => R m t.evaluated := by
  refine h.andThen (fun _ h => h) fun a t ht => ?_
  exact (lift_evaluates (k a) t).mono fun t' ht' => ht' ▸ ht

/-- What follows evaluates no less. -/
theorem evaluates_next {o : Outcome F X (Traced A S) α}
    {k : α → Traced A S → Outcome F X (Traced A S) β} {m : Multiset A}
    (h : o.Leaves fun t => m < t.evaluated)
    (hk : ∀ a t, (k a t).Leaves fun t' => t.evaluated ≤ t'.evaluated) :
    (o.andThen k).Leaves fun t => m < t.evaluated :=
  h.andThen (fun _ h => h) fun a t ht => (hk a t).mono fun _ ht' => lt_of_lt_of_le ht ht'

theorem le_of_evaluates {o : Outcome F X (Traced A S) α} {m : Multiset A}
    (h : o.Leaves fun t => m < t.evaluated) : o.Leaves fun t => m ≤ t.evaluated :=
  h.mono fun _ ht => le_of_lt ht

/-- Two operands, in either order. -/
theorem inOrder_evaluates (htrans : ∀ a b c, R a b → R b c → R a c)
    {x : Traced A S → Outcome F X (Traced A S) α} {y : Traced A S → Outcome F X (Traced A S) β}
    (left : Bool) (s : Traced A S)
    (hx : ∀ t, (x t).Leaves fun t' => R t.evaluated t'.evaluated)
    (hy : ∀ t, (y t).Leaves fun t' => R t.evaluated t'.evaluated) :
    (inOrder left x y s).Leaves fun t => R s.evaluated t.evaluated := by
  cases left with
  | true =>
      refine (hx s).andThen (fun _ h => h) fun a t ht => ?_
      exact (hy t).andThen (fun t' ht' => htrans _ _ _ ht ht') fun b t' ht' => htrans _ _ _ ht ht'
  | false =>
      refine (hy s).andThen (fun _ h => h) fun b t ht => ?_
      exact (hx t).andThen (fun t' ht' => htrans _ _ _ ht ht') fun a t' ht' => htrans _ _ _ ht ht'

end Trace

namespace Machine

variable (M : Machine A V S F X)

theorem truth_evaluates {o : Outcome F X (Traced A S) V} {m : Multiset A}
    (h : o.Leaves fun t => m ≤ t.evaluated) :
    (o.andThen fun w s => (lift (M.truth w) s).andThen fun t => .ok (M.bool t)).Leaves
      fun t => m ≤ t.evaluated := by
  refine h.andThen (fun _ h => h) fun w t ht => ?_
  refine (lift_evaluates (M.truth w) t).andThen (fun t' ht' => ht' ▸ ht) fun b t' ht' => ?_
  show m ≤ t'.evaluated
  rw [ht']
  exact ht

mutual

/-- **No expression is evaluated without a trace.** -/
theorem eval_evaluates : ∀ (e : Expr A) (s : Traced A S),
    (M.eval e s).Leaves fun t => s.evaluated < t.evaluated
  | .atom a, s =>
      (lift_evaluates (M.atom a) ⟨s.state, a ::ₘ s.evaluated⟩).mono fun t ht => by
        rw [ht]
        exact Multiset.lt_cons_self s.evaluated a
  | .paren e, s => eval_evaluates e s
  | .suffix p e, s => evaluates_lift (eval_evaluates e s)
  | .unary u e, s => evaluates_lift (eval_evaluates e s)
  | .subscript e i, s =>
      evaluates_next (eval_evaluates e s) fun v t =>
        evaluates_lift (le_of_evaluates (eval_evaluates i t))
  | .call f args, s =>
      evaluates_next (eval_evaluates f s) fun v t => evaluates_lift (evalArgs_evaluates args t)
  | .binary op a b, s => by
      have hright : ∀ t : Traced A S, (M.eval b t).Leaves fun t' => t.evaluated ≤ t'.evaluated :=
        fun t => le_of_evaluates (eval_evaluates b t)
      cases op with
      | comma => exact evaluates_next (eval_evaluates a s) fun v t => hright t
      | lor =>
          refine evaluates_next (eval_evaluates a s) fun v t => ?_
          refine (lift_evaluates (M.truth v) t).andThen (fun _ h => le_of_eq h.symm) fun c t' h => ?_
          rw [← h]
          cases c with
          | true => exact le_refl t'.evaluated
          | false => exact M.truth_evaluates (hright t')
      | land =>
          refine evaluates_next (eval_evaluates a s) fun v t => ?_
          refine (lift_evaluates (M.truth v) t).andThen (fun _ h => le_of_eq h.symm) fun c t' h => ?_
          rw [← h]
          cases c with
          | false => exact le_refl t'.evaluated
          | true => exact M.truth_evaluates (hright t')
      | _ =>
          rw [M.eval_binary (by decide) (by decide) (by decide)]
          exact evaluates_lift (inOrder_evaluates (R := (· < ·)) (fun _ _ _ => lt_trans) _ s
            (fun t => evaluates_lift (eval_evaluates a t))
            fun t => evaluates_lift (eval_evaluates b t))
  | .cond c a b, s => by
      refine evaluates_next (eval_evaluates c s) fun v t => ?_
      refine (lift_evaluates (M.truth v) t).andThen (fun _ h => le_of_eq h.symm) fun d t' h => ?_
      rw [← h]
      cases d with
      | true => exact le_of_evaluates (eval_evaluates a t')
      | false => exact le_of_evaluates (eval_evaluates b t')
  | .assign op a b, s => by
      rw [eval, ← Outcome.andThen_assoc]
      refine evaluates_next (evaluates_lift (eval_evaluates b s)) fun w t => ?_
      exact evaluates_lift (le_of_evaluates (eval_evaluates a t))
  | .throw e, s => by
      rw [eval, ← Outcome.andThen_assoc]
      refine evaluates_next (evaluates_lift (eval_evaluates e s)) fun v t => ?_
      exact le_refl t.evaluated

theorem evalArgs_evaluates : ∀ (es : List (Expr A)) (s : Traced A S),
    (M.evalArgs es s).Leaves fun t => s.evaluated ≤ t.evaluated
  | [], s => le_refl s.evaluated
  | e :: es, s => by
      rw [evalArgs]
      refine (inOrder_evaluates (R := (· ≤ ·)) (fun _ _ _ => le_trans) (M.argsLeftFirst s.state) s
        (fun t => le_of_evaluates (eval_evaluates e t)) (evalArgs_evaluates es)).andThen
          (fun _ h => h) fun vs t ht => ht

end

end Machine

end Cpp
