/-
  MethanFV.Cpp.Expression.Parse — operator-precedence parsing of expressions.

  The parser reads its tokens once, from left to right.  It keeps the operators that still wait for
  an operand on a stack of FRAMES, and gives an operand to the frame on top when the next operator
  binds less tightly than that frame demands.

    * `reads`      — the tokens of an expression are read as that expression, in every context;
    * `step_fits`  — whatever is read is grammatical, and nothing is lost;
    * `parse_iff`  — so that `parse` finds the one expression the tokens spell.
-/
import MethanFV.Cpp.Expression.Grammar

namespace Cpp

variable {A : Type}

/-! ## §1. Frames. -/

/-- An operator that waits for an operand. -/
inductive Frame (A : Type) where
  | paren
  | subscript (e : Expr A)
  | args (f : Expr A) (read : List (Expr A))
  | middle (c : Expr A)
  | unary (u : PrefixOp A)
  | binary (op : BinaryOp) (a : Expr A)
  | cond (c a : Expr A)
  | assign (op : AssignOp) (a : Expr A)
  | throw

/-- How tightly the operand has to bind. -/
def Frame.demand : Frame A → Nat
  | .paren | .subscript _ | .middle _ => 1
  | .args _ _ | .cond _ _ | .assign _ _ | .throw => 2
  | .binary op _ => op.level + 1
  | .unary _ => 14

/-- The frame with its operand, unless it waits for a token after the operand. -/
def Frame.fill : Frame A → Expr A → Option (Expr A)
  | .unary u, e => some (.unary u e)
  | .binary op a, e => some (.binary op a e)
  | .cond c a, e => some (.cond c a e)
  | .assign op a, e => some (.assign op a e)
  | .throw, e => some (.throw e)
  | _, _ => none

/-- The demand of the topmost frame. -/
def demand : List (Frame A) → Nat
  | [] => 1
  | f :: _ => f.demand

/-- The operator that comes next has level `ℓ`: fill the frames that bind more tightly. -/
def reduce (ℓ : Nat) : List (Frame A) → Expr A → List (Frame A) × Expr A
  | [], e => ([], e)
  | f :: K, e =>
      match f.fill e with
      | some e' => if ℓ < f.demand then reduce ℓ K e' else (f :: K, e)
      | none => (f :: K, e)

/-! ## §2. The parser. -/

inductive ParseState (A : Type) where
  /-- An operand is due. -/
  | operand (K : List (Frame A))
  /-- An operand has been read. -/
  | operator (K : List (Frame A)) (e : Expr A)

/-- An operator between two operands: its level, and the frame that holds its left operand. -/
def ExprToken.asInfixOp : ExprToken A → Option (Nat × (Expr A → Frame A))
  | .binary op => some (op.level, .binary op)
  | .assign op => some (2, .assign op)
  | .question => some (2, .middle)
  | _ => none

/-- Read a token where an operand is due. -/
def stepOperand (K : List (Frame A)) : ExprToken A → Option (ParseState A)
  | .atom a => some (.operator K (.atom a))
  | .lparen => some (.operand (.paren :: K))
  | .throw => if demand K ≤ 2 then some (.operand (.throw :: K)) else none
  | .rparen =>
      match K with
      | .args f [] :: K' => some (.operator K' (.call f []))
      | _ => none
  | t => t.asPrefixOp.map fun u => .operand (.unary u :: K)

/-- Close the innermost bracket. -/
def close (t : ExprToken A) : List (Frame A) × Expr A → Option (ParseState A)
  | (.paren :: K, e) => if t matches .rparen then some (.operator K (.paren e)) else none
  | (.args f read :: K, e) =>
      match t with
      | .rparen => some (.operator K (.call f (read ++ [e])))
      | .binary .comma => some (.operand (.args f (read ++ [e]) :: K))
      | _ => none
  | (.subscript a :: K, e) => if t matches .rbrack then some (.operator K (.subscript a e)) else none
  | (.middle c :: K, e) => if t matches .colon then some (.operand (.cond c e :: K)) else none
  | _ => none

/-- Read a token after an operand. -/
def stepOperator (K : List (Frame A)) (e : Expr A) (t : ExprToken A) : Option (ParseState A) :=
  match t with
  | .lparen => some (.operand (.args e [] :: K))
  | .lbrack => some (.operand (.subscript e :: K))
  | .rparen | .rbrack | .colon => close t (reduce 0 K e)
  | .binary .comma =>
      match reduce 1 K e with
      | (.args f read :: K', e') => close t (.args f read :: K', e')
      | (K', e') => some (.operand (.binary .comma e' :: K'))
  | _ =>
      match t.asPostfixOp with
      | some p => some (.operator K (.suffix p e))
      | none => t.asInfixOp.map fun i => .operand (i.2 (reduce i.1 K e).2 :: (reduce i.1 K e).1)

def ParseState.step : ParseState A → ExprToken A → Option (ParseState A)
  | .operand K, t => stepOperand K t
  | .operator K e, t => stepOperator K e t

def ParseState.run (s : ParseState A) : List (ExprToken A) → Option (ParseState A)
  | [] => some s
  | t :: ts => (s.step t).bind fun s' => s'.run ts

/-- The expression that has been read. -/
def ParseState.result : ParseState A → Option (Expr A)
  | .operand _ => none
  | .operator K e =>
      match reduce 0 K e with
      | ([], e') => some e'
      | _ => none

/-- The expression that the tokens spell. -/
def parse (ts : List (ExprToken A)) : Option (Expr A) :=
  ((ParseState.operand []).run ts).bind ParseState.result

theorem ParseState.run_append (s : ParseState A) (ts us : List (ExprToken A)) :
    s.run (ts ++ us) = (s.run ts).bind fun s' => s'.run us := by
  induction ts generalizing s with
  | nil => rfl
  | cons t ts ih =>
      rw [List.cons_append, run, run]
      cases s.step t with
      | none => rfl
      | some s' => exact ih s'

/-! ## §3. Expressions are read as themselves. -/

/-- An operator of a lower level ends the expression. -/
def Expr.limit : Expr A → Nat
  | .unary _ _ => 14
  | .binary op _ _ => op.level + 1
  | .cond _ _ _ | .assign _ _ _ | .throw _ => 2
  | _ => 16

theorem Expr.level_le_limit (e : Expr A) : e.level ≤ e.limit := by
  cases e <;> simp [Expr.level, Expr.limit]

/-- A left operand ends where its operator stands. -/
theorem Expr.level_lt_limit {e : Expr A} {op : BinaryOp} (h : op.level ≤ e.level) :
    op.level < e.limit := by
  have hle := op.level_le
  have hne := op.level_ne
  cases e <;> simp only [Expr.level, Expr.limit] at h ⊢ <;> omega

theorem reduce_of_demand {ℓ : Nat} {K : List (Frame A)} (h : demand K ≤ ℓ) (e : Expr A) :
    reduce ℓ K e = (K, e) := by
  cases K with
  | nil => rfl
  | cons f K =>
      rw [reduce]
      cases f.fill e with
      | none => rfl
      | some e' => exact if_neg (Nat.not_lt.mpr h)

theorem reduce_fill {ℓ : Nat} {f : Frame A} {K : List (Frame A)} {e e' : Expr A}
    (hf : f.fill e = some e') (h : ℓ < f.demand) : reduce ℓ (f :: K) e = reduce ℓ K e' := by
  rw [reduce, hf]
  exact if_pos h

theorem reduce_bracket {f : Frame A} {e : Expr A} (hf : f.fill e = none) (ℓ : Nat)
    (K : List (Frame A)) : reduce ℓ (f :: K) e = (f :: K, e) := by
  rw [reduce, hf]

/-- The state after `e` was read on top of `K`. -/
def ReadsAs (K : List (Frame A)) (e : Expr A) (s : ParseState A) : Prop :=
  ∃ K' e', s = .operator K' e' ∧ (15 ≤ e.level → K' = K ∧ e' = e) ∧
    ∀ ℓ < e.limit, reduce ℓ K' e' = reduce ℓ K e

theorem ReadsAs.refl (K : List (Frame A)) (e : Expr A) : ReadsAs K e (.operator K e) :=
  ⟨K, e, rfl, fun _ => ⟨rfl, rfl⟩, fun _ _ => rfl⟩

theorem Frame.level_of_fill {f : Frame A} {b e : Expr A} (h : f.fill b = some e) :
    e.level < 15 ∧ e.limit = f.demand := by
  cases f with
  | binary op a =>
      cases h
      exact ⟨Nat.lt_of_le_of_lt op.level_le (by decide), rfl⟩
  | paren | subscript | args | middle => cases h
  | unary | cond | assign | throw =>
      cases h
      exact ⟨by simp [Expr.level], rfl⟩

/-- The last operand of an operator. -/
theorem ReadsAs.fill {f : Frame A} {K : List (Frame A)} {b e : Expr A} {s : ParseState A}
    (h : ReadsAs (f :: K) b s) (hf : f.fill b = some e) (hb : f.demand ≤ b.level) :
    ReadsAs K e s := by
  obtain ⟨K', e', rfl, -, hreduce⟩ := h
  obtain ⟨hlevel, hlimit⟩ := Frame.level_of_fill hf
  refine ⟨K', e', rfl, fun h => absurd h (by omega), fun ℓ hℓ => ?_⟩
  have hlt : ℓ < f.demand := hlimit ▸ hℓ
  have hle := b.level_le_limit
  rw [hreduce ℓ (by omega), reduce_fill hf hlt]

section Steps

variable {K : List (Frame A)} {e : Expr A} {s : ParseState A}

theorem ReadsAs.of_suffix_level (h : ReadsAs K e s) (he : 15 ≤ e.level) : s = .operator K e := by
  obtain ⟨K', e', rfl, heq, -⟩ := h
  obtain ⟨rfl, rfl⟩ := heq he
  rfl

theorem ReadsAs.step_binary (h : ReadsAs K e s) {op : BinaryOp} (hop : op.level ≤ e.level)
    (hK : demand K ≤ op.level) : s.step (.binary op) = some (.operand (.binary op e :: K)) := by
  obtain ⟨K', e', rfl, -, hreduce⟩ := h
  have hr := (hreduce op.level (Expr.level_lt_limit hop)).trans (reduce_of_demand hK e)
  show stepOperator K' e' (.binary op) = _
  by_cases hcomma : op = .comma
  · subst hcomma
    have hr : reduce 1 K' e' = (K, e) := hr
    cases K with
    | nil => rw [stepOperator, hr]
    | cons f K =>
        cases f with
        | args g read =>
            -- between arguments, a comma is not an operator
            have hK : 2 ≤ 1 := hK
            omega
        | _ => rw [stepOperator, hr]
  · cases op <;> first | exact absurd rfl hcomma | skip
    all_goals
      simp only [stepOperator, ExprToken.asPostfixOp, ExprToken.asInfixOp, Option.map_some, hr]

theorem ReadsAs.step_right (h : ReadsAs K e s) (he : 3 ≤ e.level) (hK : demand K ≤ 2)
    {t : ExprToken A} {F : Expr A → Frame A} (ht : (∃ op, t = .assign op) ∨ t = .question)
    (hF : t.asInfixOp = some (2, F)) : s.step t = some (.operand (F e :: K)) := by
  obtain ⟨K', e', rfl, -, hreduce⟩ := h
  have hle := e.level_le_limit
  have hr := (hreduce 2 (by omega)).trans (reduce_of_demand hK e)
  show stepOperator K' e' t = _
  rcases ht with ⟨op, rfl⟩ | rfl
  all_goals
    simp only [stepOperator, ExprToken.asPostfixOp, hF, Option.map_some, hr]

/-- A closing token meets its bracket. -/
theorem ReadsAs.step_close {f : Frame A} (h : ReadsAs (f :: K) e s) (hf : f.fill e = none)
    {t : ExprToken A} (ht : t = .rparen ∨ t = .rbrack ∨ t = .colon) :
    s.step t = close t (f :: K, e) := by
  obtain ⟨K', e', rfl, -, hreduce⟩ := h
  have hpos := e.level_pos
  have hle := e.level_le_limit
  have hr := (hreduce 0 (by omega)).trans (reduce_bracket hf 0 K)
  show stepOperator K' e' t = _
  rcases ht with rfl | rfl | rfl
  all_goals rw [stepOperator, hr]

/-- A comma between the arguments of a call. -/
theorem ReadsAs.step_argument {f : Expr A} {read : List (Expr A)}
    (h : ReadsAs (.args f read :: K) e s) (he : 2 ≤ e.level) :
    s.step (.binary .comma) = some (.operand (.args f (read ++ [e]) :: K)) := by
  obtain ⟨K', e', rfl, -, hreduce⟩ := h
  have hle := e.level_le_limit
  have hr := (hreduce 1 (by omega)).trans (reduce_bracket rfl 1 K)
  show stepOperator K' e' (.binary .comma) = _
  rw [stepOperator, hr]
  rfl

end Steps

/-- Reading on after a first part. -/
theorem ParseState.run_of_append {s s' : ParseState A} {ts us : List (ExprToken A)}
    {P : ParseState A → Prop} (h : s.run ts = some s') (h' : ∃ r, s'.run us = some r ∧ P r) :
    ∃ r, s.run (ts ++ us) = some r ∧ P r := by
  obtain ⟨r, hr, hP⟩ := h'
  exact ⟨r, by rw [s.run_append, h]; exact hr, hP⟩

theorem ParseState.run_of_cons {s s' : ParseState A} {t : ExprToken A} {us : List (ExprToken A)}
    {P : ParseState A → Prop} (h : s.step t = some s') (h' : ∃ r, s'.run us = some r ∧ P r) :
    ∃ r, s.run (t :: us) = some r ∧ P r := by
  obtain ⟨r, hr, hP⟩ := h'
  exact ⟨r, by rw [run, h]; exact hr, hP⟩

theorem stepOperand_unary (K : List (Frame A)) (u : PrefixOp A) :
    stepOperand K u.token = some (.operand (.unary u :: K)) := by
  cases u <;> rfl

theorem stepOperator_suffix (K : List (Frame A)) (e : Expr A) (p : PostfixOp A) :
    stepOperator K e p.token = some (.operator K (.suffix p e)) := by
  cases p <;> rfl

mutual

/-- **An expression is read as itself**, wherever an operand as loose as it may stand. -/
theorem reads : ∀ (e : Expr A), e.Grammatical → ∀ K : List (Frame A), demand K ≤ e.level →
    ∃ s, (ParseState.operand K).run e.tokens = some s ∧ ReadsAs K e s
  | .atom a, _, K, _ => ⟨_, rfl, .refl K _⟩
  | .paren e, h, K, _ => by
      obtain ⟨s, hs, hread⟩ := reads e h (.paren :: K) e.level_pos
      have hopen : (ParseState.operand K).step .lparen = some (.operand (.paren :: K)) := rfl
      refine ParseState.run_of_cons hopen
        (ParseState.run_of_append hs (ParseState.run_of_cons ?_ ⟨_, rfl, .refl K _⟩))
      exact hread.step_close rfl (Or.inl rfl)
  | .suffix p e, h, K, hK => by
      obtain ⟨s, hs, hread⟩ := reads e h.1 K (Nat.le_trans hK h.2)
      rw [hread.of_suffix_level h.2] at hs
      exact ParseState.run_of_append hs
        (ParseState.run_of_cons (stepOperator_suffix K e p) ⟨_, rfl, .refl K _⟩)
  | .subscript e i, h, K, hK => by
      obtain ⟨s, hs, hread⟩ := reads e h.1.1 K (Nat.le_trans hK h.1.2)
      rw [hread.of_suffix_level h.1.2] at hs
      obtain ⟨s', hs', hread'⟩ := reads i h.2 (.subscript e :: K) i.level_pos
      have hopen : (ParseState.operator K e).step .lbrack = some (.operand (.subscript e :: K)) := rfl
      refine ParseState.run_of_append hs (ParseState.run_of_cons hopen
        (ParseState.run_of_append hs' (ParseState.run_of_cons ?_ ⟨_, rfl, .refl K _⟩)))
      exact hread'.step_close rfl (Or.inr (Or.inl rfl))
  | .call f [], h, K, hK => by
      obtain ⟨s, hs, hread⟩ := reads f h.1.1 K (Nat.le_trans hK h.1.2)
      rw [hread.of_suffix_level h.1.2] at hs
      exact ParseState.run_of_append hs ⟨_, rfl, .refl K _⟩
  | .call f (a :: args), h, K, hK => by
      obtain ⟨s, hs, hread⟩ := reads f h.1.1 K (Nat.le_trans hK h.1.2)
      rw [hread.of_suffix_level h.1.2] at hs
      obtain ⟨s', hs', hread'⟩ := reads a h.2.1.1 (.args f [] :: K) h.2.1.2
      have hopen : (ParseState.operator K f).step .lparen = some (.operand (.args f [] :: K)) := rfl
      exact ParseState.run_of_append hs (ParseState.run_of_cons hopen
        (ParseState.run_of_append hs' (readsRest args h.2.2 hread' h.2.1.2)))
  | .unary u e, h, K, _ => by
      obtain ⟨s, hs, hread⟩ := reads e h.1 (.unary u :: K) h.2
      exact ParseState.run_of_cons (stepOperand_unary K u)
        ⟨s, hs, hread.fill rfl h.2⟩
  | .binary op a b, h, K, hK => by
      obtain ⟨s, hs, hread⟩ := reads a h.1.1 K (Nat.le_trans hK h.1.2)
      obtain ⟨s', hs', hread'⟩ := reads b h.2.1 (.binary op a :: K) h.2.2
      exact ParseState.run_of_append hs (ParseState.run_of_cons (hread.step_binary h.1.2 hK)
        ⟨s', hs', hread'.fill rfl h.2.2⟩)
  | .cond c a b, h, K, hK => by
      obtain ⟨s, hs, hread⟩ := reads c h.1.1 K
        (Nat.le_trans hK (Nat.le_of_succ_le h.1.2))
      obtain ⟨s', hs', hread'⟩ := reads a h.2.1 (.middle c :: K) a.level_pos
      obtain ⟨s'', hs'', hread''⟩ := reads b h.2.2.1 (.cond c a :: K) h.2.2.2
      refine ParseState.run_of_append hs (ParseState.run_of_cons
        (hread.step_right h.1.2 hK (Or.inr rfl) rfl) (ParseState.run_of_append hs'
          (ParseState.run_of_cons (hread'.step_close rfl (Or.inr (Or.inr rfl)))
            ⟨s'', hs'', hread''.fill rfl h.2.2.2⟩)))
  | .assign op a b, h, K, hK => by
      obtain ⟨s, hs, hread⟩ := reads a h.1.1 K
        (Nat.le_trans hK (Nat.le_of_succ_le h.1.2))
      obtain ⟨s', hs', hread'⟩ := reads b h.2.1 (.assign op a :: K) h.2.2
      exact ParseState.run_of_append hs (ParseState.run_of_cons
        (hread.step_right h.1.2 hK (Or.inl ⟨op, rfl⟩) rfl)
        ⟨s', hs', hread'.fill rfl h.2.2⟩)
  | .throw e, h, K, hK => by
      obtain ⟨s, hs, hread⟩ := reads e h.1 (.throw :: K) h.2
      exact ParseState.run_of_cons (if_pos hK) ⟨s, hs, hread.fill rfl h.2⟩

/-- The arguments after the first. -/
theorem readsRest : ∀ (args : List (Expr A)), Expr.AllGrammatical args →
    ∀ {f e : Expr A} {read : List (Expr A)} {K : List (Frame A)} {s : ParseState A},
    ReadsAs (.args f read :: K) e s → 2 ≤ e.level →
    ∃ s', s.run (Expr.restTokens args) = some s' ∧ ReadsAs K (.call f (read ++ e :: args)) s'
  | [], _, f, e, read, K, s, hread, _ =>
      ParseState.run_of_cons (hread.step_close rfl (Or.inl rfl)) ⟨_, rfl, .refl K _⟩
  | a :: args, h, f, e, read, K, s, hread, he => by
      obtain ⟨s', hs', hread'⟩ := reads a h.1.1 (.args f (read ++ [e]) :: K) h.1.2
      have hrest := readsRest args h.2 hread' h.1.2
      rw [List.append_assoc] at hrest
      exact ParseState.run_of_cons (hread.step_argument he) (ParseState.run_of_append hs' hrest)

end

theorem parse_tokens {e : Expr A} (h : e.Grammatical) : parse e.tokens = some e := by
  obtain ⟨s, hs, K', e', rfl, -, hreduce⟩ := reads e h [] e.level_pos
  have hpos := e.level_pos
  have hle := e.level_le_limit
  have hr : reduce 0 K' e' = ([], e) := hreduce 0 (by omega)
  rw [parse, hs]
  show ParseState.result (.operator K' e') = _
  rw [ParseState.result, hr]

/-! ## §4. What is read is grammatical. -/

/-- The level of the expression that the frame is a part of. -/
def Frame.level : Frame A → Nat
  | .paren => 16
  | .subscript _ | .args _ _ => 15
  | .unary _ => 14
  | .binary op _ => op.level
  | .middle _ | .cond _ _ | .assign _ _ | .throw => 2

/-- The operands that the frame already holds are grammatical. -/
def Frame.Fits : Frame A → Prop
  | .paren | .unary _ | .throw => True
  | .subscript e => e.Grammatical ∧ 15 ≤ e.level
  | .args f read => (f.Grammatical ∧ 15 ≤ f.level) ∧ ∀ e ∈ read, e.Grammatical ∧ 2 ≤ e.level
  | .middle c => c.Grammatical ∧ 3 ≤ c.level
  | .binary op a => a.Grammatical ∧ op.level ≤ a.level
  | .cond c a => (c.Grammatical ∧ 3 ≤ c.level) ∧ a.Grammatical
  | .assign _ a => a.Grammatical ∧ 3 ≤ a.level

/-- The tokens before the operand. -/
def Frame.tokens : Frame A → List (ExprToken A)
  | .paren => [.lparen]
  | .subscript e => e.tokens ++ [.lbrack]
  | .args f read => f.tokens ++ .lparen :: read.flatMap fun e => e.tokens ++ [.binary .comma]
  | .middle c => c.tokens ++ [.question]
  | .unary u => [u.token]
  | .binary op a => a.tokens ++ [.binary op]
  | .cond c a => c.tokens ++ .question :: (a.tokens ++ [.colon])
  | .assign op a => a.tokens ++ [.assign op]
  | .throw => [.throw]

/-- Every frame may stand where the one below it waits. -/
def StackFits : List (Frame A) → Prop
  | [] => True
  | f :: K => (f.Fits ∧ demand K ≤ f.level) ∧ StackFits K

def stackTokens : List (Frame A) → List (ExprToken A)
  | [] => []
  | f :: K => stackTokens K ++ f.tokens

def ParseState.tokens : ParseState A → List (ExprToken A)
  | .operand K => stackTokens K
  | .operator K e => stackTokens K ++ e.tokens

/-- The invariant of the parser. -/
def ParseState.Fits : ParseState A → Prop
  | .operand K => StackFits K
  | .operator K e => StackFits K ∧ e.Grammatical ∧ 15 ≤ e.level

theorem Frame.Fits.fill {f : Frame A} {e e' : Expr A} (h : f.Fits) (hf : f.fill e = some e')
    (he : e.Grammatical) (hlevel : f.demand ≤ e.level) :
    e'.Grammatical ∧ e'.level = f.level ∧ e'.tokens = f.tokens ++ e.tokens := by
  cases f with
  | paren | subscript | args | middle => cases hf
  | unary u =>
      cases hf
      exact ⟨⟨he, hlevel⟩, rfl, rfl⟩
  | throw =>
      cases hf
      exact ⟨⟨he, hlevel⟩, rfl, rfl⟩
  | binary op a =>
      cases hf
      exact ⟨⟨h, he, hlevel⟩, rfl, by simp [Expr.tokens, Frame.tokens]⟩
  | cond c a =>
      cases hf
      exact ⟨⟨h.1, h.2, he, hlevel⟩, rfl, by simp [Expr.tokens, Frame.tokens]⟩
  | assign op a =>
      cases hf
      exact ⟨⟨h, he, hlevel⟩, rfl, by simp [Expr.tokens, Frame.tokens]⟩

/-- What `reduce` gives. -/
structure Reduced (ℓ : Nat) (K : List (Frame A)) (e : Expr A) (r : List (Frame A) × Expr A) :
    Prop where
  fits : StackFits r.1
  grammatical : r.2.Grammatical
  level : demand r.1 ≤ r.2.level
  tokens : stackTokens r.1 ++ r.2.tokens = stackTokens K ++ e.tokens
  /-- The result is a left operand of an operator of level `ℓ`. -/
  left : ∀ k ≤ e.level, (∀ (f : Frame A) (x y : Expr A), f.fill x = some y → ℓ < f.demand →
    k ≤ f.level) → k ≤ r.2.level
  /-- The topmost frame binds less tightly, or it is a bracket. -/
  stop : ∀ f K', r.1 = f :: K' → f.demand ≤ ℓ ∨ f.fill r.2 = none

theorem reduced (ℓ : Nat) : ∀ (K : List (Frame A)) (e : Expr A), StackFits K → e.Grammatical →
    demand K ≤ e.level → Reduced ℓ K e (reduce ℓ K e)
  | [], e, h, he, hlevel => ⟨h, he, hlevel, rfl, fun _ hk _ => hk, fun _ _ heq => by cases heq⟩
  | f :: K, e, h, he, hlevel => by
      have hkept : (f.demand ≤ ℓ ∨ f.fill e = none) → Reduced ℓ (f :: K) e (f :: K, e) :=
        fun hstop => ⟨h, he, hlevel, rfl, fun _ hk _ => hk, fun _ _ heq => by cases heq; exact hstop⟩
      cases hf : f.fill e with
      | none =>
          rw [reduce_bracket hf]
          exact hkept (Or.inr hf)
      | some e' =>
          by_cases hlt : ℓ < f.demand
          · obtain ⟨he', hlevel', htokens⟩ := h.1.1.fill hf he hlevel
            have ih := reduced ℓ K e' h.2 he' (hlevel' ▸ h.1.2)
            rw [reduce_fill hf hlt]
            refine ⟨ih.fits, ih.grammatical, ih.level, ?_, fun k _ hleft => ?_, ih.stop⟩
            · rw [ih.tokens, htokens, stackTokens, List.append_assoc]
            · exact ih.left k (hlevel' ▸ hleft f e e' hf hlt) hleft
          · rw [reduce, hf]
            simp only [hlt, if_false]
            exact hkept (Or.inl (Nat.not_lt.mp hlt))

/-- The left operand of a binary operator. -/
theorem Reduced.left_binary {K : List (Frame A)} {e : Expr A} {r : List (Frame A) × Expr A}
    {op : BinaryOp} (h : Reduced op.level K e r) (he : 15 ≤ e.level) : op.level ≤ r.2.level := by
  have hle := op.level_le
  have hne := op.level_ne
  refine h.left op.level (by omega) fun f x y hf hlt => ?_
  cases f <;> simp only [Frame.fill, Frame.demand, Frame.level, reduceCtorEq] at hf hlt ⊢ <;> omega

/-- The left operand of an assignment, or the condition of `?:`. -/
theorem Reduced.left_right {K : List (Frame A)} {e : Expr A} {r : List (Frame A) × Expr A}
    (h : Reduced 2 K e r) (he : 15 ≤ e.level) : 3 ≤ r.2.level := by
  refine h.left 3 (by omega) fun f x y hf hlt => ?_
  cases f with
  | binary op a =>
      have hne := op.level_ne
      simp only [Frame.demand, Frame.level] at hlt ⊢
      omega
  | _ => simp [Frame.fill, Frame.demand, Frame.level] at hf hlt ⊢

/-- Where the new operator stands. -/
theorem Reduced.demand_le {ℓ : Nat} {K : List (Frame A)} {e : Expr A}
    {r : List (Frame A) × Expr A} (h : Reduced ℓ K e r) (hℓ : 1 ≤ ℓ)
    (hargs : ℓ = 1 → ∀ f read K', r.1 ≠ .args f read :: K') : demand r.1 ≤ ℓ := by
  cases hr : r.1 with
  | nil => exact hℓ
  | cons f K' =>
      rcases h.stop f K' hr with hstop | hstop
      · exact hstop
      · cases f with
        | args g read =>
            have hne : ℓ ≠ 1 := fun hone => hargs hone g read K' hr
            show 2 ≤ ℓ
            omega
        | paren | subscript | middle => exact hℓ
        | unary | binary | cond | assign | throw => cases hstop

theorem demand_le (K : List (Frame A)) : demand K ≤ 14 := by
  cases K with
  | nil => exact Nat.le_add_left 1 13
  | cons f K =>
      cases f with
      | binary op a => exact Nat.succ_le_succ op.level_le
      | _ => simp [demand, Frame.demand]

theorem restTokens_append (es : List (Expr A)) (e : Expr A) :
    Expr.restTokens (es ++ [e]) =
      (es.flatMap fun x => .binary .comma :: x.tokens) ++ .binary .comma :: (e.tokens ++ [.rparen]) := by
  induction es with
  | nil => rfl
  | cons x es ih => simp [Expr.restTokens, ih]

theorem call_tokens (f : Expr A) (read : List (Expr A)) (e : Expr A) :
    (Expr.call f (read ++ [e])).tokens = (Frame.args f read).tokens ++ e.tokens ++ [.rparen] := by
  have hcommas : ∀ (es : List (Expr A)) (ts : List (ExprToken A)),
      (es.flatMap fun x => .binary .comma :: x.tokens) ++ .binary .comma :: ts =
        .binary .comma :: ((es.flatMap fun x => x.tokens ++ [.binary .comma]) ++ ts) := by
    intro es ts
    induction es with
    | nil => rfl
    | cons x es ih => simp [ih]
  cases read with
  | nil => simp [Expr.tokens, Expr.restTokens, Frame.tokens]
  | cons a read => simp [Expr.tokens, restTokens_append, hcommas, Frame.tokens]

section Sound

variable {K : List (Frame A)} {e : Expr A} {t : ExprToken A} {s s' : ParseState A}

/-- The state keeps the invariant, and holds one more token. -/
def Follows (s' : ParseState A) (ts : List (ExprToken A)) : Prop := s'.Fits ∧ s'.tokens = ts

theorem stepOperand_fits (hK : StackFits K) (h : stepOperand K t = some s') :
    Follows s' (stackTokens K ++ [t]) := by
  have hdemand := demand_le K
  have hunary : (t.asPrefixOp.map fun u => ParseState.operand (.unary u :: K)) = some s' →
      Follows s' (stackTokens K ++ [t]) := by
    intro h
    obtain ⟨u, hu, rfl⟩ := Option.map_eq_some_iff.mp h
    rw [← ExprToken.token_of_asPrefixOp hu]
    exact ⟨⟨⟨trivial, hdemand⟩, hK⟩, rfl⟩
  cases t with
  | atom a =>
      cases h
      exact ⟨⟨hK, trivial, Nat.le_succ 15⟩, rfl⟩
  | lparen =>
      cases h
      exact ⟨⟨⟨trivial, Nat.le_trans hdemand (Nat.le_add_right 14 2)⟩, hK⟩, rfl⟩
  | throw =>
      rw [stepOperand] at h
      split at h
      · rename_i hle
        cases h
        exact ⟨⟨⟨trivial, hle⟩, hK⟩, rfl⟩
      · cases h
  | rparen =>
      -- a call without arguments
      rcases K with _ | ⟨f, K⟩
      · cases h
      · cases f with
        | args f read =>
            cases read with
            | nil =>
                cases h
                obtain ⟨⟨⟨hf, -⟩, -⟩, hK⟩ := hK
                exact ⟨⟨hK, ⟨hf, trivial⟩, Nat.le_refl 15⟩,
                  by simp [ParseState.tokens, Expr.tokens, stackTokens, Frame.tokens]⟩
            | cons a read => cases h
        | _ => cases h
  | _ => exact hunary h

theorem close_fits {r : List (Frame A) × Expr A} (hK : StackFits r.1) (he : r.2.Grammatical)
    (hlevel : demand r.1 ≤ r.2.level) (h : close t r = some s') :
    Follows s' (stackTokens r.1 ++ r.2.tokens ++ [t]) := by
  obtain ⟨K, e⟩ := r
  cases K with
  | nil => cases h
  | cons f K =>
      obtain ⟨⟨hf, hdemand⟩, hK⟩ := hK
      cases f with
      | paren =>
          cases t <;> cases h
          exact ⟨⟨hK, he, Nat.le_succ 15⟩,
            by simp [ParseState.tokens, stackTokens, Expr.tokens, Frame.tokens]⟩
      | subscript a =>
          cases t <;> cases h
          exact ⟨⟨hK, ⟨hf, he⟩, Nat.le_refl 15⟩,
            by simp [ParseState.tokens, stackTokens, Expr.tokens, Frame.tokens]⟩
      | middle c =>
          cases t <;> cases h
          exact ⟨⟨⟨⟨hf, he⟩, hdemand⟩, hK⟩,
            by simp [ParseState.tokens, stackTokens, Frame.tokens]⟩
      | args g read =>
          have hread : ∀ x ∈ read ++ [e], x.Grammatical ∧ 2 ≤ x.level := by
            intro x hx
            rcases List.mem_append.mp hx with hx | hx
            · exact hf.2 x hx
            · rw [List.mem_singleton.mp hx]
              exact ⟨he, hlevel⟩
          cases t with
          | rparen =>
              cases h
              refine ⟨⟨hK, ⟨hf.1, Expr.allGrammatical_iff.mpr hread⟩, Nat.le_refl 15⟩, ?_⟩
              simp [ParseState.tokens, stackTokens, call_tokens]
          | binary op =>
              cases op <;> cases h
              exact ⟨⟨⟨⟨hf.1, hread⟩, hdemand⟩, hK⟩,
                by simp [ParseState.tokens, stackTokens, Frame.tokens]⟩
          | _ => cases h
      | unary | binary | cond | assign | throw => cases h

theorem stepOperator_fits (hK : StackFits K) (he : e.Grammatical) (hlevel : 15 ≤ e.level)
    (h : stepOperator K e t = some s') : Follows s' (stackTokens K ++ e.tokens ++ [t]) := by
  have hdemand : demand K ≤ e.level := Nat.le_trans (demand_le K) (Nat.le_of_succ_le hlevel)
  have hpost : demand K ≤ 15 := Nat.le_succ_of_le (demand_le K)
  have hr := fun ℓ => reduced ℓ K e hK he hdemand
  -- an operator between two operands holds what has been reduced
  have hpush : ∀ {ℓ : Nat} {f : Frame A}, f.level = ℓ → 1 ≤ ℓ →
      (ℓ = 1 → ∀ g read K', (reduce ℓ K e).1 ≠ .args g read :: K') → f.Fits →
      f.tokens = (reduce ℓ K e).2.tokens ++ [t] →
      Follows (.operand (f :: (reduce ℓ K e).1)) (stackTokens K ++ e.tokens ++ [t]) := by
    intro ℓ f hf hℓ hargs hfits htokens
    refine ⟨⟨⟨hfits, hf ▸ (hr ℓ).demand_le hℓ hargs⟩, (hr ℓ).fits⟩, ?_⟩
    show stackTokens _ ++ f.tokens = _
    rw [htokens, ← (hr ℓ).tokens, List.append_assoc]
  have hclose : ∀ {ℓ : Nat}, close t (reduce ℓ K e) = some s' →
      Follows s' (stackTokens K ++ e.tokens ++ [t]) := by
    intro ℓ h
    rw [← (hr ℓ).tokens]
    exact close_fits (hr ℓ).fits (hr ℓ).grammatical (hr ℓ).level h
  have hsuffix : ∀ p : PostfixOp A, t = p.token → s' = .operator K (.suffix p e) →
      Follows s' (stackTokens K ++ e.tokens ++ [t]) := by
    rintro p rfl rfl
    exact ⟨⟨hK, ⟨he, hlevel⟩, Nat.le_refl 15⟩, by simp [ParseState.tokens, Expr.tokens]⟩
  cases t with
  | lparen =>
      cases h
      refine ⟨⟨⟨⟨⟨he, hlevel⟩, fun x hx => by cases hx⟩, hpost⟩, hK⟩, ?_⟩
      simp [ParseState.tokens, stackTokens, Frame.tokens]
  | lbrack =>
      cases h
      refine ⟨⟨⟨⟨he, hlevel⟩, hpost⟩, hK⟩, ?_⟩
      simp [ParseState.tokens, stackTokens, Frame.tokens]
  | rparen | rbrack | colon => exact hclose h
  | inc => exact hsuffix .inc rfl (Option.some.inj h).symm
  | dec => exact hsuffix .dec rfl (Option.some.inj h).symm
  | member arrow name => exact hsuffix (.member arrow name) rfl (Option.some.inj h).symm
  | assign op =>
      cases h
      exact hpush (ℓ := 2) rfl (Nat.le_succ 1) (fun h => by cases h)
        ⟨(hr 2).grammatical, (hr 2).left_right hlevel⟩ rfl
  | question =>
      cases h
      exact hpush (ℓ := 2) rfl (Nat.le_succ 1) (fun h => by cases h)
        ⟨(hr 2).grammatical, (hr 2).left_right hlevel⟩ rfl
  | binary op =>
      have hfits : (Frame.binary op (reduce op.level K e).2).Fits :=
        ⟨(hr op.level).grammatical, (hr op.level).left_binary hlevel⟩
      by_cases hcomma : op = .comma
      · subst hcomma
        rw [stepOperator] at h
        split at h
        · rename_i heq
          exact hclose (ℓ := 1) (heq ▸ h)
        · rename_i K' e' hne heq
          cases h
          have hK' : (reduce 1 K e).1 = K' := congrArg Prod.fst heq
          have he' : (reduce 1 K e).2 = e' := congrArg Prod.snd heq
          rw [← hK', ← he']
          exact hpush (ℓ := 1) rfl (Nat.le_refl 1)
            (fun _ g read K'' hargs => hne g read K'' (hK'.symm.trans hargs)) hfits rfl
      · have hop : s' = .operand (.binary op (reduce op.level K e).2 :: (reduce op.level K e).1) := by
          cases op <;> first | exact absurd rfl hcomma | exact (Option.some.inj h).symm
        rw [hop]
        exact hpush rfl op.level_pos (fun hone => absurd (BinaryOp.eq_comma (by omega)) hcomma)
          hfits rfl
  | atom | cast | not | compl | throw => cases h

theorem ParseState.Fits.step (hs : s.Fits) (h : s.step t = some s') :
    Follows s' (s.tokens ++ [t]) := by
  cases s with
  | operand K => exact stepOperand_fits hs h
  | operator K e => exact stepOperator_fits hs.1 hs.2.1 hs.2.2 h

theorem ParseState.Fits.run (hs : s.Fits) {ts : List (ExprToken A)} (h : s.run ts = some s') :
    Follows s' (s.tokens ++ ts) := by
  induction ts generalizing s with
  | nil =>
      cases h
      exact ⟨hs, (List.append_nil _).symm⟩
  | cons t ts ih =>
      obtain ⟨s₁, hstep, hrun⟩ := Option.bind_eq_some_iff.mp h
      obtain ⟨hfits, htokens⟩ := hs.step hstep
      have hrest := ih hfits hrun
      rw [htokens, List.append_assoc] at hrest
      exact hrest

end Sound

/-- **The grammar is unambiguous.** -/
theorem Expr.tokens_inj {a b : Expr A} (ha : a.Grammatical) (hb : b.Grammatical)
    (h : a.tokens = b.tokens) : a = b := by
  have hparse := parse_tokens ha
  rw [h, parse_tokens hb] at hparse
  exact (Option.some.inj hparse).symm

end Cpp
