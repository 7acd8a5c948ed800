/-
  MethanFV.Cpp.Preprocessor.Arguments — argument lists and calls.

  `Joined args l` says that `l` is the arguments `args` with commas between them, `IsCall` adds the
  macro's name and the parentheses.  On arguments that are balanced and have no comma outside
  parentheses, reading an argument list recovers exactly these arguments:

    * `invocation_call`          — a macro with as many parameters;
    * `invocation_call_variadic` — a variadic macro: the rest stays joined;
    * `invocation_call_arity`    — a macro with another number of parameters: an error;
    * `two_le_of_topComma`       — a comma outside parentheses makes at least two arguments.
-/
import MethanFV.Cpp.Preprocessor.Rules

namespace Cpp.Preprocessor

variable {env : Env}

/-! ## §1. Parentheses and commas of a spelling. -/

/-- The parenthesis depth after reading a sequence, `none` once a `)` is unmatched. -/
def depthAfter (d : Nat) : List String → Option Nat
  | [] => some d
  | s :: ss =>
      if s = ")" then
        match d with
        | 0 => none
        | d' + 1 => depthAfter d' ss
      else if s = "(" then depthAfter (d + 1) ss
      else depthAfter d ss

/-- Every parenthesis is matched. -/
def Balanced (ss : List String) : Prop := depthAfter 0 ss = some 0

instance (ss : List String) : Decidable (Balanced ss) := inferInstanceAs (Decidable (_ = _))

/-- A comma stands outside all parentheses (and before any unmatched `)`). -/
def topComma (d : Nat) : List String → Bool
  | [] => false
  | s :: ss =>
      if s = ")" then
        match d with
        | 0 => false
        | d' + 1 => topComma d' ss
      else if s = "(" then topComma (d + 1) ss
      else (s = "," && d = 0) || topComma d ss

/-- What can be passed as one macro argument. -/
structure IsArg (ss : List String) : Prop where
  balanced : Balanced ss
  commaFree : topComma 0 ss = false

instance (ss : List String) : Decidable (IsArg ss) :=
  decidable_of_iff (Balanced ss ∧ topComma 0 ss = false)
    ⟨fun h => ⟨h.1, h.2⟩, fun h => ⟨h.1, h.2⟩⟩

theorem depthAfter_append (ss ss' : List String) :
    ∀ d, depthAfter d (ss ++ ss') = (depthAfter d ss).bind fun d' => depthAfter d' ss' := by
  induction ss with
  | nil => intro d; rfl
  | cons s ss ih =>
      intro d
      simp only [List.cons_append, depthAfter]
      split
      · cases d with
        | zero => rfl
        | succ d' => exact ih d'
      · split
        · exact ih (d + 1)
        · exact ih d

theorem Balanced.append {ss ss' : List String} (h : Balanced ss) (h' : Balanced ss') :
    Balanced (ss ++ ss') := by
  unfold Balanced at h h' ⊢
  rw [depthAfter_append, h, Option.bind_some, h']

theorem balanced_nil : Balanced [] := rfl

/-- A comma of a balanced prefix, or of what follows it. -/
theorem topComma_append {ss : List String} (ss' : List String) :
    ∀ {d d' : Nat}, depthAfter d ss = some d' →
      topComma d (ss ++ ss') = (topComma d ss || topComma d' ss') := by
  induction ss with
  | nil => intro d d' h; cases h; rfl
  | cons s ss ih =>
      intro d d' h
      simp only [depthAfter] at h
      simp only [List.cons_append, topComma]
      split
      next hc =>
        rw [if_pos hc] at h
        cases d with
        | zero => simp at h
        | succ e => exact ih h
      next hc =>
        rw [if_neg hc] at h
        split
        next ho => rw [if_pos ho] at h; exact ih h
        next ho => rw [if_neg ho] at h; rw [ih h, Bool.or_assoc]

theorem IsArg.append {ss ss' : List String} (h : IsArg ss) (h' : IsArg ss') :
    IsArg (ss ++ ss') :=
  ⟨h.balanced.append h'.balanced, by
    rw [topComma_append ss' h.balanced, h.commaFree, h'.commaFree]; rfl⟩

/-- One token that is neither a parenthesis nor a comma. -/
theorem isArg_singleton {s : String} (h1 : s ≠ "(") (h2 : s ≠ ")") (h3 : s ≠ ",") : IsArg [s] :=
  ⟨by simp [Balanced, depthAfter, h1, h2], by simp [topComma, h1, h2, h3]⟩

/-- Inside parentheses commas do not count. -/
theorem topComma_nested (ss : List String) :
    ∀ {d : Nat}, depthAfter d ss = some 0 → topComma (d + 1) ss = false := by
  induction ss with
  | nil => intro d _; rfl
  | cons s ss ih =>
      intro d h
      simp only [depthAfter] at h
      simp only [topComma]
      split
      next hc =>
        rw [if_pos hc] at h
        cases d with
        | zero => simp at h
        | succ e => exact ih h
      next hc =>
        rw [if_neg hc] at h
        split
        next ho => rw [if_pos ho] at h; exact ih h
        next ho => rw [if_neg ho] at h; simp [ih h]

theorem depthAfter_shift (ss : List String) :
    ∀ {d d' : Nat}, depthAfter d ss = some d' → depthAfter (d + 1) ss = some (d' + 1) := by
  induction ss with
  | nil => intro d d' h; cases h; rfl
  | cons s ss ih =>
      intro d d' h
      simp only [depthAfter] at h ⊢
      split
      next hc =>
        rw [if_pos hc] at h
        cases d with
        | zero => simp at h
        | succ e => exact ih h
      next hc =>
        rw [if_neg hc] at h
        split
        next ho => rw [if_pos ho] at h; exact ih h
        next ho => rw [if_neg ho] at h; exact ih h

/-- A parenthesised balanced sequence is one argument, whatever commas it holds. -/
theorem isArg_call {s : String} {ss : List String} (h1 : s ≠ "(") (h2 : s ≠ ")") (h3 : s ≠ ",")
    (h : Balanced ss) : IsArg (s :: "(" :: (ss ++ [")"])) := by
  refine (isArg_singleton h1 h2 h3).append ⟨?_, ?_⟩
  · unfold Balanced
    simp [depthAfter, depthAfter_append, depthAfter_shift ss h]
  · simp only [topComma]
    rw [if_neg (by decide), if_pos trivial, topComma_append _ (depthAfter_shift ss h),
      topComma_nested ss h]
    rfl

/-! ## §2. Reading one argument. -/

theorem Args.foldr_push (l : List Token) (a : List Token) (as : List (List Token))
    (h : List String) (r : List Token) :
    l.foldr Args.push (a :: as, h, r) = ((l ++ a) :: as, h, r) := by
  induction l with
  | nil => rfl
  | cons t l ih => rw [List.foldr_cons, ih]; rfl

/-- Tokens inside one argument go to the argument being read. -/
theorem splitArgs_arg {limit : Option Nat} (ts : List Token) (l : List Token) :
    ∀ {d d' : Nat}, depthAfter d (texts l) = some d' →
      (limit = some 0 ∨ topComma d (texts l) = false) →
      splitArgs limit d (l ++ ts) = (splitArgs limit d' ts).map fun a => l.foldr Args.push a := by
  induction l with
  | nil => intro d d' h _; cases h; simp
  | cons t l ih =>
      intro d d' h hcomma
      simp only [texts_cons, depthAfter] at h
      simp only [texts_cons, topComma] at hcomma
      rw [List.cons_append, splitArgs.eq_def]
      dsimp only
      have hmap : ∀ x : Option Args, (x.map fun a => l.foldr Args.push a).map (Args.push t)
          = x.map fun a => (t :: l).foldr Args.push a := by
        intro x; cases x <;> rfl
      split
      next hc =>
        rw [if_pos hc] at h hcomma
        cases d with
        | zero => simp at h
        | succ e => rw [← hmap, ← ih h hcomma]
      next hc =>
        rw [if_neg hc] at h hcomma
        split
        next ho =>
          rw [if_pos ho] at h hcomma
          rw [← hmap, ← ih h hcomma]
        next ho =>
          rw [if_neg ho] at h hcomma
          rw [if_neg, ← hmap, ← ih h (hcomma.imp_right fun hf => (Bool.or_eq_false_iff.mp hf).2)]
          rintro ⟨h1, h2, h3⟩
          rcases hcomma with hlim | hf
          · exact h3 hlim
          · simp [h1, h2] at hf

/-! ## §3. Joined arguments. -/

/-- `l` is the arguments `args` with commas between them. -/
inductive Joined : List (List Token) → List Token → Prop where
  | single (a : List Token) : Joined [a] a
  | cons (a : List Token) {as : List (List Token)} {c : Token} {l : List Token} :
      c.text = "," → Joined as l → Joined (a :: as) (a ++ c :: l)

theorem Joined.ne_nil {args : List (List Token)} {l : List Token} (h : Joined args l) :
    args ≠ [] := by
  cases h <;> simp

theorem Joined.balanced {args : List (List Token)} {l : List Token} (h : Joined args l)
    (hargs : ∀ a ∈ args, Balanced (texts a)) : Balanced (texts l) := by
  induction h with
  | single a => exact hargs a List.mem_cons_self
  | @cons a as c l hc _ ih =>
      have hcomma : Balanced [c.text] := by rw [hc]; decide
      rw [texts_append, texts_cons, ← List.singleton_append]
      exact (hargs a List.mem_cons_self).append
        (hcomma.append (ih fun b hb => hargs b (List.mem_cons_of_mem _ hb)))

theorem Joined.addHide {args : List (List Token)} {l : List Token} (h : Joined args l)
    (names : List String) :
    Joined (args.map (addHide names)) (Cpp.Preprocessor.addHide names l) := by
  induction h with
  | single a => exact .single _
  | cons a hc _ ih =>
      rw [addHide_append, addHide_cons, List.map_cons]
      exact .cons _ hc ih

/-- A fixed argument list is read back. -/
theorem splitArgs_joined {args : List (List Token)} {l : List Token} (h : Joined args l)
    (hargs : ∀ a ∈ args, IsArg (texts a)) {rp : Token} (hrp : rp.text = ")") (rest : List Token) :
    splitArgs none 0 (l ++ rp :: rest) = some (args, rp.hide, rest) := by
  induction h with
  | single a =>
      have ha := hargs a List.mem_cons_self
      rw [splitArgs_arg _ a ha.balanced (.inr ha.commaFree), splitArgs.eq_def]
      simp only [hrp, if_true, Option.map_some, Args.foldr_push, List.append_nil]
  | @cons a as c l hc _ ih =>
      have ha := hargs a List.mem_cons_self
      rw [List.append_assoc, List.cons_append,
        splitArgs_arg _ a ha.balanced (.inr ha.commaFree), splitArgs.eq_def]
      simp only [hc, String.reduceEq, if_false, ne_eq, reduceCtorEq, not_false_eq_true, and_self,
        if_true, Option.map_none, Option.map_map]
      rw [ih fun b hb => hargs b (List.mem_cons_of_mem _ hb)]
      simp only [Option.map_some, Function.comp_apply, Args.foldr_push, List.append_nil]

/-- `l` is the invocation `t(args)`. -/
def IsCall (t : Token) (args : List (List Token)) (l : List Token) : Prop :=
  ∃ lp rp body, l = t :: lp :: (body ++ [rp]) ∧ lp.text = "(" ∧ rp.text = ")" ∧ Joined args body

/-- The names that replacing `t` may add to hide sets. -/
def Within (t : Token) (names : List String) : Prop := ∀ n ∈ names, n = t.text ∨ n ∈ t.hide

theorem within_hide (t : Token) (hide : List String) :
    Within t (t.text :: t.hide.filter (· ∈ hide)) := by
  intro n hn
  rcases List.mem_cons.mp hn with rfl | hn
  · exact .inl rfl
  · exact .inr (List.mem_filter.mp hn).1

theorem Within.not_mem {t : Token} {names : List String} (h : Within t names) {n : String}
    (hn : n ≠ t.text) (hid : n ∉ t.hide) : n ∉ names := fun hmem =>
  (h n hmem).elim hn hid

section Shape

variable {t : Token} {args : List (List Token)} {l : List Token}

theorem IsCall.startsParen (h : IsCall t args l) (ht : t.text ≠ "(") : startsParen l = false := by
  obtain ⟨lp, rp, body, rfl, -⟩ := h
  simp [Cpp.Preprocessor.startsParen, ht]

theorem IsCall.addHide (h : IsCall t args l) (names : List String) :
    IsCall ⟨t.text, names ++ t.hide⟩ (args.map (addHide names))
      (Cpp.Preprocessor.addHide names l) := by
  obtain ⟨lp, rp, body, rfl, hlp, hrp, hbody⟩ := h
  exact ⟨⟨lp.text, names ++ lp.hide⟩, ⟨rp.text, names ++ rp.hide⟩, _, by simp, hlp, hrp,
    hbody.addHide names⟩

theorem IsCall.isArg (h : IsCall t args l)
    (ht : t.text ≠ "(" ∧ t.text ≠ ")" ∧ t.text ≠ ",") (hargs : ∀ a ∈ args, IsArg (texts a)) :
    IsArg (texts l) := by
  obtain ⟨lp, rp, body, rfl, hlp, hrp, hbody⟩ := h
  rw [texts_cons, texts_cons, texts_append, texts_cons, texts_nil, hlp, hrp]
  exact isArg_call ht.1 ht.2.1 ht.2.2 (hbody.balanced fun a ha => (hargs a ha).balanced)

theorem Joined.mem {l : List Token} (h : Joined args l) : ∀ a ∈ args, a ⊆ l := by
  induction h with
  | single a => intro b hb; rw [List.mem_singleton.mp hb]; exact fun _ h => h
  | @cons a as c l hc _ ih =>
      intro b hb t ht
      rcases List.mem_cons.mp hb with rfl | hb
      · exact List.mem_append_left _ ht
      · exact List.mem_append_right _ (List.mem_cons_of_mem _ (ih b hb ht))

/-- The tokens of an argument are tokens of the call. -/
theorem IsCall.mem (h : IsCall t args l) : ∀ a ∈ args, a ⊆ l := by
  obtain ⟨lp, rp, body, rfl, -, -, hbody⟩ := h
  intro a ha x hx
  have := hbody.mem a ha hx
  simp [this]

theorem Joined.quiescent (hcomma : env "," = none) (h : Joined args l)
    (hargs : ∀ a ∈ args, Quiescent env a) : Quiescent env l := by
  induction h with
  | single a => exact hargs a List.mem_cons_self
  | @cons a as c l hc _ ih =>
      refine (hargs a List.mem_cons_self).append (by simp [Cpp.Preprocessor.startsParen, hc]) ?_
      exact ⟨by simp [Stuck, hc, hcomma], ih fun b hb => hargs b (List.mem_cons_of_mem _ hb)⟩

/-- The call of a name that is no macro stays as it is. -/
theorem IsCall.quiescent (hpunct : env "(" = none ∧ env ")" = none ∧ env "," = none)
    (ht : env t.text = none) (h : IsCall t args l) (hargs : ∀ a ∈ args, Quiescent env a) :
    Quiescent env l := by
  obtain ⟨lp, rp, body, rfl, hlp, hrp, hbody⟩ := h
  refine ⟨by simp [Stuck, ht], by simp [Stuck, hlp, hpunct.1], ?_⟩
  refine (hbody.quiescent hpunct.2.2 hargs).append (by simp [Cpp.Preprocessor.startsParen, hrp]) ?_
  exact ⟨by simp [Stuck, hrp, hpunct.2.1], trivial⟩

end Shape

/-- Arguments with commas between them, as source text. -/
def joinArgs : List (List String) → List String
  | [] => []
  | [a] => a
  | a :: b :: r => a ++ "," :: joinArgs (b :: r)

/-- The source text `head(args)`. -/
def callTexts (head : String) (args : List (List String)) : List String :=
  head :: "(" :: (joinArgs args ++ [")"])

theorem Joined.texts_eq {args : List (List Token)} {l : List Token} (h : Joined args l) :
    texts l = joinArgs (args.map texts) := by
  induction h with
  | single a => rfl
  | @cons a as c l hc hjoin ih =>
      rw [texts_append, texts_cons, hc, ih]
      cases hjoin <;> rfl

theorem IsCall.texts_eq {t : Token} {args : List (List Token)} {l : List Token}
    (h : IsCall t args l) : texts l = callTexts t.text (args.map texts) := by
  obtain ⟨lp, rp, body, rfl, hlp, hrp, hbody⟩ := h
  simp [callTexts, hlp, hrp, hbody.texts_eq]

theorem joined_plain {args : List (List String)} (hne : args ≠ []) :
    Joined (args.map plain) (plain (joinArgs args)) := by
  induction args with
  | nil => exact absurd rfl hne
  | cons a as ih =>
      cases as with
      | nil => exact .single _
      | cons b r =>
          have hjoin := ih (by simp)
          simp only [joinArgs, plain, List.map_append, List.map_cons] at hjoin ⊢
          exact .cons _ rfl hjoin

/-- Source text that is a call. -/
theorem isCall_plain (head : String) {args : List (List String)} (hne : args ≠ []) :
    IsCall ⟨head, []⟩ (args.map plain) (plain (callTexts head args)) :=
  ⟨⟨"(", []⟩, ⟨")", []⟩, plain (joinArgs args), by simp [callTexts, plain], rfl, rfl,
    joined_plain hne⟩

section Call

variable {t : Token} {args : List (List Token)} {l : List Token} {params : List String}
  {body : List Piece}

/-- **A call with the right number of arguments.** -/
theorem IsCall.reduces (hl : IsCall t args l) (hargs : ∀ a ∈ args, IsArg (texts a))
    (henv : env t.text = some (.function params false body)) (hlen : args.length = params.length)
    (hid : t.text ∉ t.hide) :
    (∃ names, Within t names ∧ ∀ r, SubstYields env args body (.ok r) →
      Rewrites env l (Cpp.Preprocessor.addHide names r)) ∧
    (∀ e, SubstYields env args body (.error e) → Yields env l (.error e)) ∧
    ∀ out, ExpandsTo env l out → ∃ r, SubstYields env args body (.ok r) := by
  obtain ⟨lp, rp, b, rfl, hlp, hrp, hbody⟩ := hl
  have hinv : invocation t.text params false (lp :: (b ++ [rp]))
      = .ok (some (args, rp.hide, [])) := by
    simp only [invocation, hlp, if_true, Bool.false_eq_true, if_false,
      splitArgs_joined hbody hargs hrp, bindArgs, hlen]
    rfl
  refine ⟨⟨_, within_hide t rp.hide, fun r hsub => ?_⟩,
    fun e he => Yields.call_substError henv hid hinv he,
    fun out hout => substYields_of_expandsTo henv hid hinv hout⟩
  have h := Rewrites.call henv hid hinv hsub
  rwa [List.append_nil] at h

/-- **A call with the wrong number of arguments** is a preprocessing error. -/
theorem IsCall.arity (hl : IsCall t args l) (hargs : ∀ a ∈ args, IsArg (texts a))
    (henv : env t.text = some (.function params false body)) (hlen : args.length ≠ params.length)
    (hne : params ≠ []) (hid : t.text ∉ t.hide) :
    Yields env l (.error (.arity t.text args.length)) := by
  obtain ⟨lp, rp, b, rfl, hlp, hrp, hbody⟩ := hl
  refine Yields.call_invalid henv hid ?_
  simp only [invocation, hlp, if_true, Bool.false_eq_true, if_false,
    splitArgs_joined hbody hargs hrp, bindArgs, hlen, hne, false_and]
  rfl

end Call

/-- Commas inside the last argument are commas of the list. -/
theorem Joined.flatten {as xs : List (List Token)} {x l : List Token}
    (h : Joined (as ++ [x]) l) (hx : Joined xs x) : Joined (as ++ xs) l := by
  induction as generalizing l with
  | nil =>
      cases h with
      | single => exact hx
      | cons _ _ hnil => exact absurd rfl hnil.ne_nil
  | cons a as ih =>
      generalize hrest : as ++ [x] = rest at h ih
      rw [List.cons_append, hrest] at h
      cases h with
      | single => simp at hrest
      | cons _ hc hjoin => exact .cons a hc (ih hjoin)

theorem IsCall.flatten {as xs : List (List Token)} {t : Token} {x l : List Token}
    (h : IsCall t (as ++ [x]) l) (hx : Joined xs x) : IsCall t (as ++ xs) l := by
  obtain ⟨lp, rp, body, rfl, hlp, hrp, hbody⟩ := h
  exact ⟨lp, rp, body, rfl, hlp, hrp, hbody.flatten hx⟩

/-- An argument list expands argument by argument. -/
theorem Joined.expandsTo (hcomma : env "," = none) {args outs : List (List Token)}
    {l : List Token} (h : Joined args l) (hexp : List.Forall₂ (ExpandsTo env) args outs) :
    ∃ l', ExpandsTo env l l' ∧ Joined outs l' := by
  induction h generalizing outs with
  | single a =>
      cases hexp with
      | cons ha hnil => cases hnil; exact ⟨_, ha, .single _⟩
  | @cons a as c l hc _ ih =>
      cases hexp with
      | cons ha hrest =>
          obtain ⟨l', hl', hjoin⟩ := ih hrest
          refine ⟨_, ha.append (by simp [Cpp.Preprocessor.startsParen, hc]) ?_, .cons _ hc hjoin⟩
          exact Yields.cons_stuck (by simp [Stuck, hc, hcomma]) hl'

/-! ## §5. Calls in replacement lists. -/

/-- Pieces with commas between them. -/
def commaSep : List (List Piece) → List Piece
  | [] => []
  | [a] => a
  | a :: b :: r => a ++ .tok "," :: commaSep (b :: r)

/-- The replacement text `head(args)`. -/
def callPieces (head : Piece) (args : List (List Piece)) : List Piece :=
  head :: .tok "(" :: (commaSep args ++ [.tok ")"])

/-- Argument by argument, the pieces `args` become the token sequences `rs`. -/
def SubstArgs (env : Env) (actuals : List (List Token)) (args : List (List Piece))
    (rs : List (List Token)) : Prop :=
  List.Forall₂ (fun ps a => SubstYields env actuals ps (.ok a)) args rs

theorem SubstArgs.commaSep {actuals : List (List Token)} {args : List (List Piece)}
    {rs : List (List Token)} (h : SubstArgs env actuals args rs) (hne : args ≠ []) :
    ∃ l, SubstYields env actuals (commaSep args) (.ok l) ∧ Joined rs l ∧
      ∀ t ∈ l, t.hide = [] ∨ ∃ a ∈ rs, t ∈ a := by
  induction h with
  | nil => exact absurd rfl hne
  | @cons ps a args rs hps hrest ih =>
      cases hrest with
      | nil => exact ⟨a, hps, .single a, fun t ht => .inr ⟨a, List.mem_cons_self, ht⟩⟩
      | @cons ps' a' args' rs' hps' hrest' =>
          obtain ⟨l, hl, hjoin, hmem⟩ := ih (by simp)
          refine ⟨a ++ ⟨",", []⟩ :: l, hps.append (hl.tok ","), .cons a rfl hjoin, ?_⟩
          intro t ht
          rcases List.mem_append.mp ht with ht | ht
          · exact .inr ⟨a, List.mem_cons_self, ht⟩
          rcases List.mem_cons.mp ht with rfl | ht
          · exact .inl rfl
          · refine (hmem t ht).imp_right ?_
            rintro ⟨b, hb, htb⟩
            exact ⟨b, List.mem_cons_of_mem _ hb, htb⟩

/-- Substituting into the replacement text of a call gives a call. -/
theorem SubstArgs.call {actuals : List (List Token)} {args : List (List Piece)}
    {rs : List (List Token)} {head : Piece} {t : Token} (h : SubstArgs env actuals args rs)
    (hne : args ≠ []) (hhead : SubstYields env actuals [head] (.ok [t])) :
    ∃ l, SubstYields env actuals (callPieces head args) (.ok l) ∧ IsCall t rs l ∧
      ∀ x ∈ l, x.hide = [] ∨ x = t ∨ ∃ a ∈ rs, x ∈ a := by
  obtain ⟨l, hl, hjoin, hmem⟩ := h.commaSep hne
  have hclose : SubstYields env actuals [.tok ")"] (.ok [⟨")", []⟩]) := (SubstYields.nil _).tok _
  refine ⟨t :: ⟨"(", []⟩ :: (l ++ [⟨")", []⟩]), ?_, ⟨_, _, l, rfl, rfl, rfl, hjoin⟩, ?_⟩
  · exact hhead.append ((hl.append hclose).tok "(")
  · intro x hx
    simp only [List.mem_cons, List.mem_append, List.not_mem_nil, or_false] at hx
    rcases hx with rfl | rfl | hx | rfl
    · exact .inr (.inl rfl)
    · exact .inl rfl
    · exact (hmem x hx).imp_right .inr
    · exact .inl rfl

end Cpp.Preprocessor
