/-
  MethanFV.Cpp.Preprocessor.Settle — what a text with macros in it becomes.

  `Settles env S ss ss'` says that the text `ss` is replaced, without an error, by the text `ss'`, in
  which no macro name is left, wherever it stands inside the replacements of the macros in `S`.  The
  rules go through the text as it is written, and leave the hide sets behind:

    * `Settles.cons`     — a word that is no macro name stays;
    * `Settles.append`   — two texts, unless the second one starts with `(`;
    * `Settles.call`     — a call: the arguments settle, are filled into the replacement list, and the
                           result settles;
    * `Settles.call_variadic`, `Settles.call_nullary` — the other function-like macros;
    * `Settles.object`   — an object-like macro;
    * `callTexts_arity`  — a call with another number of arguments is an error.
-/
import MethanFV.Cpp.Preprocessor.Arguments
import MethanFV.Cpp.Preprocessor.Literal

namespace Cpp.Preprocessor

variable {env : Env} {S : List String}

/-! ## §1. Settling. -/

/-- No word names a macro. -/
def Plain (env : Env) (ss : List String) : Prop := ∀ s ∈ ss, env s = none

/-- The macro names in `l` are hidden from the macros in `S` at most. -/
def HiddenBy (env : Env) (S : List String) (l : List Token) : Prop :=
  ∀ t ∈ l, env t.text ≠ none → ∀ n ∈ t.hide, n ∈ S

/-- The text `ss` becomes the text `ss'`, and that is final. -/
def Settles (env : Env) (S ss ss' : List String) : Prop :=
  Plain env ss' ∧
    ∀ l, texts l = ss → HiddenBy env S l → ∃ out, ExpandsTo env l out ∧ texts out = ss'

theorem Plain.append {a b : List String} (ha : Plain env a) (hb : Plain env b) :
    Plain env (a ++ b) := by
  intro s hs
  exact (List.mem_append.mp hs).elim (ha s) (hb s)

theorem HiddenBy.append {a b : List Token} :
    HiddenBy env S (a ++ b) ↔ HiddenBy env S a ∧ HiddenBy env S b := by
  simp only [HiddenBy, List.mem_append, or_imp, forall_and]

theorem HiddenBy.of_plain {l : List Token} (h : Plain env (texts l)) : HiddenBy env S l := by
  intro t ht hne
  exact absurd (h t.text (List.mem_map_of_mem ht)) hne

theorem HiddenBy.mono {l a : List Token} (h : HiddenBy env S l) (ha : a ⊆ l) :
    HiddenBy env S a := fun t ht => h t (ha ht)

theorem Plain.quiescent {l : List Token} (h : Plain env (texts l)) : Quiescent env l := by
  induction l with
  | nil => trivial
  | cons t l ih =>
      have ht : env t.text = none := h t.text List.mem_cons_self
      refine ⟨?_, ih fun s hs => h s (List.mem_cons_of_mem _ hs)⟩
      simp [Stuck, ht]

/-- The expansion of source text. -/
theorem Settles.expandsTo {ss ss' : List String} (h : Settles env [] ss ss') :
    ∃ out, ExpandsTo env (plain ss) out ∧ texts out = ss' := by
  refine h.2 (plain ss) (texts_plain ss) ?_
  intro t ht _ n hn
  obtain ⟨s, -, rfl⟩ := List.mem_map.mp ht
  exact hn

/-! ## §2. Words and sequences. -/

theorem Plain.settles {ss : List String} (h : Plain env ss) : Settles env S ss ss := by
  refine ⟨h, fun l hl _ => ⟨l, ?_, hl⟩⟩
  rw [← hl] at h
  exact h.quiescent.expandsTo

theorem Settles.nil : Settles env S [] [] := Plain.settles (by simp [Plain])

theorem Settles.cons {s : String} {ss ss' : List String} (hs : env s = none)
    (h : Settles env S ss ss') : Settles env S (s :: ss) (s :: ss') := by
  constructor
  · intro t ht
    rcases List.mem_cons.mp ht with rfl | ht
    · exact hs
    · exact h.1 t ht
  · intro l hl hhide
    cases l with
    | nil => simp at hl
    | cons t l =>
        rw [texts_cons, List.cons.injEq] at hl
        obtain ⟨out, hout, htexts⟩ := h.2 l hl.2 (hhide.mono (List.subset_cons_self t l))
        refine ⟨t :: out, Yields.cons_stuck ?_ hout, by rw [texts_cons, hl.1, htexts]⟩
        simp [Stuck, hl.1, hs]

theorem Settles.append {a a' b b' : List String} (ha : Settles env S a a')
    (hb : Settles env S b b') (hparen : b.head? ≠ some "(") :
    Settles env S (a ++ b) (a' ++ b') := by
  refine ⟨ha.1.append hb.1, fun l hl hhide => ?_⟩
  obtain ⟨la, lb, rfl, hla, hlb⟩ := List.map_eq_append_iff.mp hl
  obtain ⟨hhidea, hhideb⟩ := HiddenBy.append.mp hhide
  obtain ⟨x, hx, hxt⟩ := ha.2 la hla hhidea
  obtain ⟨y, hy, hyt⟩ := hb.2 lb hlb hhideb
  refine ⟨x ++ y, hx.append ?_ hy, by rw [texts_append, hxt, hyt]⟩
  cases lb with
  | nil => rfl
  | cons t lb =>
      rw [← hlb] at hparen
      simpa [startsParen] using hparen

/-! ## §3. Filling in a replacement list. -/

/-- The unexpanded words of an operand of `##`. -/
def Operand.texts (args : List (List String)) : Operand → List String
  | .tok s => [s]
  | .param i => args.getD i []

/-- `##` on texts. -/
def glueTexts : List String → List String → Option (List String)
  | [], r => some r
  | [a], [] => some [a]
  | [a], b :: r => if isToken (a ++ b) then some ((a ++ b) :: r) else none
  | a :: a' :: l, r => (glueTexts (a' :: l) r).map (a :: ·)

/-- One piece; `args` are the arguments as they are written, `outs` what they become. -/
def fillPiece (args outs : List (List String)) : Piece → Option (List String)
  | .tok s => some [s]
  | .param i => some (outs.getD i [])
  | .stringize i => some [spell (String.join (args.getD i []))]
  | .paste o os => os.foldlM (fun l o' => glueTexts l (o'.texts args)) (o.texts args)

/-- A replacement list with the arguments filled in; nothing where `##` makes no token. -/
def fill (args outs : List (List String)) : List Piece → Option (List String)
  | [] => some []
  | p :: ps => (fillPiece args outs p).bind fun a => (fill args outs ps).map (a ++ ·)

/-- What `##` makes is no macro name. -/
def PlainPastes (env : Env) (args : List (List String)) (body : List Piece) : Prop :=
  ∀ o os r, .paste o os ∈ body → fillPiece args [] (.paste o os) = some r → Plain env r

theorem glue_of_glueTexts {a b : List Token} {r : List String}
    (h : glueTexts (texts a) (texts b) = some r) : ∃ l, glue a b = .ok l ∧ texts l = r := by
  induction a generalizing r with
  | nil => exact ⟨b, rfl, Option.some.inj h⟩
  | cons t a ih =>
      cases a with
      | cons t' a =>
          obtain ⟨r', hr', rfl⟩ := Option.map_eq_some_iff.mp h
          obtain ⟨l, hl, hlt⟩ := ih hr'
          refine ⟨t :: l, ?_, by rw [texts_cons, hlt]⟩
          rw [glue, hl]
          rfl
      | nil =>
          cases b with
          | nil => exact ⟨[t], rfl, Option.some.inj h⟩
          | cons u b =>
              simp only [texts_cons, texts_nil, glueTexts] at h
              by_cases htoken : isToken (t.text ++ u.text) = true
              · rw [if_pos htoken] at h
                refine ⟨⟨t.text ++ u.text, t.hide.filter (· ∈ u.hide)⟩ :: b, ?_, Option.some.inj h⟩
                simp only [glue, pasteTokens, if_pos htoken]
                rfl
              · simp [htoken] at h

theorem operand_texts (o : Operand) (as : List (List Token)) :
    texts (o.tokens as) = o.texts (as.map texts) := by
  cases o with
  | tok s => rfl
  | param i => simp [Operand.tokens, Operand.texts, List.getD_eq_getElem?_getD]; cases as[i]? <;> rfl

/-- A row of `##`. -/
theorem paste_of_fill {as : List (List Token)} (os : List Operand) :
    ∀ {l : List Token} {r : List String},
      os.foldlM (fun l o' => glueTexts l (texts (o'.tokens as))) (texts l) = some r →
      ∃ l', os.foldlM (fun l o' => glue l (o'.tokens as)) l = .ok l' ∧ texts l' = r := by
  induction os with
  | nil => intro l r h; exact ⟨l, rfl, Option.some.inj h⟩
  | cons o os ih =>
      intro l r h
      rw [List.foldlM_cons] at h
      obtain ⟨m, hm, hr⟩ := Option.bind_eq_some_iff.mp h
      obtain ⟨l₁, hl₁, rfl⟩ := glue_of_glueTexts hm
      obtain ⟨l', hl', ht⟩ := ih hr
      refine ⟨l', ?_, ht⟩
      rw [List.foldlM_cons, hl₁]
      exact hl'

theorem SubstYields.stringize {actuals : List (List Token)} {ps : List Piece} {r : List Token}
    (i : Nat) (h : SubstYields env actuals ps (.ok r)) :
    SubstYields env actuals (.stringize i :: ps)
      (.ok (stringizeTokens (actuals.getD i []) :: r)) := by
  obtain ⟨F, hF⟩ := h
  refine ⟨F, fun f hf => ?_⟩
  simp only [substitute, substPiece, hF f hf, List.singleton_append]

/-- The arguments, as they are filled in for the parameters of `body`, settle. -/
def ArgsSettle (env : Env) (S : List String) (args outs : List (List String))
    (body : List Piece) : Prop :=
  ∀ i, .param i ∈ body → Settles env S (args.getD i []) (outs.getD i [])

theorem getD_texts (as : List (List Token)) (i : Nat) :
    texts (as.getD i []) = (as.map texts).getD i [] := operand_texts (.param i) as

theorem HiddenBy.getD {as : List (List Token)} (h : ∀ a ∈ as, HiddenBy env S a) (i : Nat) :
    HiddenBy env S (as.getD i []) := by
  rw [List.getD_eq_getElem?_getD]
  cases hi : as[i]? with
  | none => intro t ht; simp at ht
  | some a => exact h a (List.mem_of_getElem? hi)

/-- Arguments that settle one by one. -/
theorem settles_getD {args outs : List (List String)}
    (h : List.Forall₂ (Settles env S) args outs) :
    ∀ i, Settles env S (args.getD i []) (outs.getD i []) := by
  induction h with
  | nil => intro i; exact Settles.nil
  | cons ha _ ih =>
      intro i
      cases i with
      | zero => exact ha
      | succ i => exact ih i

theorem fill_append {args outs : List (List String)} {ps qs : List Piece} {a b : List String}
    (ha : fill args outs ps = some a) (hb : fill args outs qs = some b) :
    fill args outs (ps ++ qs) = some (a ++ b) := by
  induction ps generalizing a with
  | nil => cases Option.some.inj ha; exact hb
  | cons p ps ih =>
      obtain ⟨x, hx, hrest⟩ := Option.bind_eq_some_iff.mp ha
      obtain ⟨y, hy, rfl⟩ := Option.map_eq_some_iff.mp hrest
      rw [List.cons_append, fill, hx, Option.bind_some, ih hy, Option.map_some, List.append_assoc]

theorem fill_tok (args outs : List (List String)) (s : String) :
    fill args outs [.tok s] = some [s] := rfl

theorem fill_toks (args outs : List (List String)) (ss : List String) :
    fill args outs (ss.map .tok) = some ss := by
  induction ss with
  | nil => rfl
  | cons s ss ih => exact fill_append (fill_tok args outs s) ih

/-- A replacement list that is one parameter. -/
theorem fill_param (args outs : List (List String)) (i : Nat) :
    fill args outs [.param i] = some (outs.getD i []) := by
  show some (outs.getD i [] ++ []) = _
  rw [List.append_nil]

theorem fill_commaSep {args outs : List (List String)} {ps : List (List Piece)}
    {xs : List (List String)} (h : List.Forall₂ (fun p x => fill args outs p = some x) ps xs) :
    fill args outs (commaSep ps) = some (joinArgs xs) := by
  induction h with
  | nil => rfl
  | @cons p x ps xs hp hrest ih =>
      cases hrest with
      | nil => exact hp
      | cons _ _ => exact fill_append hp (fill_append (fill_tok args outs ",") ih)

/-- A replacement list that is a call is filled in argument by argument. -/
theorem fill_call {args outs : List (List String)} (head : String) {ps : List (List Piece)}
    {xs : List (List String)} (h : List.Forall₂ (fun p x => fill args outs p = some x) ps xs) :
    fill args outs (callPieces (.tok head) ps) = some (callTexts head xs) :=
  fill_append (fill_toks args outs [head, "("])
    (fill_append (fill_commaSep h) (fill_tok args outs ")"))

/-- **Substitution fills in the replacement list.** -/
theorem substYields_fill {as : List (List Token)} {outs : List (List String)}
    (hhide : ∀ a ∈ as, HiddenBy env S a) :
    ∀ {body : List Piece} {mid : List String}, ArgsSettle env S (as.map texts) outs body →
      PlainPastes env (as.map texts) body → fill (as.map texts) outs body = some mid →
      ∃ r, SubstYields env as body (.ok r) ∧ texts r = mid ∧ HiddenBy env S r := by
  intro body
  induction body with
  | nil =>
      intro mid _ _ hfill
      refine ⟨[], SubstYields.nil as, Option.some.inj hfill, ?_⟩
      intro t ht
      simp at ht
  | cons p body ih =>
      intro mid hargs hpaste hfill
      obtain ⟨a, ha, hrest⟩ := Option.bind_eq_some_iff.mp hfill
      obtain ⟨b, hb, rfl⟩ := Option.map_eq_some_iff.mp hrest
      obtain ⟨r, hr, hrt, hrh⟩ := ih (fun i hi => hargs i (List.mem_cons_of_mem _ hi))
        (fun o os r hmem => hpaste o os r (List.mem_cons_of_mem _ hmem)) hb
      cases p with
      | tok s =>
          cases Option.some.inj ha
          refine ⟨⟨s, []⟩ :: r, hr.tok s, by rw [texts_cons, hrt]; rfl, ?_⟩
          intro t ht hne n hn
          rcases List.mem_cons.mp ht with rfl | ht
          · exact absurd hn (by simp)
          · exact hrh t ht hne n hn
      | param i =>
          cases Option.some.inj ha
          have hi := hargs i List.mem_cons_self
          rw [← getD_texts] at hi
          -- a parameter is replaced by its argument, expanded on its own
          obtain ⟨x, hx, hxt⟩ := hi.2 _ rfl (HiddenBy.getD hhide i)
          refine ⟨x ++ r, SubstYields.param hx hr, by rw [texts_append, hxt, hrt], ?_⟩
          rw [HiddenBy.append]
          exact ⟨HiddenBy.of_plain (by rw [hxt]; exact hi.1), hrh⟩
      | stringize i =>
          cases Option.some.inj ha
          refine ⟨_, hr.stringize i, ?_, ?_⟩
          · rw [texts_cons, stringizeTokens_text, getD_texts, hrt]
            rfl
          · intro t ht hne n hn
            rcases List.mem_cons.mp ht with rfl | ht
            · exact absurd hn (by simp [stringizeTokens])
            · exact hrh t ht hne n hn
      | paste o os =>
          -- a pasted token is rescanned, so it must not name a macro
          have hplain := hpaste o os a List.mem_cons_self ha
          simp only [fillPiece, ← operand_texts] at ha
          obtain ⟨l, hl, rfl⟩ := paste_of_fill os ha
          refine ⟨l ++ r, SubstYields.paste hr hl, by rw [texts_append, hrt], ?_⟩
          rw [HiddenBy.append]
          exact ⟨HiddenBy.of_plain hplain, hrh⟩

/-! ## §4. Calls. -/

theorem balanced_joinArgs {args : List (List String)} (h : ∀ a ∈ args, Balanced a) :
    Balanced (joinArgs args) := by
  induction args with
  | nil => exact balanced_nil
  | cons a args ih =>
      cases args with
      | nil => exact h a List.mem_cons_self
      | cons b args =>
          have hcomma : Balanced [","] := by decide
          exact (h a List.mem_cons_self).append
            (hcomma.append (ih fun c hc => h c (List.mem_cons_of_mem _ hc)))

theorem Balanced.depthAfter {ss : List String} (h : Balanced ss) (d : Nat) :
    depthAfter d ss = some d := by
  induction d with
  | zero => exact h
  | succ d ih => exact depthAfter_shift ss ih

/-- Inside parentheses commas do not count, however deep. -/
theorem topComma_inside (ss : List String) :
    ∀ {d d' : Nat}, depthAfter d ss = some d' → topComma (d + 1) ss = false := by
  induction ss with
  | nil => intro d d' _; rfl
  | cons s ss ih =>
      intro d d' h
      unfold Cpp.Preprocessor.depthAfter at h
      unfold topComma
      -- the depth seen by `topComma` is one more, so no comma is outermost
      by_cases hclose : s = ")"
      · rw [if_pos hclose] at h ⊢
        cases d with
        | zero => simp at h
        | succ e => exact ih h
      · rw [if_neg hclose] at h ⊢
        by_cases hopen : s = "("
        · rw [if_pos hopen] at h ⊢
          exact ih h
        · rw [if_neg hopen] at h ⊢
          simp [ih h]

theorem IsArg.topComma {ss : List String} (h : IsArg ss) (d : Nat) : topComma d ss = false := by
  cases d with
  | zero => exact h.commaFree
  | succ d => exact topComma_inside ss (h.balanced.depthAfter d)

theorem isArg_callTexts {head : String} {args : List (List String)}
    (hhead : head ≠ "(" ∧ head ≠ ")" ∧ head ≠ ",") (h : ∀ a ∈ args, IsArg a) :
    IsArg (callTexts head args) :=
  isArg_call hhead.1 hhead.2.1 hhead.2.2 (balanced_joinArgs fun a ha => (h a ha).balanced)

theorem joined_of_texts {args : List (List String)} (hne : args ≠ []) :
    ∀ {l : List Token}, texts l = joinArgs args → ∃ as, Joined as l ∧ as.map texts = args := by
  induction args with
  | nil => exact absurd rfl hne
  | cons a args ih =>
      intro l hl
      cases args with
      | nil => exact ⟨[l], Joined.single l, by rw [List.map_singleton, hl]; rfl⟩
      | cons b args =>
          obtain ⟨la, rest, rfl, hla, hrest⟩ := List.map_eq_append_iff.mp hl
          obtain ⟨c, lb, rfl, hc, hlb⟩ := List.map_eq_cons_iff.mp hrest
          obtain ⟨as, has, hast⟩ := ih (by simp) hlb
          exact ⟨la :: as, Joined.cons la hc has, by rw [List.map_cons, hast, ← hla]; rfl⟩

/-- A token sequence that is spelled like a call is one. -/
theorem isCall_of_texts {head : String} {args : List (List String)} (hne : args ≠ [])
    {l : List Token} (hl : texts l = callTexts head args) :
    ∃ t as, IsCall t as l ∧ t ∈ l ∧ t.text = head ∧ as.map texts = args := by
  obtain ⟨t, rest, rfl, ht, hrest⟩ := List.map_eq_cons_iff.mp hl
  obtain ⟨lp, rest', rfl, hlp, hrest'⟩ := List.map_eq_cons_iff.mp hrest
  obtain ⟨body, close, rfl, hbody, hclose⟩ := List.map_eq_append_iff.mp hrest'
  obtain ⟨rp, rfl, hrp⟩ := List.map_eq_singleton_iff.mp hclose
  obtain ⟨as, has, hast⟩ := joined_of_texts hne hbody
  exact ⟨t, as, ⟨lp, rp, body, rfl, hlp, hrp, has⟩, List.mem_cons_self, ht, hast⟩

theorem HiddenBy.addHide {r : List Token} {t : Token} {names : List String} (h : HiddenBy env S r)
    (ht : ∀ n ∈ t.hide, n ∈ S) (hnames : Within t names) :
    HiddenBy env (t.text :: S) (addHide names r) := by
  intro u hu hne n hn
  obtain ⟨v, hv, rfl⟩ := List.mem_map.mp hu
  rcases List.mem_append.mp hn with hn | hn
  · rcases hnames n hn with rfl | hmem
    · exact List.mem_cons_self
    · exact List.mem_cons_of_mem _ (ht n hmem)
  · exact List.mem_cons_of_mem _ (h v hv hne n hn)

/-- **A call of a name that is no macro.** -/
theorem Settles.call_plain (hpunct : env "(" = none ∧ env ")" = none ∧ env "," = none)
    {head : String} (hhead : env head = none) {args outs : List (List String)} (hne : args ≠ [])
    (h : List.Forall₂ (Settles env S) args outs) :
    Settles env S (callTexts head args) (callTexts head outs) := by
  have hjoin : Settles env S (joinArgs args) (joinArgs outs) := by
    induction h with
    | nil => exact absurd rfl hne
    | @cons a a' as as' ha hrest ih =>
        cases hrest with
        | nil => exact ha
        | cons _ _ => exact ha.append (Settles.cons hpunct.2.2 (ih (by simp))) (by simp)
  have hclose : Settles env S [")"] [")"] := Settles.cons hpunct.2.1 Settles.nil
  exact Settles.cons hhead (Settles.cons hpunct.1 (hjoin.append hclose (by simp)))

/-! ## §5. Replacement. -/

/-- None of the names is being replaced. -/
def Avoids (S names : List String) : Prop := ∀ n ∈ names, n ∉ S

instance (S names : List String) : Decidable (Avoids S names) :=
  inferInstanceAs (Decidable (∀ n ∈ names, n ∉ S))

theorem Avoids.cons {S names : List String} {n : String} (h : Avoids S names) (hn : n ∉ names) :
    Avoids (n :: S) names := by
  intro m hm hmem
  rcases List.mem_cons.mp hmem with rfl | hmem
  · exact hn hm
  · exact h m hm hmem

theorem Avoids.mono {S names names' : List String} (h : Avoids S names) (hsub : names' ⊆ names) :
    Avoids S names' := fun n hn => h n (hsub hn)

section Call

variable {head : String} {params : List String} {body : List Piece} {args : List (List String)}
  {mid res : List String}

/-- **A call** of a macro that is not being replaced already. -/
theorem Settles.call (outs : List (List String))
    (henv : env head = some (.function params false body)) (hS : head ∉ S)
    (hlen : args.length = params.length) (hne : args ≠ []) (hisarg : ∀ a ∈ args, IsArg a)
    (hargs : ArgsSettle env S args outs body) (hpaste : PlainPastes env args body)
    (hfill : fill args outs body = some mid) (h : Settles env (head :: S) mid res) :
    Settles env S (callTexts head args) res := by
  refine ⟨h.1, fun l hl hhide => ?_⟩
  obtain ⟨t, as, hcall, ht, rfl, rfl⟩ := isCall_of_texts hne hl
  have hthide : ∀ n ∈ t.hide, n ∈ S := hhide t ht (by simp [henv])
  have hashide : ∀ a ∈ as, HiddenBy env S a := fun a ha => hhide.mono (hcall.mem a ha)
  obtain ⟨r, hr, hrt, hrh⟩ := substYields_fill hashide hargs hpaste hfill
  obtain ⟨names, hnames, hrw⟩ := (hcall.reduces
    (fun a ha => hisarg (texts a) (List.mem_map_of_mem ha)) henv
    (by rw [← hlen, List.length_map]) (fun hmem => hS (hthide _ hmem))).1
  obtain ⟨out, hout, houtt⟩ := h.2 (Cpp.Preprocessor.addHide names r)
    (by rw [texts_addHide, hrt]) (hrh.addHide hthide hnames)
  exact ⟨out, (hrw r hr).expandsTo.mpr hout, houtt⟩

/-- A call whose replacement list has no `##`. -/
theorem Settles.call_all (outs : List (List String))
    (henv : env head = some (.function params false body)) (hS : head ∉ S)
    (hlen : args.length = params.length) (hne : args ≠ []) (hisarg : ∀ a ∈ args, IsArg a)
    (hargs : List.Forall₂ (Settles env S) args outs) (hpaste : ∀ o os, .paste o os ∉ body)
    (hfill : fill args outs body = some mid) (h : Settles env (head :: S) mid res) :
    Settles env S (callTexts head args) res := by
  refine Settles.call outs henv hS hlen hne hisarg ?_ ?_ hfill h
  · intro i _
    exact settles_getD hargs i
  · intro o os _ hmem
    exact absurd hmem (hpaste o os)

/-- **A call with another number of arguments** than the macro has parameters. -/
theorem callTexts_arity (henv : env head = some (.function params false body))
    (hlen : args.length ≠ params.length) (hparams : params ≠ []) (hne : args ≠ [])
    (hisarg : ∀ a ∈ args, IsArg a) :
    Yields env (plain (callTexts head args)) (.error (.arity head args.length)) := by
  have hcall := isCall_plain head hne
  have hplain : ∀ a ∈ args.map plain, IsArg (texts a) := by
    intro a ha
    obtain ⟨b, hb, rfl⟩ := List.mem_map.mp ha
    rw [texts_plain]
    exact hisarg b hb
  have h := hcall.arity hplain henv (by rwa [List.length_map]) hparams (by simp)
  rwa [List.length_map] at h

/-- **An object-like macro** that is not being replaced already. -/
theorem Settles.object {name : String} (henv : env name = some (.object body)) (hS : name ∉ S)
    (hparams : ∀ i, .param i ∉ body) (hpaste : PlainPastes env [] body)
    (hfill : fill [] [] body = some mid) (h : Settles env (name :: S) mid res) :
    Settles env S [name] res := by
  refine ⟨h.1, fun l hl hhide => ?_⟩
  obtain ⟨t, rfl, rfl⟩ := List.map_eq_singleton_iff.mp hl
  have hthide : ∀ n ∈ t.hide, n ∈ S := hhide t List.mem_cons_self (by simp [henv])
  have hnone : ∀ a ∈ ([] : List (List Token)), HiddenBy env S a := by simp
  have hargs : ArgsSettle env S [] [] body := fun i hi => absurd hi (hparams i)
  obtain ⟨r, hr, hrt, hrh⟩ := substYields_fill hnone hargs hpaste hfill
  have hrw : Rewrites env [t] (Cpp.Preprocessor.addHide (t.text :: t.hide) r ++ []) :=
    Rewrites.object henv (fun hmem => hS (hthide _ hmem)) hr
  rw [List.append_nil] at hrw
  have hwithin : Within t (t.text :: t.hide) := by
    intro n hn
    exact List.mem_cons.mp hn
  obtain ⟨out, hout, houtt⟩ := h.2 (Cpp.Preprocessor.addHide (t.text :: t.hide) r)
    (by rw [texts_addHide, hrt]) (hrh.addHide hthide hwithin)
  exact ⟨out, hrw.expandsTo.mpr hout, houtt⟩

end Call

end Cpp.Preprocessor
