/-
  MethanFV.Cpp.Preprocessor.Poison — names that an expansion never meets.

  Poisoning the names in `P` makes every one of them an error where it is met.  A token sequence
  that expands in the poisoned environment therefore never meets them, and it expands in the same
  way in every environment that agrees outside `P`, whatever `P` names are in the hide sets of its
  tokens (`Poisons.expandsTo`).  This is how a user's macro is carried from the source file into
  the replacement text of another macro.
-/
import Mathlib.Data.List.Forall2
import MethanFV.Cpp.Preprocessor.Arguments

namespace Cpp.Preprocessor

variable {P : String → Prop}

/-! ## §1. Agreement up to hidden names. -/

/-- Two hide sets agree outside `P`. -/
def HideSim (P : String → Prop) (h h' : List String) : Prop := ∀ n, ¬ P n → (n ∈ h ↔ n ∈ h')

/-- The same token, up to hidden names in `P`. -/
def Token.Sim (P : String → Prop) (a b : Token) : Prop := a.text = b.text ∧ HideSim P a.hide b.hide

/-- The same tokens, up to hidden names in `P`. -/
abbrev Sim (P : String → Prop) : List Token → List Token → Prop := List.Forall₂ (Token.Sim P)

/-- `env₁` is `env₂` with the names in `P` poisoned. -/
structure Poisons (P : String → Prop) (env₁ env₂ : Env) : Prop where
  poisoned : ∀ n, P n → env₁ n = some .poisoned
  agree : ∀ n, ¬ P n → env₁ n = env₂ n

theorem Sim.refl (ts : List Token) : Sim P ts ts := by
  induction ts with
  | nil => exact .nil
  | cons t ts ih => exact .cons ⟨rfl, fun _ _ => Iff.rfl⟩ ih

theorem Sim.symm {a b : List Token} (h : Sim P a b) : Sim P b a := by
  induction h with
  | nil => exact .nil
  | cons ht _ ih => exact .cons ⟨ht.1.symm, fun n hn => (ht.2 n hn).symm⟩ ih

theorem Sim.trans {a b c : List Token} (h : Sim P a b) (h' : Sim P b c) : Sim P a c := by
  induction h generalizing c with
  | nil => exact h'
  | cons ht _ ih =>
      cases h' with
      | cons ht' hrest =>
          exact .cons ⟨ht.1.trans ht'.1, fun n hn => (ht.2 n hn).trans (ht'.2 n hn)⟩ (ih hrest)

theorem Sim.texts_eq {a b : List Token} (h : Sim P a b) : texts a = texts b := by
  induction h with
  | nil => rfl
  | cons ht _ ih => rw [texts_cons, texts_cons, ht.1, ih]

theorem Sim.append {a b c d : List Token} (h : Sim P a b) (h' : Sim P c d) :
    Sim P (a ++ c) (b ++ d) := by
  induction h with
  | nil => exact h'
  | cons ht _ ih => exact .cons ht ih

theorem Sim.flatten {as bs : List (List Token)} (h : List.Forall₂ (Sim P) as bs) :
    Sim P as.flatten bs.flatten := by
  induction h with
  | nil => exact .nil
  | cons hx _ ih => exact Sim.append hx ih

theorem Sim.startsParen_eq {a b : List Token} (h : Sim P a b) : startsParen a = startsParen b := by
  cases h with
  | nil => rfl
  | cons ht _ => simp only [startsParen, ht.1]

/-- Tokens whose hide sets lie in `P` agree with their spellings. -/
theorem sim_plain {ts : List Token} (h : ∀ t ∈ ts, ∀ n ∈ t.hide, P n) :
    Sim P (plain (texts ts)) ts := by
  induction ts with
  | nil => exact .nil
  | cons t ts ih =>
      refine .cons ⟨rfl, fun n hn => ?_⟩ (ih fun x hx => h x (List.mem_cons_of_mem _ hx))
      simp only [List.not_mem_nil, false_iff]
      exact fun hmem => hn (h t List.mem_cons_self n hmem)

theorem Sim.addHide {h h' : List String} (hh : HideSim P h h') {a b : List Token}
    (hab : Sim P a b) : Sim P (addHide h a) (addHide h' b) := by
  induction hab with
  | nil => exact .nil
  | cons ht _ ih =>
      refine .cons ⟨ht.1, fun n hn => ?_⟩ ih
      rw [List.mem_append, List.mem_append, hh n hn, ht.2 n hn]

/-- A sequence that cannot be replaced in one environment cannot be in the other, if the names in
`P` do not occur in it. -/
theorem Poisons.quiescent {env₁ env₂ : Env} (hp : Poisons P env₁ env₂) {a b : List Token}
    (h : Sim P a b) (ha : Quiescent env₁ a) : Quiescent env₂ b := by
  induction h with
  | nil => trivial
  | @cons t t' ts ts' ht hts ih =>
      refine ⟨?_, ih ha.2⟩
      have hstuck := ha.1
      unfold Stuck at hstuck ⊢
      by_cases hP : P t.text
      · simp [hp.poisoned _ hP] at hstuck
      rw [← ht.1, ← hp.agree _ hP]
      have hmem := ht.2 _ hP
      cases henv : env₁ t.text with
      | none => trivial
      | some m =>
          cases m with
          | poisoned => simp [henv] at hstuck
          | object body => simp only [henv] at hstuck ⊢; exact hmem.mp hstuck
          | function params variadic body =>
              simp only [henv] at hstuck ⊢
              rw [hmem, Sim.startsParen_eq hts] at hstuck
              exact hstuck

/-! ## §2. Arguments. -/

/-- The same argument list, up to hidden names in `P`. -/
def Args.Sim (P : String → Prop) (a b : Args) : Prop :=
  List.Forall₂ (Cpp.Preprocessor.Sim P) a.1 b.1 ∧ HideSim P a.2.1 b.2.1 ∧
    Cpp.Preprocessor.Sim P a.2.2 b.2.2

theorem Args.Sim.push {t t' : Token} {a b : Args} (ht : Token.Sim P t t') (h : Args.Sim P a b) :
    Args.Sim P (a.push t) (b.push t') := by
  obtain ⟨as, ha, ra⟩ := a
  obtain ⟨bs, hb, rb⟩ := b
  obtain ⟨h1, h2, h3⟩ := h
  cases h1 with
  | nil => exact ⟨.cons (.cons ht .nil) .nil, h2, h3⟩
  | cons hx hxs => exact ⟨.cons (.cons ht hx) hxs, h2, h3⟩

theorem Sim.splitArgs {ts ts' : List Token} (h : Sim P ts ts') :
    ∀ {limit : Option Nat} {d : Nat} {a : Args}, splitArgs limit d ts = some a →
      ∃ b, Cpp.Preprocessor.splitArgs limit d ts' = some b ∧ Args.Sim P a b := by
  induction h with
  | nil => intro limit d a ha; simp [Cpp.Preprocessor.splitArgs] at ha
  | @cons t t' ts ts' ht hts ih =>
      intro limit d a ha
      have hpush : ∀ {l : Option Nat} {e : Nat} {a : Args},
          (Cpp.Preprocessor.splitArgs l e ts).map (Args.push t) = some a →
          ∃ b, (Cpp.Preprocessor.splitArgs l e ts').map (Args.push t') = some b ∧
            Args.Sim P a b := by
        intro l e a hmap
        obtain ⟨x, hx, rfl⟩ := Option.map_eq_some_iff.mp hmap
        obtain ⟨y, hy, hxy⟩ := ih hx
        exact ⟨_, by rw [hy, Option.map_some], hxy.push ht⟩
      rw [splitArgs.eq_def] at ha ⊢
      dsimp only at ha ⊢
      rw [← ht.1]
      split at ha
      next hc =>
        rw [if_pos hc]
        cases d with
        | zero => cases ha; exact ⟨_, rfl, .cons .nil .nil, ht.2, hts⟩
        | succ e => exact hpush ha
      next hc =>
        rw [if_neg hc]
        split at ha
        next ho => rw [if_pos ho]; exact hpush ha
        next ho =>
          rw [if_neg ho]
          split at ha
          next hcomma =>
            rw [if_pos hcomma]
            obtain ⟨x, hx, rfl⟩ := Option.map_eq_some_iff.mp ha
            obtain ⟨y, hy, h1, h2, h3⟩ := ih hx
            exact ⟨([] :: y.1, y.2), by rw [hy, Option.map_some], .cons .nil h1, h2, h3⟩
          next hcomma => rw [if_neg hcomma]; exact hpush ha

theorem bindArgs_sim {name : String} {params : List String} {variadic : Bool}
    {as bs actuals : List (List Token)} (h : List.Forall₂ (Sim P) as bs)
    (ha : bindArgs name params variadic as = .ok actuals) :
    ∃ actuals', bindArgs name params variadic bs = .ok actuals' ∧
      List.Forall₂ (Sim P) actuals actuals' := by
  have hlen := h.length_eq
  have hempty : bs = [[]] ↔ as = [[]] := by
    constructor
    · rintro rfl
      cases h with | cons h1 h2 => cases h1; cases h2; rfl
    · rintro rfl
      cases h with | cons h1 h2 => cases h1; cases h2; rfl
  unfold bindArgs at ha ⊢
  simp only [← hlen, hempty]
  cases variadic with
  | true =>
      simp only [if_true] at ha ⊢
      by_cases h1 : as.length = params.length + 1
      · rw [if_pos h1] at ha ⊢; cases ha; exact ⟨bs, rfl, h⟩
      · rw [if_neg h1] at ha ⊢
        by_cases h2 : as.length = params.length
        · rw [if_pos h2] at ha ⊢; cases ha
          exact ⟨_, rfl, List.rel_append h (.cons .nil .nil)⟩
        · simp [h2] at ha
  | false =>
      simp only [Bool.false_eq_true, if_false] at ha ⊢
      by_cases h1 : as.length = params.length
      · rw [if_pos h1] at ha ⊢; cases ha; exact ⟨bs, rfl, h⟩
      · rw [if_neg h1] at ha ⊢
        by_cases h2 : params = [] ∧ as = [[]]
        · rw [if_pos h2] at ha ⊢; cases ha; exact ⟨[], rfl, .nil⟩
        · simp [h2] at ha

theorem invocation_sim {name : String} {params : List String} {variadic : Bool}
    {ts ts' : List Token} (h : Sim P ts ts') {a : Args}
    (ha : invocation name params variadic ts = .ok (some a)) :
    ∃ b, invocation name params variadic ts' = .ok (some b) ∧ Args.Sim P a b := by
  cases h with
  | nil => simp [invocation] at ha
  | @cons t t' ts ts' ht hts =>
      unfold invocation at ha ⊢
      dsimp only at ha ⊢
      rw [← ht.1]
      split at ha
      next ho =>
        rw [if_pos ho]
        split at ha
        · simp at ha
        next x hx =>
          obtain ⟨y, hy, h1, h2, h3⟩ := Sim.splitArgs hts hx
          rw [hy]
          cases hb : bindArgs name params variadic x.1 with
          | error e => simp [hb, Except.map] at ha
          | ok actuals =>
              simp only [hb, Except.map, Except.ok.injEq, Option.some.injEq] at ha
              subst ha
              obtain ⟨actuals', hb', hact⟩ := bindArgs_sim h1 hb
              exact ⟨(actuals', y.2), by simp [hb', Except.map], hact, h2, h3⟩
      next ho => simp at ha

/-! ## §3. Substitution. -/

theorem getD_sim {as bs : List (List Token)} (h : List.Forall₂ (Sim P) as bs) (i : Nat) :
    Sim P (as.getD i []) (bs.getD i []) := by
  induction h generalizing i with
  | nil => simp
  | cons hx _ ih =>
      cases i with
      | zero => simpa using hx
      | succ i => simpa using ih i

theorem glue_sim {a b a' b' r : List Token} (ha : Sim P a a') (hb : Sim P b b')
    (h : glue a b = .ok r) : ∃ r', glue a' b' = .ok r' ∧ Sim P r r' := by
  induction ha generalizing r with
  | nil => cases h; exact ⟨b', rfl, hb⟩
  | @cons t t' as as' ht has ih =>
      cases has with
      | nil =>
          cases hb with
          | nil => cases h; exact ⟨[t'], rfl, .cons ht .nil⟩
          | @cons u u' bs bs' hu hbs =>
              simp only [glue, pasteTokens, ← ht.1, ← hu.1] at h ⊢
              split at h
              next htok =>
                rw [if_pos htok]
                cases h
                refine ⟨_, rfl, .cons ⟨rfl, fun n hn => ?_⟩ hbs⟩
                simp only [List.mem_filter, decide_eq_true_eq, ht.2 n hn, hu.2 n hn]
              next htok => simp [Except.map] at h
      | @cons s s' as as' hs has =>
          simp only [glue] at h ⊢
          cases hg : glue (s :: as) b with
          | error e => simp [hg, Except.map] at h
          | ok g =>
              simp only [hg, Except.map, Except.ok.injEq] at h
              subst h
              obtain ⟨g', hg', hsim⟩ := ih hg
              exact ⟨t' :: g', by rw [hg']; rfl, .cons ht hsim⟩

theorem operand_sim {as bs : List (List Token)} (h : List.Forall₂ (Sim P) as bs) (o : Operand) :
    Sim P (o.tokens as) (o.tokens bs) := by
  cases o with
  | tok s => exact Sim.refl _
  | param i => exact getD_sim h i

theorem paste_sim {as bs : List (List Token)} (h : List.Forall₂ (Sim P) as bs)
    (os : List Operand) {l l' r : List Token} (hl : Sim P l l')
    (hr : os.foldlM (fun l o => glue l (o.tokens as)) l = .ok r) :
    ∃ r', os.foldlM (fun l o => glue l (o.tokens bs)) l' = .ok r' ∧ Sim P r r' := by
  induction os generalizing l l' with
  | nil => cases hr; exact ⟨l', rfl, hl⟩
  | cons o os ih =>
      rw [List.foldlM_cons] at hr ⊢
      cases hg : glue l (o.tokens as) with
      | error e => rw [hg] at hr; exact absurd hr (by intro h; cases h)
      | ok g =>
          rw [hg] at hr
          obtain ⟨g', hg', hsim⟩ := glue_sim hl (operand_sim h o) hg
          rw [hg']
          exact ih hsim hr

/-- `ex'` expands like `ex`, up to hidden names in `P`. -/
def ExpandSim (P : String → Prop) (ex ex' : List Token → Except Error (List Token)) : Prop :=
  ∀ {ts ts' out}, Sim P ts ts' → ex ts = .ok out → ∃ out', ex' ts' = .ok out' ∧ Sim P out out'

theorem substPiece_sim {ex ex' : List Token → Except Error (List Token)} (hex : ExpandSim P ex ex')
    {as bs : List (List Token)} (h : List.Forall₂ (Sim P) as bs) {p : Piece} {r : List Token}
    (hr : substPiece ex as p = .ok r) : ∃ r', substPiece ex' bs p = .ok r' ∧ Sim P r r' := by
  cases p with
  | tok s => cases hr; exact ⟨_, rfl, Sim.refl _⟩
  | param i => exact hex (getD_sim h i) hr
  | stringize i =>
      cases hr
      refine ⟨_, rfl, .cons ⟨?_, fun _ _ => Iff.rfl⟩ .nil⟩
      have htexts := (getD_sim h i).texts_eq
      have hmap : ∀ ts : List Token, ts.map (fun t => escaped t.text) = (texts ts).map escaped := by
        intro ts; simp [texts, Function.comp_def]
      simp only [stringizeTokens, hmap, htexts]
  | paste o os => exact paste_sim h os (operand_sim h o) hr

theorem substitute_sim {ex ex' : List Token → Except Error (List Token)} (hex : ExpandSim P ex ex')
    {as bs : List (List Token)} (h : List.Forall₂ (Sim P) as bs) {ps : List Piece}
    {r : List Token} (hr : substitute ex as ps = .ok r) :
    ∃ r', substitute ex' bs ps = .ok r' ∧ Sim P r r' := by
  induction ps generalizing r with
  | nil => cases hr; exact ⟨[], rfl, .nil⟩
  | cons p ps ih =>
      simp only [substitute] at hr ⊢
      cases hp : substPiece ex as p with
      | error e => simp [hp] at hr
      | ok a =>
          cases hps : substitute ex as ps with
          | error e => simp [hp, hps] at hr
          | ok b =>
              simp only [hp, hps, Except.ok.injEq] at hr
              subst hr
              obtain ⟨a', ha', hsa⟩ := substPiece_sim hex h hp
              obtain ⟨b', hb', hsb⟩ := ih hps
              exact ⟨a' ++ b', by rw [ha', hb'], hsa.append hsb⟩

/-! ## §4. Expansion. -/

theorem emit_sim {t t' : Token} (ht : Token.Sim P t t') {r r' : Except Error (List Token)}
    {out : List Token} (h : emit t r = .ok out)
    (hr : ∀ {o}, r = .ok o → ∃ o', r' = .ok o' ∧ Sim P o o') :
    ∃ out', emit t' r' = .ok out' ∧ Sim P out out' := by
  cases hc : r with
  | error e => simp [hc, emit, Except.map] at h
  | ok o =>
      simp only [hc, emit, Except.map, Except.ok.injEq] at h
      subst h
      obtain ⟨o', ho', hsim⟩ := hr hc
      exact ⟨t' :: o', by rw [ho']; rfl, .cons ht hsim⟩

theorem Poisons.expand {env₁ env₂ : Env} (hp : Poisons P env₁ env₂) (f : Nat) :
    ExpandSim P (expand env₁ f) (Cpp.Preprocessor.expand env₂ f) := by
  induction f with
  | zero =>
      intro ts ts' out hts h
      cases hts with
      | nil => cases h; exact ⟨[], rfl, .nil⟩
      | cons _ _ => simp [Cpp.Preprocessor.expand] at h
  | succ f ih =>
      intro ts ts' out hts h
      cases hts with
      | nil => cases h; exact ⟨[], rfl, .nil⟩
      | @cons t t' ts ts' ht hts =>
          have hemit : emit t (Cpp.Preprocessor.expand env₁ f ts) = .ok out →
              ∃ out', emit t' (Cpp.Preprocessor.expand env₂ f ts') = .ok out' ∧ Sim P out out' :=
            fun he => emit_sim ht he fun ho => ih hts ho
          rw [Cpp.Preprocessor.expand] at h ⊢
          by_cases hP : P t.text
          · simp [hp.poisoned _ hP] at h
          have hhid := ht.2 _ hP
          rw [← ht.1, ← hp.agree _ hP]
          cases henv : env₁ t.text with
          | none => simp only [henv] at h ⊢; exact hemit h
          | some m =>
              cases m with
              | poisoned => simp [henv] at h
              | object body =>
                  simp only [henv] at h ⊢
                  split at h
                  next hid => rw [if_pos (hhid.mp hid)]; exact hemit h
                  next hid =>
                    rw [if_neg fun hc => hid (hhid.mpr hc)]
                    cases hsub : substitute (Cpp.Preprocessor.expand env₁ f) [] body with
                    | error e => simp [hsub] at h
                    | ok r =>
                        simp only [hsub] at h
                        obtain ⟨r', hr', hsim⟩ := substitute_sim ih .nil hsub
                        rw [hr']
                        refine ih (.append (hsim.addHide fun n hn => ?_) hts) h
                        simp only [List.mem_cons, ht.2 n hn]
              | function params variadic body =>
                  simp only [henv] at h ⊢
                  split at h
                  next hid => rw [if_pos (hhid.mp hid)]; exact hemit h
                  next hid =>
                    rw [if_neg fun hc => hid (hhid.mpr hc)]
                    cases hinv : invocation t.text params variadic ts with
                    | error e => simp [hinv] at h
                    | ok o =>
                        cases o with
                        | none =>
                            simp only [hinv] at h
                            have hnone := startsParen_of_invocation hinv
                            rw [Sim.startsParen_eq hts] at hnone
                            rw [invocation_none hnone]
                            exact hemit h
                        | some c =>
                            obtain ⟨actuals, hide, rest⟩ := c
                            simp only [hinv] at h
                            obtain ⟨⟨actuals', hide', rest'⟩, hinv', h1, h2, h3⟩ :=
                              invocation_sim hts hinv
                            rw [hinv']
                            dsimp only
                            cases hsub : substitute (Cpp.Preprocessor.expand env₁ f) actuals body with
                            | error e => simp [hsub] at h
                            | ok r =>
                                simp only [hsub] at h
                                obtain ⟨r', hr', hsim⟩ := substitute_sim ih h1 hsub
                                rw [hr']
                                refine ih (.append (hsim.addHide fun n hn => ?_) h3) h
                                simp only [List.mem_cons, List.mem_filter, decide_eq_true_eq,
                                  ht.2 n hn, h2 n hn]

/-- **An expansion that never meets the names in `P`** is the same in every environment that
agrees outside `P`, whatever names of `P` its tokens are hidden from. -/
theorem Poisons.expandsTo {env₁ env₂ : Env} (hp : Poisons P env₁ env₂) {ts ts' out : List Token}
    (hts : Sim P ts ts') (h : ExpandsTo env₁ ts out) :
    ∃ out', ExpandsTo env₂ ts' out' ∧ Sim P out out' := by
  obtain ⟨F, hF⟩ := h
  obtain ⟨out', hout, hsim⟩ := hp.expand F hts (hF F (Nat.le_refl F))
  exact ⟨out', ExpandsTo.of_expand hout, hsim⟩

end Cpp.Preprocessor
