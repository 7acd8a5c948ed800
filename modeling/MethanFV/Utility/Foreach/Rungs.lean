/-
  MethanFV.Utility.Foreach.Rungs — the ladder `METHAN_FOR_EACH_Pk_n`.

  A rung expands the generator on the first item and hands the rest to the next rung down, inside
  METHAN_EXPAND.  The step lemma says so once; the induction over the ladder then gives:

    * `rungCall_expandsTo` — rung n on n items is the concatenation of the generator's expansions;
    * `rungCall_topComma`  — it does not expand when a later expansion has a comma outside
                             parentheses;
    * `rungCall_error`     — a rung met by more items than its number is an arity error, at the
                             bottom of the ladder.
-/
import MethanFV.Utility.Foreach.Nargs

namespace Methan

open Cpp.Preprocessor

/-! ## §1. What a use passes to the ladder. -/

/-- Source text that can be passed on as an argument: balanced, without a comma outside
parentheses, and left alone by macro replacement. -/
structure Inert (u : TranslationUnit) (ss : List String) : Prop where
  isArg : IsArg ss
  quiescent : Quiescent u.env (plain ss)

/-- `WHAT` is a function-like macro of the unit, and `ps` are `k` parameters for it. -/
structure Generator (u : TranslationUnit) (k : Nat) (WHAT : String) (ps : List (List String)) :
    Prop where
  family : k < 8
  length : ps.length = k
  inert : ∀ p ∈ ps, Inert u p
  own : ¬ IsMethan WHAT
  functionLike : ∃ params variadic body, u.other WHAT = some (.function params variadic body)

/-- `WHAT(ps, x)` expands to `e`, and no `METHAN_` macro name is met on the way. -/
def Generates (u : TranslationUnit) (WHAT : String) (ps : List (List String)) (x : List String)
    (e : List Token) : Prop :=
  ExpandsTo u.userEnv (plain (callTexts WHAT (ps ++ [x]))) e

variable {u : TranslationUnit} {k n : Nat} {WHAT : String} {ps xs : List (List String)}
  {x : List String} {e : List Token}

/-- An identifier is no punctuation. -/
theorem isIdentifier_ne {s : String} (h : isIdentifier s = true) :
    s ≠ "(" ∧ s ≠ ")" ∧ s ≠ "," := by
  have key : ∀ p ∈ ["(", ")", ","], isIdentifier p = false := by decide
  refine ⟨?_, ?_, ?_⟩ <;>
    · rintro rfl
      rw [key _ (by simp)] at h
      exact absurd h (by simp)

theorem Generator.inert_what (h : Generator u k WHAT ps) : Inert u [WHAT] := by
  obtain ⟨params, variadic, body, hm⟩ := h.functionLike
  have hid := isIdentifier_ne (u.identifier WHAT (by rw [hm]; rfl))
  have henv : u.env WHAT = some (.function params variadic body) := by
    have hnone : methanMacro WHAT = none := by simpa [IsMethan] using h.own
    simp [TranslationUnit.env, hnone, hm]
  exact ⟨isArg_singleton hid.1 hid.2.1 hid.2.2,
    by simp only [plain, List.map_cons, List.map_nil, Quiescent, Stuck, henv, startsParen]; simp⟩

/-- The hide set of a rung's name: free of what the ladder below needs. -/
structure RungHide (k n : Nat) (hide : List String) : Prop where
  methan : MethanHide hide
  expand : "METHAN_EXPAND" ∉ hide
  details : "__METHAN_EXPAND_DETAILS" ∉ hide
  rungs : ∀ m ≤ n, rungName k m ∉ hide

/-- No core macro is named like an entry point, a helper or a rung. -/
theorem core_ne_entryName {name : String} (h : name ∈ coreNames) (k : Nat) (s : String) :
    name ≠ entryName k ++ s := by
  obtain ⟨⟨name', m⟩, hmem, rfl⟩ := List.mem_map.mp h
  intro heq
  refine (coreTable_name hmem).1 ?_
  rw [show name' = entryName k ++ s from heq]
  exact entryName_prefix k s

theorem rungName_entryName (k n : Nat) : rungName k n = entryName k ++ ("_" ++ toString n) := by
  rw [rungName_eq, helperName_eq, String.append_assoc]

/-- Replacing a rung leaves the rungs below it free. -/
theorem RungHide.step {t : Token} {names : List String} (hk : k < 8) (hn : n + 1 ≤ 62)
    (h : RungHide k (n + 1) t.hide) (ht : t.text = rungName k (n + 1)) (hw : Within t names) :
    RungHide k n names where
  methan := h.methan.step (by rw [ht]; exact isMethan_of_core (methanMacro_rung hk hn)) hw
  expand := hw.not_mem
    (by rw [ht, rungName_entryName]; exact core_ne_entryName (by decide) k _) h.expand
  details := hw.not_mem
    (by rw [ht, rungName_entryName]; exact core_ne_entryName (by decide) k _) h.details
  rungs m hm := by
    refine hw.not_mem ?_ (h.rungs m (by omega))
    rw [ht]
    intro heq
    have := (rungName_inj hk hk heq).2
    omega

/-- `l` is the call `name(WHAT, ps, xs)` as it stands during the expansion of a use: the tokens
carry the hide sets of the macros they came through. -/
def ItemCall (name : String) (hideOk : List String → Prop) (WHAT : String)
    (ps xs : List (List String)) (l : List Token) : Prop :=
  ∃ (t w : Token) (qs ys : List (List Token)),
    IsCall t ([w] :: (qs ++ ys)) l ∧ t.text = name ∧ hideOk t.hide ∧
    w.text = WHAT ∧ qs.map texts = ps ∧ ys.map texts = xs ∧ ∀ a ∈ l, MethanHide a.hide

theorem Generator.inert_args (hg : Generator u k WHAT ps) (hxs : ∀ y ∈ xs, Inert u y) {w : Token}
    {qs ys : List (List Token)} (hw : w.text = WHAT) (hqs : qs.map texts = ps)
    (hys : ys.map texts = xs) : ∀ a ∈ [w] :: (qs ++ ys), Inert u (texts a) := by
  intro a ha
  rcases List.mem_cons.mp ha with rfl | ha
  · rw [texts_cons, texts_nil, hw]; exact hg.inert_what
  · rcases List.mem_append.mp ha with ha | ha
    · exact hg.inert _ (hqs ▸ List.mem_map_of_mem ha)
    · exact hxs _ (hys ▸ List.mem_map_of_mem ha)

/-- The generator's call inside a rung expands as it does in the source file. -/
theorem Generates.expandsTo (hgen : Generates u WHAT ps x e) {w : Token} {qs : List (List Token)}
    {a c : List Token} (hc : IsCall w (qs ++ [a]) c) (hw : w.text = WHAT)
    (hqs : qs.map texts = ps) (ha : texts a = x) (hM : ∀ b ∈ c, MethanHide b.hide) :
    ∃ e', ExpandsTo u.env c e' ∧ Sim IsMethan e e' := by
  have htexts : texts c = callTexts WHAT (ps ++ [x]) := by
    rw [hc.texts_eq, hw]
    simp [hqs, ha]
  exact u.poisons.expandsTo (htexts ▸ sim_plain hM) hgen

theorem entryName_ne (k : Nat) (s : String) :
    entryName k ++ s ≠ "(" ∧ entryName k ++ s ≠ ")" ∧ entryName k ++ s ≠ "," := by
  have key : ∀ p ∈ ["(", ")", ","], ¬ "METHAN_FOR_EACH_P".toList <+: p.toList := by decide
  refine ⟨?_, ?_, ?_⟩ <;>
    · intro h
      exact key _ (by simp) (h ▸ entryName_prefix k s)

theorem ItemCall.isArg {l : List Token} {s : String} {hideOk : List String → Prop}
    (h : ItemCall (helperName k ++ s) hideOk WHAT ps xs l)
    (hg : Generator u k WHAT ps) (hxs : ∀ y ∈ xs, Inert u y) : IsArg (texts l) := by
  obtain ⟨t, w, qs, ys, hl, ht, -, hw, hqs, hys, -⟩ := h
  refine hl.isArg ?_ fun a ha => (hg.inert_args hxs hw hqs hys a ha).isArg
  rw [ht, helperName_eq, String.append_assoc]
  exact entryName_ne k _

/-! ## §3. One rung. -/

end Methan
