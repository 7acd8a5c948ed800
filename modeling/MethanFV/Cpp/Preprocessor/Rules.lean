/-
  MethanFV.Cpp.Preprocessor.Rules — big-step rules for macro replacement.

  `expand` is indexed by fuel.  `Yields env ts r` says that from some fuel on it returns `r`, be it
  a token sequence or an error of the program, and the rules below compose such facts without
  mentioning fuel again:

    * `expand_mono`        — more fuel never changes a finished result;
    * `Yields.cons_stuck`  — a token that is not replaced is emitted;
    * `Rewrites.call`      — one macro invocation;
    * `Yields.append`      — a finished prefix does not look into what follows it, unless an
                             opening parenthesis follows;
    * `Quiescent.expandsTo`   — a sequence in which no macro name can be replaced is its own
                             expansion.
-/
import MethanFV.Cpp.Preprocessor.Expand

namespace Cpp.Preprocessor

variable {env : Env}

/-! ## §1. Fuel. -/

/-- `ex'` finishes wherever `ex` does, with the same result. -/
def Extends (ex ex' : List Token → Except Error (List Token)) : Prop :=
  ∀ ts, ex ts ≠ .error .fuel → ex' ts = ex ts

theorem substPiece_mono {ex ex' : List Token → Except Error (List Token)} (h : Extends ex ex')
    (actuals : List (List Token)) (p : Piece) (hp : substPiece ex actuals p ≠ .error .fuel) :
    substPiece ex' actuals p = substPiece ex actuals p := by
  cases p with
  | param i => exact h _ hp
  | _ => rfl

theorem substitute_mono {ex ex' : List Token → Except Error (List Token)} (h : Extends ex ex')
    (actuals : List (List Token)) (ps : List Piece)
    (hps : substitute ex actuals ps ≠ .error .fuel) :
    substitute ex' actuals ps = substitute ex actuals ps := by
  induction ps with
  | nil => rfl
  | cons p ps ih =>
      simp only [substitute] at hps ⊢
      have hp : substPiece ex actuals p ≠ .error .fuel := by
        intro hfuel; rw [hfuel] at hps; exact hps rfl
      rw [substPiece_mono h actuals p hp]
      cases hpiece : substPiece ex actuals p with
      | error e => rfl
      | ok a =>
          simp only [hpiece] at hps
          have hrest : substitute ex actuals ps ≠ .error .fuel := by
            intro hfuel; rw [hfuel] at hps; exact hps rfl
          simp only [ih hrest]

theorem emit_eq_fuel {t : Token} {r : Except Error (List Token)} :
    emit t r = .error .fuel ↔ r = .error .fuel := by
  cases r <;> simp [emit, Except.map]

theorem expand_mono (f : Nat) : Extends (expand env f) (expand env (f + 1)) := by
  induction f with
  | zero =>
      intro ts h
      cases ts with
      | nil => rfl
      | cons t ts => exact absurd rfl h
  | succ f ih =>
      intro ts h
      cases ts with
      | nil => rfl
      | cons t ts =>
          have hemit : emit t (expand env f ts) ≠ .error .fuel →
              emit t (expand env (f + 1) ts) = emit t (expand env f ts) := fun hne => by
            rw [ih ts (fun hfuel => hne (emit_eq_fuel.mpr hfuel))]
          rw [expand] at h ⊢
          conv_rhs => rw [expand]
          cases henv : env t.text with
          | none => simp only [henv] at h ⊢; exact hemit h
          | some m =>
              cases m with
              | poisoned => rfl
              | object body =>
                  simp only [henv] at h ⊢
                  split
                  next hid => rw [if_pos hid] at h; exact hemit h
                  next hid =>
                    rw [if_neg hid] at h
                    have hs : substitute (expand env f) [] body ≠ .error .fuel := by
                      intro hfuel; rw [hfuel] at h; exact h rfl
                    rw [substitute_mono ih _ _ hs]
                    cases hsub : substitute (expand env f) [] body with
                    | error e => rfl
                    | ok r => simp only [hsub] at h ⊢; exact ih _ h
              | function params variadic body =>
                  simp only [henv] at h ⊢
                  split
                  next hid => rw [if_pos hid] at h; exact hemit h
                  next hid =>
                    rw [if_neg hid] at h
                    cases hinv : invocation t.text params variadic ts with
                    | error e => rfl
                    | ok o =>
                        cases o with
                        | none => simp only [hinv] at h ⊢; exact hemit h
                        | some a =>
                            obtain ⟨actuals, hide, rest⟩ := a
                            simp only [hinv] at h ⊢
                            have hs : substitute (expand env f) actuals body ≠ .error .fuel := by
                              intro hfuel; rw [hfuel] at h; exact h rfl
                            rw [substitute_mono ih _ _ hs]
                            cases hsub : substitute (expand env f) actuals body with
                            | error e => rfl
                            | ok r => simp only [hsub] at h ⊢; exact ih _ h

theorem expand_mono_le {f g : Nat} (h : f ≤ g) : Extends (expand env f) (expand env g) := by
  induction h with
  | refl => exact fun _ _ => rfl
  | step _ ih =>
      intro ts hts
      have h1 := ih ts hts
      rw [expand_mono _ ts (by rw [h1]; exact hts), h1]

/-! ## §2. Finished runs. -/

/-- From some fuel on, expanding `ts` returns `r`. -/
def Yields (env : Env) (ts : List Token) (r : Except Error (List Token)) : Prop :=
  ∃ F, ∀ f, F ≤ f → expand env f ts = r

/-- `ts` expands to `out`. -/
def ExpandsTo (env : Env) (ts out : List Token) : Prop := Yields env ts (.ok out)

/-- Expanding `l` is expanding `l'`. -/
def Rewrites (env : Env) (l l' : List Token) : Prop := ∀ r, Yields env l r ↔ Yields env l' r

/-- From some fuel on, substituting into `body` returns `r`. -/
def SubstYields (env : Env) (actuals : List (List Token)) (body : List Piece)
    (r : Except Error (List Token)) : Prop :=
  ∃ F, ∀ f, F ≤ f → substitute (expand env f) actuals body = r

theorem Yields.unique {ts : List Token} {r r' : Except Error (List Token)}
    (h : Yields env ts r) (h' : Yields env ts r') : r = r' := by
  obtain ⟨F, hF⟩ := h
  obtain ⟨F', hF'⟩ := h'
  rw [← hF (max F F') (Nat.le_max_left _ _), hF' (max F F') (Nat.le_max_right _ _)]

theorem ExpandsTo.unique {ts out out' : List Token} (h : ExpandsTo env ts out)
    (h' : ExpandsTo env ts out') : out = out' :=
  Except.ok.inj (Yields.unique h h')

theorem Rewrites.expandsTo {l l' out : List Token} (h : Rewrites env l l') :
    ExpandsTo env l out ↔ ExpandsTo env l' out := h _

/-- Every run has its result at some fuel; dropping one step changes nothing. -/
theorem yields_succ {ts : List Token} {r : Except Error (List Token)} :
    Yields env ts r ↔ ∃ F, ∀ f, F ≤ f → expand env (f + 1) ts = r := by
  constructor
  · rintro ⟨F, hF⟩
    exact ⟨F, fun f hf => hF (f + 1) (by omega)⟩
  · rintro ⟨F, hF⟩
    refine ⟨F + 1, fun f hf => ?_⟩
    obtain ⟨g, rfl⟩ : ∃ g, f = g + 1 := ⟨f - 1, by omega⟩
    exact hF g (by omega)

/-- A run that finished with some fuel finishes alike with all greater fuel. -/
theorem Yields.of_expand {f : Nat} {ts : List Token} {r : Except Error (List Token)}
    (h : expand env f ts = r) (hr : r ≠ .error .fuel) : Yields env ts r :=
  ⟨f, fun g hg => by rw [expand_mono_le hg ts (by rw [h]; exact hr), h]⟩

theorem ExpandsTo.of_expand {f : Nat} {ts out : List Token} (h : expand env f ts = .ok out) :
    ExpandsTo env ts out := Yields.of_expand h (by simp)

theorem SubstYields.of_substitute {f : Nat} {actuals : List (List Token)} {body : List Piece}
    {r : Except Error (List Token)} (h : substitute (expand env f) actuals body = r)
    (hr : r ≠ .error .fuel) : SubstYields env actuals body r :=
  ⟨f, fun g hg => by
    rw [substitute_mono (expand_mono_le hg) actuals body (by rw [h]; exact hr), h]⟩

/-! ## §3. Rules for substitution. -/

theorem SubstYields.nil (actuals : List (List Token)) : SubstYields env actuals [] (.ok []) :=
  ⟨0, fun _ _ => rfl⟩

theorem SubstYields.tok {actuals : List (List Token)} {ps : List Piece} {r : List Token}
    (s : String) (h : SubstYields env actuals ps (.ok r)) :
    SubstYields env actuals (.tok s :: ps) (.ok (⟨s, []⟩ :: r)) := by
  obtain ⟨F, hF⟩ := h
  exact ⟨F, fun f hf => by simp only [substitute, substPiece, hF f hf, List.singleton_append]⟩

theorem SubstYields.param {actuals : List (List Token)} {ps : List Piece} {a r : List Token}
    {i : Nat} (ha : ExpandsTo env (actuals.getD i []) a)
    (h : SubstYields env actuals ps (.ok r)) :
    SubstYields env actuals (.param i :: ps) (.ok (a ++ r)) := by
  obtain ⟨F, hF⟩ := h
  obtain ⟨G, hG⟩ := ha
  refine ⟨max F G, fun f hf => ?_⟩
  simp only [substitute, substPiece, hG f (Nat.max_le.mp hf).2, hF f (Nat.max_le.mp hf).1]

theorem SubstYields.paste {actuals : List (List Token)} {ps : List Piece} {a r : List Token}
    {o : Operand} {os : List Operand} (h : SubstYields env actuals ps (.ok r))
    (ha : os.foldlM (fun l o' => glue l (o'.tokens actuals)) (o.tokens actuals) = .ok a) :
    SubstYields env actuals (.paste o os :: ps) (.ok (a ++ r)) := by
  obtain ⟨F, hF⟩ := h
  exact ⟨F, fun f hf => by simp only [substitute, substPiece, ha, hF f hf]⟩

theorem SubstYields.append {actuals : List (List Token)} {ps qs : List Piece} {a b : List Token}
    (ha : SubstYields env actuals ps (.ok a)) (hb : SubstYields env actuals qs (.ok b)) :
    SubstYields env actuals (ps ++ qs) (.ok (a ++ b)) := by
  obtain ⟨F, hF⟩ := ha
  obtain ⟨G, hG⟩ := hb
  refine ⟨max F G, fun f hf => ?_⟩
  have h1 := hF f (Nat.max_le.mp hf).1
  have h2 := hG f (Nat.max_le.mp hf).2
  clear hF hG
  induction ps generalizing a with
  | nil => cases h1; exact h2
  | cons p ps ih =>
      simp only [substitute, List.cons_append] at h1 ⊢
      cases hp : substPiece (expand env f) actuals p with
      | error e => simp [hp] at h1
      | ok x =>
          cases hps : substitute (expand env f) actuals ps with
          | error e => simp [hp, hps] at h1
          | ok y =>
              simp only [hp, hps, Except.ok.injEq] at h1
              subst h1
              simp only [ih hps, List.append_assoc]

/-- An opening parenthesis comes first. -/
def startsParen : List Token → Bool
  | [] => false
  | t :: _ => t.text = "("

/-- `t`, followed by `ts`, is emitted as it is: it names no macro, or a macro it is hidden from,
or a function-like macro that is not invoked. -/
def Stuck (env : Env) (t : Token) (ts : List Token) : Prop :=
  match env t.text with
  | none => True
  | some (.object _) => t.text ∈ t.hide
  | some (.function _ _ _) => t.text ∈ t.hide ∨ startsParen ts = false
  | some .poisoned => False

/-- Nothing in the sequence can be replaced. -/
def Quiescent (env : Env) : List Token → Prop
  | [] => True
  | t :: ts => Stuck env t ts ∧ Quiescent env ts

instance (env : Env) (t : Token) (ts : List Token) : Decidable (Stuck env t ts) :=
  match h : env t.text with
  | none => .isTrue (by simp [Stuck, h])
  | some .poisoned => .isFalse (by simp [Stuck, h])
  | some (.object _) => decidable_of_iff (t.text ∈ t.hide) (by simp [Stuck, h])
  | some (.function _ _ _) =>
      decidable_of_iff (t.text ∈ t.hide ∨ startsParen ts = false) (by simp [Stuck, h])

instance decidableQuiescent (env : Env) : (ts : List Token) → Decidable (Quiescent env ts)
  | [] => .isTrue trivial
  | t :: ts =>
      have := decidableQuiescent env ts
      inferInstanceAs (Decidable (Stuck env t ts ∧ Quiescent env ts))

theorem invocation_none {ts : List Token} (h : startsParen ts = false) (name : String)
    (params : List String) (variadic : Bool) : invocation name params variadic ts = .ok none := by
  cases ts with
  | nil => rfl
  | cons p ts =>
      have hp : p.text ≠ "(" := by simpa [startsParen] using h
      simp [invocation, hp]

theorem startsParen_of_invocation {ts : List Token} {name : String} {params : List String}
    {variadic : Bool} (h : invocation name params variadic ts = .ok none) :
    startsParen ts = false := by
  cases ts with
  | nil => rfl
  | cons p ts =>
      by_cases hp : p.text = "("
      · simp only [invocation, hp, if_true] at h
        split at h
        · simp at h
        · next a _ =>
            cases hb : bindArgs name params variadic a.1 <;> simp [hb, Except.map] at h
      · simpa [startsParen] using hp

theorem Yields.nil : Yields env [] (.ok []) := ⟨0, fun _ _ => by rw [expand]⟩

theorem Yields.cons_stuck {t : Token} {ts : List Token} {r : Except Error (List Token)}
    (hstuck : Stuck env t ts) (h : Yields env ts r) : Yields env (t :: ts) (emit t r) := by
  obtain ⟨F, hF⟩ := h
  refine ⟨F + 1, fun f hf => ?_⟩
  obtain ⟨g, rfl⟩ : ∃ g, f = g + 1 := ⟨f - 1, by omega⟩
  rw [expand, hF g (by omega)]
  unfold Stuck at hstuck
  cases henv : env t.text with
  | none => rfl
  | some m =>
      cases m with
      | poisoned => simp [henv] at hstuck
      | object body =>
          simp only [henv] at hstuck
          simp only [if_pos hstuck]
      | function params variadic body =>
          simp only [henv] at hstuck
          by_cases hid : t.text ∈ t.hide
          · simp only [if_pos hid]
          · simp only [if_neg hid, invocation_none (hstuck.resolve_left hid)]

theorem Quiescent.expandsTo {ts : List Token} (h : Quiescent env ts) : ExpandsTo env ts ts := by
  induction ts with
  | nil => exact Yields.nil
  | cons t ts ih => exact Yields.cons_stuck h.1 (ih h.2)

/-! ## §5. Invocations. -/

section Call

variable {t : Token} {ts rest r : List Token} {actuals : List (List Token)} {hide : List String}
  {params : List String} {variadic : Bool} {body : List Piece} {res : Except Error (List Token)}

/-- One step that any amount of fuel from some point on takes. -/
theorem Rewrites.of_step {l l' : List Token}
    (h : ∃ F, ∀ f, F ≤ f → expand env (f + 1) l = expand env f l') : Rewrites env l l' := by
  obtain ⟨F, hF⟩ := h
  intro r
  rw [yields_succ]
  constructor
  · rintro ⟨G, hG⟩
    exact ⟨max F G, fun f hf => by rw [← hF f (by omega), hG f (by omega)]⟩
  · rintro ⟨G, hG⟩
    exact ⟨max F G, fun f hf => by rw [hF f (by omega), hG f (by omega)]⟩

/-- **One invocation of a function-like macro.** -/
theorem Rewrites.call (henv : env t.text = some (.function params variadic body))
    (hid : t.text ∉ t.hide)
    (hinv : invocation t.text params variadic ts = .ok (some (actuals, hide, rest)))
    (hsub : SubstYields env actuals body (.ok r)) :
    Rewrites env (t :: ts) (addHide (t.text :: t.hide.filter (· ∈ hide)) r ++ rest) := by
  obtain ⟨F, hF⟩ := hsub
  refine .of_step ⟨F, fun f hf => ?_⟩
  conv_lhs => rw [expand]
  simp only [henv, if_neg hid, hinv, hF f hf]

/-- An invocation that expands has a replacement list that does. -/
theorem substYields_of_expandsTo {out : List Token}
    (henv : env t.text = some (.function params variadic body)) (hid : t.text ∉ t.hide)
    (hinv : invocation t.text params variadic ts = .ok (some (actuals, hide, rest)))
    (h : ExpandsTo env (t :: ts) out) : ∃ r, SubstYields env actuals body (.ok r) := by
  obtain ⟨F, hF⟩ := yields_succ.mp h
  have hstep := hF F (Nat.le_refl F)
  rw [expand] at hstep
  simp only [henv, if_neg hid, hinv] at hstep
  cases hsub : substitute (expand env F) actuals body with
  | error e => simp [hsub] at hstep
  | ok r => exact ⟨r, SubstYields.of_substitute hsub (by simp)⟩

theorem Yields.call_substError {e : Error} (henv : env t.text = some (.function params variadic body))
    (hid : t.text ∉ t.hide)
    (hinv : invocation t.text params variadic ts = .ok (some (actuals, hide, rest)))
    (hsub : SubstYields env actuals body (.error e)) : Yields env (t :: ts) (.error e) := by
  obtain ⟨F, hF⟩ := hsub
  refine ⟨F + 1, fun f hf => ?_⟩
  obtain ⟨g, rfl⟩ : ∃ g, f = g + 1 := ⟨f - 1, by omega⟩
  rw [expand]
  simp only [henv, if_neg hid, hinv, hF g (by omega)]

theorem Yields.call_invalid {e : Error} (henv : env t.text = some (.function params variadic body))
    (hid : t.text ∉ t.hide) (hinv : invocation t.text params variadic ts = .error e) :
    Yields env (t :: ts) (.error e) := by
  refine ⟨1, fun f hf => ?_⟩
  obtain ⟨g, rfl⟩ : ∃ g, f = g + 1 := ⟨f - 1, by omega⟩
  rw [expand]
  simp only [henv, if_neg hid, hinv]

theorem Rewrites.object (henv : env t.text = some (.object body)) (hid : t.text ∉ t.hide)
    (hsub : SubstYields env [] body (.ok r)) :
    Rewrites env (t :: ts) (addHide (t.text :: t.hide) r ++ ts) := by
  obtain ⟨F, hF⟩ := hsub
  refine .of_step ⟨F, fun f hf => ?_⟩
  conv_lhs => rw [expand]
  simp only [henv, if_neg hid, hF f hf]

end Call

/-! ## §6. A finished prefix is independent of what follows. -/

theorem Args.push_append (t : Token) (a : Args) (b : List Token) :
    Args.push t (a.1, a.2.1, a.2.2 ++ b)
      = ((a.push t).1, (a.push t).2.1, (a.push t).2.2 ++ b) := by
  obtain ⟨as, h, r⟩ := a
  cases as <;> rfl

theorem splitArgs_append (b : List Token) (ts : List Token) :
    ∀ (limit : Option Nat) (d : Nat) (a : Args), splitArgs limit d ts = some a →
      splitArgs limit d (ts ++ b) = some (a.1, a.2.1, a.2.2 ++ b) := by
  induction ts with
  | nil => intro limit d a h; simp [splitArgs] at h
  | cons t ts ih =>
      intro limit d a h
      have hpush : ∀ {l : Option Nat} {d' : Nat} {a : Args},
          (splitArgs l d' ts).map (Args.push t) = some a →
          (splitArgs l d' (ts ++ b)).map (Args.push t) = some (a.1, a.2.1, a.2.2 ++ b) := by
        intro l d' a hmap
        obtain ⟨a', ha', rfl⟩ := Option.map_eq_some_iff.mp hmap
        rw [ih l d' a' ha', Option.map_some, Args.push_append]
      rw [List.cons_append, splitArgs.eq_def]
      rw [splitArgs.eq_def] at h
      dsimp only at h ⊢
      split at h
      next hclose =>
        rw [if_pos hclose]
        cases d with
        | zero => cases h; rfl
        | succ d' => exact hpush h
      next hclose =>
        rw [if_neg hclose]
        split at h
        next hopen => rw [if_pos hopen]; exact hpush h
        next hopen =>
          rw [if_neg hopen]
          split at h
          next hcomma =>
            rw [if_pos hcomma]
            obtain ⟨a', ha', rfl⟩ := Option.map_eq_some_iff.mp h
            rw [ih _ _ a' ha', Option.map_some]
          next hcomma => rw [if_neg hcomma]; exact hpush h

theorem invocation_append {name : String} {params : List String} {variadic : Bool}
    {ts : List Token} {a : Args} (h : invocation name params variadic ts = .ok (some a))
    (b : List Token) :
    invocation name params variadic (ts ++ b) = .ok (some (a.1, a.2.1, a.2.2 ++ b)) := by
  cases ts with
  | nil => simp [invocation] at h
  | cons p ts =>
      by_cases hp : p.text = "("
      · simp only [invocation, hp, if_true, List.cons_append] at h ⊢
        cases hs : splitArgs (if variadic then some params.length else none) 0 ts with
        | none => simp [hs] at h
        | some x =>
            rw [splitArgs_append b ts _ _ x hs]
            simp only [hs] at h ⊢
            cases hb : bindArgs name params variadic x.1 with
            | error e => simp [hb, Except.map] at h
            | ok actuals =>
                simp only [hb, Except.map, Except.ok.injEq, Option.some.injEq] at h ⊢
                subst h
                rfl
      · simp [invocation, hp] at h

theorem Stuck.append {t : Token} {ts : List Token} (h : Stuck env t ts) {b : List Token}
    (hb : startsParen b = false) : Stuck env t (ts ++ b) := by
  unfold Stuck at h ⊢
  cases henv : env t.text with
  | none => trivial
  | some m =>
      cases m with
      | function params variadic body =>
          simp only [henv] at h ⊢
          refine h.imp_right fun hts => ?_
          cases ts with
          | nil => exact hb
          | cons p ts => exact hts
      | object body => simp only [henv] at h ⊢; exact h
      | poisoned => simp [henv] at h

/-- **A finished prefix is expanded on its own**, whatever follows it but `(`. -/
theorem Yields.append {a x b : List Token} {r : Except Error (List Token)}
    (ha : ExpandsTo env a x) (hb : startsParen b = false) (h : Yields env b r) :
    Yields env (a ++ b) (r.map (x ++ ·)) := by
  obtain ⟨F, hF⟩ := ha
  have hfuel := hF F (Nat.le_refl F)
  clear hF
  induction F generalizing a x with
  | zero =>
      cases a with
      | nil => rw [expand] at hfuel; cases hfuel; cases r <;> exact h
      | cons t ts => simp [expand] at hfuel
  | succ f ih =>
      cases a with
      | nil => rw [expand] at hfuel; cases hfuel; cases r <;> exact h
      | cons t ts =>
          -- a token that is emitted: the rest is a finished prefix with less fuel
          have hemit : Stuck env t ts → emit t (expand env f ts) = .ok x →
              Yields env (t :: ts ++ b) (r.map (x ++ ·)) := by
            intro hstuck hx
            cases hy : expand env f ts with
            | error e => simp [hy, emit, Except.map] at hx
            | ok y =>
                simp only [hy, emit, Except.map, Except.ok.injEq] at hx
                subst hx
                have hrest := Yields.cons_stuck (hstuck.append hb) (ih hy)
                cases r <;> exact hrest
          rw [expand] at hfuel
          cases henv : env t.text with
          | none =>
              simp only [henv] at hfuel
              exact hemit (by simp [Stuck, henv]) hfuel
          | some m =>
              cases m with
              | poisoned => simp [henv] at hfuel
              | object body =>
                  simp only [henv] at hfuel
                  split at hfuel
                  next hid => exact hemit (by simpa [Stuck, henv] using hid) hfuel
                  next hid =>
                    cases hsub : substitute (expand env f) [] body with
                    | error e => simp [hsub] at hfuel
                    | ok s =>
                        simp only [hsub] at hfuel
                        have hrest := ih hfuel
                        rw [List.append_assoc] at hrest
                        exact (Rewrites.object henv hid
                          (SubstYields.of_substitute hsub (by simp)) _).mpr hrest
              | function params variadic body =>
                  simp only [henv] at hfuel
                  split at hfuel
                  next hid => exact hemit (by simpa [Stuck, henv] using .inl hid) hfuel
                  next hid =>
                    cases hinv : invocation t.text params variadic ts with
                    | error e => simp [hinv] at hfuel
                    | ok o =>
                        cases o with
                        | none =>
                            simp only [hinv] at hfuel
                            exact hemit (by
                              simpa [Stuck, henv] using .inr (startsParen_of_invocation hinv)) hfuel
                        | some c =>
                            obtain ⟨actuals, hide, rest⟩ := c
                            simp only [hinv] at hfuel
                            cases hsub : substitute (expand env f) actuals body with
                            | error e => simp [hsub] at hfuel
                            | ok s =>
                                simp only [hsub] at hfuel
                                have hrest := ih hfuel
                                rw [List.append_assoc] at hrest
                                exact (Rewrites.call henv hid (invocation_append hinv b)
                                  (SubstYields.of_substitute hsub (by simp)) _).mpr hrest

/-- A sequence that cannot be replaced with empty hide sets cannot be with any. -/
theorem Quiescent.of_plain {ts : List Token} (h : Quiescent env (plain (texts ts))) : Quiescent env ts := by
  induction ts with
  | nil => trivial
  | cons t ts ih =>
      refine ⟨?_, ih h.2⟩
      have hstuck := h.1
      unfold Stuck at hstuck ⊢
      cases henv : env t.text with
      | none => trivial
      | some m =>
          cases m with
          | poisoned => simp [henv] at hstuck
          | object body => simp [henv] at hstuck
          | function params variadic body =>
              simp only [henv, List.not_mem_nil, false_or] at hstuck ⊢
              exact .inr (by cases ts <;> exact hstuck)

theorem Quiescent.append {a b : List Token} (ha : Quiescent env a) (hb : startsParen b = false)
    (h : Quiescent env b) : Quiescent env (a ++ b) := by
  induction a with
  | nil => exact h
  | cons t a ih => exact ⟨ha.1.append hb, ih ha.2⟩

theorem Quiescent.of_append_right {a b : List Token} (h : Quiescent env (a ++ b)) : Quiescent env b := by
  induction a with
  | nil => exact h
  | cons t a ih => exact ih h.2

theorem Quiescent.of_append_left {a b : List Token} (h : Quiescent env (a ++ b)) : Quiescent env a := by
  induction a with
  | nil => trivial
  | cons t a ih =>
      refine ⟨?_, ih h.2⟩
      have hstuck := h.1
      unfold Stuck at hstuck ⊢
      cases henv : env t.text with
      | none => trivial
      | some m =>
          cases m with
          | poisoned => simp [henv] at hstuck
          | object body => simp only [henv] at hstuck ⊢; exact hstuck
          | function params variadic body =>
              simp only [henv] at hstuck ⊢
              refine hstuck.imp_right fun hp => ?_
              cases a with
              | nil => rfl
              | cons p a => exact hp

theorem startsParen_addHide (names : List String) (ts : List Token) :
    startsParen (addHide names ts) = startsParen ts := by
  cases ts <;> rfl

theorem Quiescent.addHide {ts : List Token} (h : Quiescent env ts) (names : List String) :
    Quiescent env (addHide names ts) := by
  induction ts with
  | nil => trivial
  | cons t ts ih =>
      refine ⟨?_, ih h.2⟩
      have hstuck := h.1
      have hmem : t.text ∈ t.hide → t.text ∈ names ++ t.hide := List.mem_append_right _
      unfold Stuck at hstuck ⊢
      cases henv : env t.text with
      | none => trivial
      | some m =>
          cases m with
          | poisoned => simp [henv] at hstuck
          | object body => simp only [henv] at hstuck ⊢; exact hmem hstuck
          | function params variadic body =>
              simp only [henv] at hstuck ⊢
              exact hstuck.imp hmem fun hp => (startsParen_addHide names ts).trans hp

theorem ExpandsTo.append {a x b y : List Token} (ha : ExpandsTo env a x)
    (hb : startsParen b = false) (h : ExpandsTo env b y) : ExpandsTo env (a ++ b) (x ++ y) :=
  Yields.append ha hb h

end Cpp.Preprocessor
