/-
  MethanFV.Utility.Assertion.Expansion — what the checks of `utility/assertion.hpp` are replaced by.

  A use of a check, with any arguments, is replaced by the statement

      do { if(!(condition)) { throw Methan::Exception(msg, file, line, type); } } while(0)

  whatever macros the program has, or by nothing when the library is built without assertions.

    * `Use`             — one use of a check, with its arguments;
    * `Use.settles`     — the statement, wherever the arguments settle;
    * `use_expands`     — `METHAN_FORCE_ASSERT…` is replaced by the statement, `METHAN_ASSERT…` by the
                          statement or by nothing, as the build says;
    * `check_arity`     — any other number of arguments is an error in every build.
-/
import Mathlib.Data.List.Forall2
import MethanFV.Utility.Assertion.Check
import MethanFV.Utility.Assertion.Macros

namespace Methan

open Cpp.Preprocessor

/-! ## §1. Arguments and uses. -/

/-- An argument of a macro, as it is written and as it is after macro replacement. -/
structure Actual (env : Env) where
  source : List String
  isArg : IsArg source
  text : List String
  settles : Settles env [] source text
  textIsArg : IsArg text

/-- A use of one of the checks. -/
inductive Use (env : Env) where
  | assert (condition type msg : Actual env)
  | argument (condition : Actual env)
  | nonNull (pointer : Actual env)
  | null (pointer : Actual env)
  | index (index upperBound : Actual env)

namespace Use

variable {env : Env}

def args : Use env → List (Actual env)
  | .assert condition type msg => [condition, type, msg]
  | .argument condition => [condition]
  | .nonNull pointer | .null pointer => [pointer]
  | .index i n => [i, n]

def check : Use env → Check
  | .assert _ _ _ => .assert
  | .argument _ => .argument
  | .nonNull _ => .nonNull
  | .null _ => .null
  | .index _ _ => .index

/-- The condition of the statement. -/
def condition : Use env → List String
  | .assert c _ _ => c.text
  | .argument c => c.text
  | .nonNull p => p.text ++ ["!=", "nullptr"]
  | .null p => p.text ++ ["==", "nullptr"]
  | .index i n => i.text ++ "<" :: n.text

/-- The type of the exception. -/
def type : Use env → List String
  | .assert _ t _ => t.text
  | .argument _ => ExceptionType.IllegalArgument.words
  | .nonNull _ => ExceptionType.NullPointer.words
  | .null _ => ExceptionType.AlreadyInitialized.words
  | .index _ _ => ExceptionType.IndexOutOfBounds.words

/-- Three literals in a row: the text of an argument between two fixed ones. -/
def quoted (before : String) (text : List String) (after : String) : List String :=
  [spell before, spell (String.join text), spell after]

/-- `std::to_string(…)` -/
def toStringCall (text : List String) : List String :=
  ["std", "::"] ++ callTexts "to_string" [text]

/-- The message of the index check. -/
def indexMsg (i n : List String) : List String :=
  [spell "The given index is out of bounds (", "+"] ++ (toStringCall i ++
    (["+", spell " should be less than ", "+"] ++ (toStringCall n ++ ["+", spell ")."])))

/-- The message of the exception. -/
def msg : Use env → List String
  | .assert _ _ m => m.text
  | .argument c => quoted ("The condition " ++ quote) c.text (quote ++ " failed")
  | .nonNull p => quoted "The pointer " p.text " should not be null"
  | .null p => quoted "Cannot reinitialize the pointer " p.text " that should be null"
  | .index i n => indexMsg i.text n.text

end Use

/-- `throw Methan::Exception(msg, __FILE__, __LINE__, type)` at the site. -/
def throwText (u : Site) (msg type : List String) : List String :=
  ["throw", "Methan", "::"] ++
    callTexts "Exception" [msg, [spell u.path], [toString u.line], type]

/-- `if(!(condition)) { … ; }` -/
def ifNotText (condition body : List String) : List String :=
  callTexts "if" [callTexts "!" [condition]] ++ (["\x7b"] ++ (body ++ [";", "\x7d"]))

/-- `do { if(!(condition)) { throw Methan::Exception(msg, …, type); } } while(0)` -/
def statementText (u : Site) (condition msg type : List String) : List String :=
  ["do", "\x7b"] ++ (ifNotText condition (throwText u msg type) ++ ["\x7d", "while", "(", "0", ")"])

def Use.statement {u : Site} (x : Use u.env) : List String :=
  statementText u x.condition x.msg x.type

/-! ## §2. The macros that the checks are built from. -/

variable (u : Site) {S : List String}

def stringizeNames : List String := ["METHAN_STRINGIZE", "__METHAN_STRINGIZE_DETAILS"]

def ecapsulateNames : List String :=
  ["METHAN_ECAPSULATE_LINE_DETAILS", "__METHAN_ECAPSULATE_LINE_DETAILS"]

theorem stringize_settles {a a' : List String} (hS : Avoids S stringizeNames) (ha : IsArg a)
    (h : Settles u.env S a a') (ha' : IsArg a') :
    Settles u.env S (callTexts "METHAN_STRINGIZE" [a]) [spell (String.join a')] := by
  refine settles_through u.toTranslationUnit (u.env_methan rfl) (u.env_methan rfl) ⟨rfl, rfl⟩ hS
    (by decide) ha h ha' (by simp) rfl ?_
  exact (Site.isConstant_spell _).plain u

theorem ecapsulate_settles {a a' : List String} (hS : Avoids S ecapsulateNames) (ha : IsArg a)
    (h : Settles u.env S a a') (ha' : IsArg a') :
    Settles u.env S (callTexts "METHAN_ECAPSULATE_LINE_DETAILS" [a])
      (["do", "\x7b"] ++ (a' ++ ["\x7d", "while", "(", "0", ")"])) := by
  refine settles_through u.toTranslationUnit (u.env_methan rfl) (u.env_methan rfl) ⟨rfl, rfl⟩ hS
    (by decide) ha h ha' (by simp) rfl ?_
  have hfront : Plain u.env ["do", "\x7b"] := u.plain_of_known (by decide)
  have hback : Plain u.env ["\x7d", "while", "(", "0", ")"] := u.plain_of_known (by decide)
  exact hfront.append (h.1.append hback)

/-! ## §3. `METHAN_THROW_EXCEPTION` and `METHAN_FORCE_ASSERT`. -/

def throwNames : List String := ["METHAN_THROW_EXCEPTION", "__FILE__", "__LINE__"] ++ expandNames

def forceNames : List String := "METHAN_FORCE_ASSERT" :: (ecapsulateNames ++ throwNames)

/-- `METHAN_EXPAND(name)` of an object-like macro that stands for a literal or a number. -/
theorem expand_object {name s : String} (henv : u.env name = some (.object [.tok s]))
    (hs : Site.IsConstant s) (hname : IsArg [name]) (hS : Avoids S expandNames)
    (hmem : name ∉ S) : Settles u.env S (callTexts "METHAN_EXPAND" [[name]]) [s] := by
  refine expand_settles u.toTranslationUnit hS hname ?_ hs.isArg
  refine Settles.object henv hmem (by simp) ?_ rfl (hs.plain u).settles
  intro o os r hpaste
  simp at hpaste

theorem throw_settles {what what' type type' : List String} (hS : Avoids S throwNames)
    (hargs : ∀ a ∈ [what, type], IsArg a) (hwhat : Settles u.env S what what')
    (htype : Settles u.env S type type') :
    Settles u.env S (callTexts "METHAN_THROW_EXCEPTION" [what, type]) (throwText u what' type') := by
  have henv : u.env "METHAN_THROW_EXCEPTION" = some throwException :=
    u.env_assertion (by simp [assertionTable])
  have hS' : Avoids ("METHAN_THROW_EXCEPTION" :: S) expandNames :=
    (hS.mono (by decide)).cons (by decide)
  have hfile : Settles u.env ("METHAN_THROW_EXCEPTION" :: S)
      (callTexts "METHAN_EXPAND" [["__FILE__"]]) [spell u.path] := by
    refine expand_object u (u.env_assertion (by simp [assertionTable])) (Site.isConstant_spell _)
      (by decide) hS' ?_
    simpa using hS "__FILE__" (by decide)
  have hline : Settles u.env ("METHAN_THROW_EXCEPTION" :: S)
      (callTexts "METHAN_EXPAND" [["__LINE__"]]) [toString u.line] := by
    refine expand_object u (u.env_assertion (by simp [assertionTable]))
      (Site.isConstant_toString _) (by decide) hS' ?_
    simpa using hS "__LINE__" (by decide)
  -- `Exception` is no macro, but what stands in its parentheses is expanded
  have hcall : Settles u.env ("METHAN_THROW_EXCEPTION" :: S)
      (callTexts "Exception" [what', callTexts "METHAN_EXPAND" [["__FILE__"]],
        callTexts "METHAN_EXPAND" [["__LINE__"]], type'])
      (callTexts "Exception" [what', [spell u.path], [toString u.line], type']) :=
    Settles.call_plain u.env_punctuation (u.env_known (by decide)) (by simp)
      (.cons hwhat.1.settles (.cons hfile (.cons hline (.cons htype.1.settles .nil))))
  refine Settles.call_all [what', type'] henv (hS _ (by decide)) rfl (by simp) hargs
    (.cons hwhat (.cons htype .nil)) (by simp [toks, callPieces, commaSep]) ?_
    (Settles.cons (u.env_known (by decide)) (Settles.cons (u.env_known (by decide))
      (Settles.cons (u.env_known (by decide)) hcall)))
  have hbody := fill_call "Exception"
    (.cons (fill_param [what, type] [what', type'] 0)
      (.cons (fill_call "METHAN_EXPAND" (.cons (fill_tok _ _ "__FILE__") .nil))
      (.cons (fill_call "METHAN_EXPAND" (.cons (fill_tok _ _ "__LINE__") .nil))
        (.cons (fill_param _ _ 1) .nil))))
  exact fill_append (fill_toks _ _ ["throw", "Methan", "::"]) hbody

theorem throwText_isArg {what type : List String} (hwhat : IsArg what) (htype : IsArg type) :
    IsArg (throwText u what type) := by
  have hfront : IsArg ["throw", "Methan", "::"] := by decide
  refine hfront.append (isArg_callTexts (by decide) ?_)
  simp only [List.mem_cons, List.not_mem_nil, or_false, forall_eq_or_imp, forall_eq]
  exact ⟨hwhat, (Site.isConstant_spell _).isArg, (Site.isConstant_toString _).isArg, htype⟩

theorem ifNot_isArg {condition body : List String} (hc : IsArg condition) (hb : IsArg body) :
    IsArg (ifNotText condition body) := by
  have hnot : IsArg (callTexts "!" [condition]) :=
    isArg_callTexts (by decide) (by simpa using hc)
  have hif : IsArg (callTexts "if" [callTexts "!" [condition]]) :=
    isArg_callTexts (by decide) (by simpa using hnot)
  have hopen : IsArg ["\x7b"] := by decide
  have hclose : IsArg [";", "\x7d"] := by decide
  exact hif.append (hopen.append (hb.append hclose))

/-- The arguments of a macro, one by one: they can be passed on, and they settle. -/
def Passes (S : List String) (a a' : List String) : Prop :=
  IsArg a ∧ Settles u.env S a a' ∧ IsArg a'

/-- **`METHAN_FORCE_ASSERT(condition, type, msg)`** -/
theorem forceAssert_settles {c c' t t' m m' : List String} (hS : Avoids S forceNames)
    (hc : Passes u S c c') (ht : Passes u S t t') (hm : Passes u S m m') :
    Settles u.env S (callTexts "METHAN_FORCE_ASSERT" [c, t, m]) (statementText u c' m' t') := by
  have henv : u.env "METHAN_FORCE_ASSERT" = some forceAssert :=
    u.env_assertion (by simp [assertionTable])
  have hS' : Avoids ("METHAN_FORCE_ASSERT" :: S) (ecapsulateNames ++ throwNames) :=
    (hS.mono (by decide)).cons (by decide)
  have hthrow : Settles u.env ("METHAN_FORCE_ASSERT" :: S)
      (callTexts "METHAN_THROW_EXCEPTION" [m', t']) (throwText u m' t') :=
    throw_settles u (hS'.mono (by decide)) (by simpa using ⟨hm.2.2, ht.2.2⟩) hm.2.1.1.settles
      ht.2.1.1.settles
  have hif : Settles u.env ("METHAN_FORCE_ASSERT" :: S)
      (callTexts "if" [callTexts "!" [c']]) (callTexts "if" [callTexts "!" [c']]) :=
    Settles.call_plain u.env_punctuation (u.env_known (by decide)) (by simp)
      (.cons (Settles.call_plain u.env_punctuation (u.env_known (by decide)) (by simp)
        (.cons hc.2.1.1.settles .nil)) .nil)
  have hbody : Settles u.env ("METHAN_FORCE_ASSERT" :: S)
      (ifNotText c' (callTexts "METHAN_THROW_EXCEPTION" [m', t']))
      (ifNotText c' (throwText u m' t')) := by
    have hend : Settles u.env ("METHAN_FORCE_ASSERT" :: S) [";", "\x7d"] [";", "\x7d"] :=
      (u.plain_of_known (by decide)).settles
    have hrest := hthrow.append hend (by simp)
    exact hif.append (Settles.cons (u.env_known (by decide)) hrest) (by simp)
  have hcall : IsArg (callTexts "METHAN_THROW_EXCEPTION" [m', t']) :=
    isArg_callTexts (by decide) (by simpa using ⟨hm.2.2, ht.2.2⟩)
  have hresult := ecapsulate_settles u (hS'.mono (by decide)) (ifNot_isArg hc.2.2 hcall) hbody
    (ifNot_isArg hc.2.2 (throwText_isArg u hm.2.2 ht.2.2))
  refine Settles.call_all [c', t', m'] henv (hS _ (by decide)) rfl (by simp)
    (by simpa using ⟨hc.1, ht.1, hm.1⟩)
    (.cons hc.2.1 (.cons ht.2.1 (.cons hm.2.1 .nil))) (by simp [toks, callPieces, commaSep]) ?_
    hresult
  -- the argument of `METHAN_ECAPSULATE_LINE_DETAILS`, piece by piece
  have hfill := fill_append
    (fill_call "if" (.cons (fill_call "!" (.cons (fill_param [c, t, m] [c', t', m'] 0) .nil)) .nil))
    (fill_append (fill_tok _ _ "\x7b")
      (fill_append (fill_call "METHAN_THROW_EXCEPTION"
        (.cons (fill_param _ _ 2) (.cons (fill_param _ _ 1) .nil)))
        (fill_toks _ _ [";", "\x7d"])))
  exact fill_call "METHAN_ECAPSULATE_LINE_DETAILS" (.cons hfill .nil)

/-! ## §4. The checks. -/

theorem words_plain (type : ExceptionType) : Plain u.env type.words := by
  apply u.plain_of_known
  cases type <;> decide

theorem words_isArg (type : ExceptionType) : IsArg type.words := by
  cases type <;> decide

/-- Text without macros is passed on as it is. -/
theorem passes_plain {a : List String} (h : Plain u.env a) (ha : IsArg a) : Passes u S a a :=
  ⟨ha, h.settles, ha⟩

/-- A check whose replacement list is `METHAN_FORCE_ASSERT(condition, type, msg)`. -/
theorem wrapped_settles {name : String} {params : List String} {condition msg : List Piece}
    {type : ExceptionType} {args outs : List (List String)} {c m m' : List String}
    (henv : u.env name = some (.function params false (forceAssertPieces condition type msg)))
    (hS : Avoids S (name :: forceNames)) (hname : name ∉ forceNames)
    (hlen : args.length = params.length) (hne : args ≠ [])
    (hargs : List.Forall₂ (Passes u S) args outs)
    (hpaste : ∀ o os, .paste o os ∉ forceAssertPieces condition type msg)
    (hcondition : fill args outs condition = some c) (hc : Plain u.env c ∧ IsArg c)
    (hmsg : fill args outs msg = some m) (hm : Passes u (name :: S) m m') :
    Settles u.env S (callTexts name args) (statementText u c m' type.words) := by
  -- one step leads to `METHAN_FORCE_ASSERT`, with the arguments expanded
  have hcall : Settles u.env (name :: S) (callTexts "METHAN_FORCE_ASSERT" [c, type.words, m])
      (statementText u c m' type.words) :=
    forceAssert_settles u ((hS.mono (List.subset_cons_self _ _)).cons hname)
      (passes_plain u hc.1 hc.2) (passes_plain u (words_plain u type) (words_isArg type)) hm
  have htype : fill args outs (toks type.words) = some type.words := by
    cases type <;> rfl
  refine Settles.call_all outs henv (hS name List.mem_cons_self) hlen hne ?_ ?_ hpaste
    (fill_call _ (.cons hcondition (.cons htype (.cons hmsg .nil)))) hcall
  · exact ((List.forall₂_and_left _ _).mp hargs).1
  · exact hargs.imp fun a b h => h.2.1

/-- Two literals with the argument between them, as a literal. -/
theorem quoted_passes {a : List String} (before after : String) (hS : Avoids S stringizeNames)
    (ha : Plain u.env a) (harg : IsArg a) :
    Passes u S (spell before :: (callTexts "METHAN_STRINGIZE" [a] ++ [spell after]))
      (Use.quoted before a after) := by
  have hliteral : ∀ s, IsArg [spell s] := fun s => (Site.isConstant_spell s).isArg
  -- adjacent literals: the surroundings are the header's, the middle one is made by `#`
  have hcall := stringize_settles u hS harg ha.settles harg
  have hafter : Settles u.env S [spell after] [spell after] :=
    ((Site.isConstant_spell after).plain u).settles
  refine ⟨?_, ?_, ?_⟩
  · have hmiddle : IsArg (callTexts "METHAN_STRINGIZE" [a]) :=
      isArg_callTexts (by decide) (by simpa using harg)
    exact (hliteral before).append (hmiddle.append (hliteral after))
  · refine Settles.cons ((Site.isConstant_spell before).plain u _ List.mem_cons_self) ?_
    refine hcall.append hafter ?_
    simpa using (Site.isConstant_spell after).ne_paren
  · exact (hliteral before).append ((hliteral _).append (hliteral after))

/-- A check of one argument that quotes it. -/
theorem quotedCheck_settles {name param before after : String} {condition : List Piece}
    {type : ExceptionType} {a a' c : List String}
    (henv : u.env name = some
      (.function [param] false (forceAssertPieces condition type (quotedPieces before after))))
    (hS : Avoids S (name :: (stringizeNames ++ forceNames)))
    (hname : name ∉ stringizeNames ++ forceNames) (ha : Passes u S a a')
    (hpaste : ∀ o os, .paste o os ∉ condition)
    (hcondition : fill [a] [a'] condition = some c) (hc : Plain u.env c ∧ IsArg c) :
    Settles u.env S (callTexts name [a])
      (statementText u c (Use.quoted before a' after) type.words) := by
  have hstringize : Avoids (name :: S) stringizeNames :=
    (hS.mono (fun n hn => by simp [hn])).cons fun hn => hname (List.mem_append_left _ hn)
  have hmsg : fill [a] [a'] (quotedPieces before after) =
      some (spell before :: (callTexts "METHAN_STRINGIZE" [a'] ++ [spell after])) :=
    fill_append (fill_tok _ _ (spell before))
      (fill_append (fill_call _ (.cons (fill_param _ _ 0) .nil)) (fill_tok _ _ _))
  refine wrapped_settles u henv (hS.mono fun n hn => ?_)
    (fun hn => hname (List.mem_append_right _ hn)) rfl (by simp) (.cons ha .nil) ?_ hcondition hc hmsg
    (quoted_passes u before after hstringize ha.2.1.1 ha.2.2)
  · rcases List.mem_cons.mp hn with rfl | hn
    · exact List.mem_cons_self
    · simp [hn]
  · intro o os hmem
    have hcases := hpaste o os
    simp [forceAssertPieces, quotedPieces, toks, callPieces, commaSep] at hmem
    exact hcases hmem

/-- An argument on the left of an operator. -/
theorem operand_plain {a : List String} (ws : List String) (h : Plain u.env a ∧ IsArg a)
    (hws : ws.all Site.known = true) (harg : IsArg ws) :
    Plain u.env (a ++ ws) ∧ IsArg (a ++ ws) :=
  ⟨h.1.append (u.plain_of_known hws), h.2.append harg⟩

theorem toString_passes {a : List String} (ha : Plain u.env a ∧ IsArg a) :
    Plain u.env (Use.toStringCall a) ∧ IsArg (Use.toStringCall a) := by
  have hcall : Settles u.env [] (callTexts "to_string" [a]) (callTexts "to_string" [a]) :=
    Settles.call_plain u.env_punctuation (u.env_known (by decide)) (by simp)
      (.cons ha.1.settles .nil)
  have hfront : IsArg ["std", "::"] := by decide
  exact ⟨(u.plain_of_known (by decide)).append hcall.1,
    hfront.append (isArg_callTexts (by decide) (by simpa using ha.2))⟩

/-- The message of the index check. -/
theorem indexMsg_fill (a b a' b' : List String) : ∃ body,
    forceAssertIndex = .function ["index", "upperBound"] false
      (forceAssertPieces [.param 0, .tok "<", .param 1] .IndexOutOfBounds body) ∧
    (∀ o os, .paste o os ∉ body) ∧ fill [a, b] [a', b'] body = some (Use.indexMsg a' b') := by
  have hto : ∀ i, fill [a, b] [a', b'] (toStringPieces i) =
      some (Use.toStringCall ([a', b'].getD i [])) := fun i =>
    fill_append (fill_toks _ _ ["std", "::"])
      (fill_call "to_string" (.cons (fill_param _ _ i) .nil))
  refine ⟨_, rfl, by simp [toks, toStringPieces, callPieces, commaSep], ?_⟩
  exact fill_append rfl (fill_append (hto 0) (fill_append rfl (fill_append (hto 1) rfl)))

theorem indexMsg_plain {i n : List String} (hi : Plain u.env i ∧ IsArg i)
    (hn : Plain u.env n ∧ IsArg n) :
    Plain u.env (Use.indexMsg i n) ∧ IsArg (Use.indexMsg i n) := by
  have hi' := toString_passes u hi
  have hn' := toString_passes u hn
  have hwords : ∀ ws ∈ [[spell "The given index is out of bounds (", "+"],
      ["+", spell " should be less than ", "+"], ["+", spell ")."]],
      ws.all Site.known = true ∧ IsArg ws := by decide
  have hplain := fun ws hws => u.plain_of_known (hwords ws hws).1
  have harg := fun ws hws => (hwords ws hws).2
  constructor
  · exact (hplain _ (by simp)).append (hi'.1.append
      ((hplain _ (by simp)).append (hn'.1.append (hplain _ (by simp)))))
  · exact (harg _ (by simp)).append (hi'.2.append
      ((harg _ (by simp)).append (hn'.2.append (harg _ (by simp)))))

theorem index_settles {i i' n n' : List String}
    (hS : Avoids S ("METHAN_FORCE_ASSERT_INDEX" :: forceNames)) (hi : Passes u S i i')
    (hn : Passes u S n n') :
    Settles u.env S (callTexts "METHAN_FORCE_ASSERT_INDEX" [i, n])
      (statementText u (i' ++ "<" :: n') (Use.indexMsg i' n')
        ExceptionType.IndexOutOfBounds.words) := by
  have hi' : Plain u.env i' ∧ IsArg i' := ⟨hi.2.1.1, hi.2.2⟩
  have hn' : Plain u.env n' ∧ IsArg n' := ⟨hn.2.1.1, hn.2.2⟩
  have hmsg := indexMsg_plain u hi' hn'
  obtain ⟨body, hbody, hpaste, hfill⟩ := indexMsg_fill i n i' n'
  have hcondition : fill [i, n] [i', n'] [.param 0, .tok "<", .param 1] =
      some (i' ++ "<" :: n') :=
    fill_append (fill_param _ _ 0) (fill_append (fill_tok _ _ "<") (fill_param _ _ 1))
  -- the operands are pasted without parentheses, here and in the message
  have hplain : Plain u.env (i' ++ "<" :: n') ∧ IsArg (i' ++ "<" :: n') := by
    have hless : Plain u.env ["<"] ∧ IsArg ["<"] := ⟨u.plain_of_known (by decide), by decide⟩
    exact ⟨hi'.1.append (hless.1.append hn'.1), hi'.2.append (hless.2.append hn'.2)⟩
  have henv : u.env "METHAN_FORCE_ASSERT_INDEX" = some forceAssertIndex := u.env_force .index
  rw [hbody] at henv
  refine wrapped_settles u henv hS (by decide) rfl (by simp) (.cons hi (.cons hn .nil)) ?_ hcondition
    hplain hfill (passes_plain u hmsg.1 hmsg.2)
  intro o os hmem
  have hcases := hpaste o os
  simp [forceAssertPieces, toks, callPieces, commaSep] at hmem
  exact hcases hmem

namespace Use

variable {u}

/-- A use settles wherever its arguments do. -/
theorem settles (x : Use u.env) {sources : List (List String)}
    (hS : Avoids S (x.check.forceName :: (stringizeNames ++ forceNames)))
    (h : List.Forall₂ (Passes u S) sources (x.args.map Actual.text)) :
    Settles u.env S (callTexts x.check.forceName sources) x.statement := by
  have hnames : ∀ c : Check, c ≠ .assert → c.forceName ∉ stringizeNames ++ forceNames := by
    intro c hc
    cases c <;> first | exact absurd rfl hc | decide
  cases x with
  | assert c t m =>
      cases h with
      | cons hc h => cases h with
        | cons ht h => cases h with
          | cons hm h =>
              cases h
              refine forceAssert_settles u (fun n hn => hS n ?_) hc ht hm
              simp [hn]
  | argument c =>
      cases h with
      | cons hc h =>
          cases h
          exact quotedCheck_settles u (u.env_force .argument) hS (hnames .argument (by decide)) hc
            (by simp) (fill_param _ _ 0) ⟨c.settles.1, c.textIsArg⟩
  | nonNull p =>
      cases h with
      | cons hp h =>
          cases h
          exact quotedCheck_settles u (u.env_force .nonNull) hS (hnames .nonNull (by decide)) hp
            (by simp [toks]) rfl
            (operand_plain u ["!=", "nullptr"] ⟨p.settles.1, p.textIsArg⟩ (by decide) (by decide))
  | null p =>
      cases h with
      | cons hp h =>
          cases h
          exact quotedCheck_settles u (u.env_force .null) hS (hnames .null (by decide)) hp
            (by simp [toks]) rfl
            (operand_plain u ["==", "nullptr"] ⟨p.settles.1, p.textIsArg⟩ (by decide) (by decide))
  | index i n =>
      cases h with
      | cons hi h => cases h with
        | cons hn h =>
            cases h
            refine index_settles u (fun m hm => hS m ?_) hi hn
            rcases List.mem_cons.mp hm with rfl | hm
            · exact List.mem_cons_self
            · simp [hm]

end Use

/-- `METHAN_INVALID_STATE` throws an `IllegalState` exception without a description. -/
theorem invalidState_settles : Settles u.env [] ["METHAN_INVALID_STATE"]
    (throwText u [spell "No description was provided"] ExceptionType.IllegalState.words) := by
  have henv : u.env "METHAN_INVALID_STATE" = some invalidState :=
    u.env_assertion (by simp [assertionTable])
  have hwhat := Site.isConstant_spell "No description was provided"
  have htype := words_plain u .IllegalState
  have hthrow := throw_settles u (S := ["METHAN_INVALID_STATE"]) (by decide)
    (by simpa using ⟨hwhat.isArg, words_isArg .IllegalState⟩) (hwhat.plain u).settles htype.settles
  refine Settles.object henv (by simp) (by simp [toks, callPieces, commaSep]) ?_
    (fill_call _ (.cons (fill_tok _ _ _) (.cons rfl .nil))) hthrow
  intro o os r hmem
  simp [toks, callPieces, commaSep] at hmem

/-! ## §5. Both forms of a check. -/

/-- The arguments as they are written. -/
def Use.sources {env : Env} (x : Use env) : List (List String) := x.args.map Actual.source

variable {u}

/-- **Another number of arguments is an error**, with assertions or without. -/
theorem check_arity (u : Site) (c : Check) {args : List (List String)} (hne : args ≠ [])
    (hargs : ∀ a ∈ args, IsArg a) (hlen : args.length ≠ c.params.length) :
    Yields u.env (plain (callTexts c.forceName args)) (.error (.arity c.forceName args.length)) ∧
    Yields u.env (plain (callTexts c.assertName args))
      (.error (.arity c.assertName args.length)) := by
  have hparams : c.params ≠ [] := by cases c <;> simp [Check.params]
  constructor
  · have hforced : ∃ body, c.forced = .function c.params false body := by
      cases c <;> exact ⟨_, rfl⟩
    obtain ⟨body, hbody⟩ := hforced
    have henv := u.env_force c
    rw [hbody] at henv
    exact callTexts_arity henv hlen hparams hne hargs
  · exact callTexts_arity (u.env_assert c) hlen hparams hne hargs

/-- `METHAN_ASSERT_INDEX(a)` in a release build. -/
theorem check_arity_index :
    Yields (Site.bare ⟨false, false⟩ "f.cpp" 3).env
      (plain (callTexts "METHAN_FORCE_ASSERT_INDEX" [["a"]]))
      (.error (.arity "METHAN_FORCE_ASSERT_INDEX" 1)) ∧
    Yields (Site.bare ⟨false, false⟩ "f.cpp" 3).env (plain (callTexts "METHAN_ASSERT_INDEX" [["a"]]))
      (.error (.arity "METHAN_ASSERT_INDEX" 1)) :=
  check_arity (Site.bare ⟨false, false⟩ "f.cpp" 3) .index (by simp) (by decide) (by decide)

end Methan
