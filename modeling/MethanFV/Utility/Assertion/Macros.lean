/-
  MethanFV.Utility.Assertion.Macros — the macros of `utility/assertion.hpp` and
  `utility/exception.hpp`, and the places where they are used.

    * `assertionTable`  — the macros under their names, for a build configuration and a source line;
    * `Site`            — a translation unit that includes the header, at one of its lines;
    * `Site.env_known`  — the words of the replacement lists are no macros.
-/
import Mathlib.Data.List.Nodup
import MethanFV.Core.Except
import MethanFV.Utility.Exception

namespace Methan

open Cpp.Preprocessor

/-! ## §1. `utility/exception.hpp`. -/

/-- The name of the enumerator. -/
def ExceptionType.enumerator : ExceptionType → String
  | .IllegalArgument => "IllegalArgument"
  | .IllegalState => "IllegalState"
  | .NullPointer => "NullPointer"
  | .AlreadyInitialized => "AlreadyInitialized"
  | .IndexOutOfBounds => "IndexOutOfBounds"
  | .BadCastException => "BadCastException"
  | .Unknown => "Unknown"

/-- `Methan::ExceptionType::…` -/
def ExceptionType.words (t : ExceptionType) : List String :=
  ["Methan", "::", "ExceptionType", "::", t.enumerator]

/-- `METHAN_THROW_EXCEPTION(what, type)
      throw Methan::Exception(what, METHAN_EXPAND(__FILE__), METHAN_EXPAND(__LINE__), type)` -/
def throwException : Macro :=
  .function ["what", "type"] false
    (toks ["throw", "Methan", "::"] ++
      callPieces (.tok "Exception")
        [[.param 0], callPieces (.tok "METHAN_EXPAND") [[.tok "__FILE__"]],
          callPieces (.tok "METHAN_EXPAND") [[.tok "__LINE__"]], [.param 1]])

/-- `METHAN_INVALID_STATE` -/
def invalidState : Macro :=
  .object (callPieces (.tok "METHAN_THROW_EXCEPTION")
    [[.tok (spell "No description was provided")], toks ExceptionType.IllegalState.words])

/-! ## §2. `utility/assertion.hpp`. -/

/-- `METHAN_FORCE_ASSERT(condition, type, msg)
      METHAN_ECAPSULATE_LINE_DETAILS(if(!(condition)) { METHAN_THROW_EXCEPTION(msg, type); })` -/
def forceAssert : Macro :=
  .function ["condition", "type", "msg"] false
    (callPieces (.tok "METHAN_ECAPSULATE_LINE_DETAILS")
      [callPieces (.tok "if") [callPieces (.tok "!") [[.param 0]]] ++ (toks ["\x7b"] ++
        (callPieces (.tok "METHAN_THROW_EXCEPTION") [[.param 2], [.param 1]] ++
          toks [";", "\x7d"]))])

/-- `METHAN_FORCE_ASSERT(condition, Methan::ExceptionType::…, msg)` -/
def forceAssertPieces (condition : List Piece) (type : ExceptionType) (msg : List Piece) :
    List Piece :=
  callPieces (.tok "METHAN_FORCE_ASSERT") [condition, toks type.words, msg]

/-- `METHAN_STRINGIZE(…)` of the first parameter, between two literals. -/
def quotedPieces (before after : String) : List Piece :=
  .tok (spell before) ::
    (callPieces (.tok "METHAN_STRINGIZE") [[.param 0]] ++ [.tok (spell after)])

/-- `METHAN_FORCE_ASSERT_ARGUMENT(condition)` -/
def forceAssertArgument : Macro :=
  .function ["condition"] false
    (forceAssertPieces [.param 0] .IllegalArgument
      (quotedPieces ("The condition " ++ quote) (quote ++ " failed")))

/-- `METHAN_FORCE_ASSERT_NON_NULL(pointer)` -/
def forceAssertNonNull : Macro :=
  .function ["pointer"] false
    (forceAssertPieces (.param 0 :: toks ["!=", "nullptr"]) .NullPointer
      (quotedPieces "The pointer " " should not be null"))

/-- `METHAN_FORCE_ASSERT_NULL(pointer)` -/
def forceAssertNull : Macro :=
  .function ["pointer"] false
    (forceAssertPieces (.param 0 :: toks ["==", "nullptr"]) .AlreadyInitialized
      (quotedPieces "Cannot reinitialize the pointer " " that should be null"))

/-- `std::to_string(parameter)` -/
def toStringPieces (i : Nat) : List Piece :=
  toks ["std", "::"] ++ callPieces (.tok "to_string") [[.param i]]

/-- `METHAN_FORCE_ASSERT_INDEX(index, upperBound)` -/
def forceAssertIndex : Macro :=
  .function ["index", "upperBound"] false
    (forceAssertPieces [.param 0, .tok "<", .param 1] .IndexOutOfBounds
      (toks [spell "The given index is out of bounds (", "+"] ++ (toStringPieces 0 ++
        (toks ["+", spell " should be less than ", "+"] ++ (toStringPieces 1 ++
          toks ["+", spell ")."])))))

/-- How the library was configured. -/
structure Configuration where
  /-- `METHAN_DEBUG` -/
  debug : Bool
  /-- `METHAN_FORCE_ASSERTION` -/
  forceAssertion : Bool
  deriving DecidableEq, Repr

/-- `#if defined(METHAN_DEBUG) || defined(METHAN_FORCE_ASSERTION)` -/
def Configuration.asserts (c : Configuration) : Bool := c.debug || c.forceAssertion

/-- `METHAN_ASSERT…(params)` stands for `METHAN_FORCE_ASSERT…(params)`, or for nothing. -/
def Configuration.assertMacro (c : Configuration) (forced : String) (params : List String) :
    Macro :=
  .function params false
    (if c.asserts then
      callPieces (.tok forced) ((List.range params.length).map fun i => [.param i])
    else [])

/-- The checks of the header. -/
inductive Check where
  | assert | argument | nonNull | null | index
  deriving DecidableEq, Repr

namespace Check

def forceName : Check → String
  | .assert => "METHAN_FORCE_ASSERT"
  | .argument => "METHAN_FORCE_ASSERT_ARGUMENT"
  | .nonNull => "METHAN_FORCE_ASSERT_NON_NULL"
  | .null => "METHAN_FORCE_ASSERT_NULL"
  | .index => "METHAN_FORCE_ASSERT_INDEX"

def assertName : Check → String
  | .assert => "METHAN_ASSERT"
  | .argument => "METHAN_ASSERT_ARGUMENT"
  | .nonNull => "METHAN_ASSERT_NON_NULL"
  | .null => "METHAN_ASSERT_NULL"
  | .index => "METHAN_ASSERT_INDEX"

def params : Check → List String
  | .assert => ["condition", "type", "msg"]
  | .argument => ["condition"]
  | .nonNull | .null => ["pointer"]
  | .index => ["index", "upperBound"]

/-- The definition of `METHAN_FORCE_ASSERT…`. -/
def forced : Check → Macro
  | .assert => forceAssert
  | .argument => forceAssertArgument
  | .nonNull => forceAssertNonNull
  | .null => forceAssertNull
  | .index => forceAssertIndex

end Check

/-- The macros of both headers under their names, and the two that the implementation defines. -/
def assertionTable (c : Configuration) (path : String) (line : Nat) : List (String × Macro) :=
  [("__FILE__", .object [.tok (spell path)]),
   ("__LINE__", .object [.tok (toString line)]),
   ("METHAN_THROW_EXCEPTION", throwException),
   ("METHAN_INVALID_STATE", invalidState),
   ("METHAN_FORCE_ASSERT", forceAssert),
   ("METHAN_FORCE_ASSERT_ARGUMENT", forceAssertArgument),
   ("METHAN_FORCE_ASSERT_NON_NULL", forceAssertNonNull),
   ("METHAN_FORCE_ASSERT_NULL", forceAssertNull),
   ("METHAN_FORCE_ASSERT_INDEX", forceAssertIndex),
   ("METHAN_ASSERT", c.assertMacro "METHAN_FORCE_ASSERT" ["condition", "type", "msg"]),
   ("METHAN_ASSERT_ARGUMENT", c.assertMacro "METHAN_FORCE_ASSERT_ARGUMENT" ["condition"]),
   ("METHAN_ASSERT_NON_NULL", c.assertMacro "METHAN_FORCE_ASSERT_NON_NULL" ["pointer"]),
   ("METHAN_ASSERT_NULL", c.assertMacro "METHAN_FORCE_ASSERT_NULL" ["pointer"]),
   ("METHAN_ASSERT_INDEX", c.assertMacro "METHAN_FORCE_ASSERT_INDEX" ["index", "upperBound"])]

def assertionNames : List String :=
  ["__FILE__", "__LINE__", "METHAN_THROW_EXCEPTION", "METHAN_INVALID_STATE",
   "METHAN_FORCE_ASSERT", "METHAN_FORCE_ASSERT_ARGUMENT", "METHAN_FORCE_ASSERT_NON_NULL",
   "METHAN_FORCE_ASSERT_NULL", "METHAN_FORCE_ASSERT_INDEX", "METHAN_ASSERT",
   "METHAN_ASSERT_ARGUMENT", "METHAN_ASSERT_NON_NULL", "METHAN_ASSERT_NULL", "METHAN_ASSERT_INDEX"]

theorem assertionTable_names (c : Configuration) (path : String) (line : Nat) :
    (assertionTable c path line).map Prod.fst = assertionNames := rfl

theorem assertionTable_none {name : String} (h : name ∉ assertionNames) (c : Configuration)
    (path : String) (line : Nat) : (assertionTable c path line).lookup name = none := by
  rw [List.lookup_eq_none_iff]
  intro e he
  have hmem : e.1 ∈ assertionNames := List.mem_map_of_mem (f := Prod.fst) he
  simp only [bne_iff_ne, ne_eq]
  rintro rfl
  exact h hmem

/-! ## §3. Sites. -/

/-- The identifiers in the replacement lists that are no parameters. -/
def assertionWords : List String :=
  ["do", "if", "while", "throw", "nullptr", "std", "to_string", "Methan", "Exception",
   "ExceptionType", "IllegalArgument", "IllegalState", "NullPointer", "AlreadyInitialized",
   "IndexOutOfBounds", "BadCastException", "Unknown"]

/-- A line of a translation unit that includes the headers, and has no macros under the names of
C++ and of the library. -/
structure Site extends TranslationUnit where
  configuration : Configuration
  path : String
  line : Nat
  defined : ∀ e ∈ assertionTable configuration path line, other e.1 = some e.2
  unused : ∀ w ∈ assertionWords, other w = none

/-- A unit with no macros of its own. -/
def Site.bare (c : Configuration) (path : String) (line : Nat) : Site where
  other name := (assertionTable c path line).lookup name
  identifier name h := by
    obtain ⟨m, hm⟩ := Option.isSome_iff_exists.mp h
    have hmem : name ∈ assertionNames := List.mem_map_of_mem (f := Prod.fst) (mem_of_lookup hm)
    have key : ∀ n ∈ assertionNames, isIdentifier n = true := by decide
    exact key name hmem
  fresh name h := by
    obtain ⟨m, hm⟩ := Option.isSome_iff_exists.mp h
    have hmem : name ∈ assertionNames := List.mem_map_of_mem (f := Prod.fst) (mem_of_lookup hm)
    have key : ∀ n ∈ assertionNames, ¬ "METHAN_FOR_EACH_P".toList <+: n.toList := by decide
    exact key name hmem
  configuration := c
  path := path
  line := line
  defined e h := by
    refine lookup_of_mem h fun m hm => ?_
    have hnodup : assertionNames.Nodup := by decide +kernel
    rw [← assertionTable_names c path line] at hnodup
    have hpair := List.inj_on_of_nodup_map hnodup hm h rfl
    exact congrArg Prod.snd hpair
  unused w h := by
    have key : ∀ w ∈ assertionWords, w ∉ assertionNames := by decide +kernel
    exact assertionTable_none (key w h) c path line

namespace Site

variable (u : Site)

/-! ## §4. Looking names up. -/

theorem env_assertion {name : String} {m : Macro}
    (h : (name, m) ∈ assertionTable u.configuration u.path u.line) : u.env name = some m := by
  have hmem : name ∈ assertionNames := List.mem_map_of_mem (f := Prod.fst) h
  have key : ∀ n ∈ assertionNames, Outside n := by decide +kernel
  rw [u.env_outside (key name hmem)]
  exact u.defined (name, m) h

theorem env_force (c : Check) : u.env c.forceName = some c.forced := by
  apply u.env_assertion
  cases c <;> simp [assertionTable, Check.forceName, Check.forced]

theorem env_assert (c : Check) :
    u.env c.assertName = some (u.configuration.assertMacro c.forceName c.params) := by
  apply u.env_assertion
  cases c <;> simp [assertionTable, Check.forceName, Check.assertName, Check.params]

theorem env_word {w : String} (h : w ∈ assertionWords) : u.env w = none := by
  have key : ∀ n ∈ assertionWords, Outside n := by decide +kernel
  rw [u.env_outside (key w h)]
  exact u.unused w h

/-- A word that starts like no identifier: punctuation, a number, a literal. -/
def IsMark (s : String) : Prop := ∃ c cs, s.toList = c :: cs ∧ isIdentStart c = false

theorem env_mark {s : String} (h : IsMark s) : u.env s = none := by
  obtain ⟨c, cs, hs, hc⟩ := h
  have key : isIdentStart 'M' = true ∧ isIdentStart '_' = true := by decide
  refine u.env_none ?_ (by simp [isIdentifier, isIdentifierChars, hs, hc])
  intro hmethan
  rcases hmethan.head with hhead | hhead
  all_goals
    rw [hs, List.head?_cons, Option.some.injEq] at hhead
    rw [hhead] at hc
  · exact absurd (key.1.symm.trans hc) (by decide)
  · exact absurd (key.2.symm.trans hc) (by decide)

/-- A digit starts no identifier. -/
theorem isIdentStart_of_isDigit {c : Char} (h : c.isDigit = true) : isIdentStart c = false := by
  have hunder : c ≠ '_' := by
    rintro rfl
    exact absurd h (by decide)
  have halpha : c.isAlpha = false := by
    simp only [Char.isDigit, Bool.and_eq_true, decide_eq_true_eq, UInt32.le_iff_toNat_le] at h
    show (decide ('A'.val ≤ c.val ∧ c.val ≤ 'Z'.val) ||
      decide ('a'.val ≤ c.val) && decide (c.val ≤ 'z'.val)) = false
    simp only [Bool.or_eq_false_iff, Bool.and_eq_false_iff, decide_eq_false_iff_not,
      UInt32.le_iff_toNat_le]
    have h9 : '9'.val.toNat = 57 := rfl
    have hA : 'A'.val.toNat = 65 := rfl
    have ha : 'a'.val.toNat = 97 := rfl
    omega
  simp [isIdentStart, halpha, hunder]

/-- A string literal or a number. -/
def IsConstant (s : String) : Prop :=
  ∃ c cs, s.toList = c :: cs ∧ (c = quoteChar ∨ c.isDigit = true)

theorem isConstant_spell (s : String) : IsConstant (spell s) :=
  ⟨quoteChar, escapeChars s.toList ++ [quoteChar], by simp [spell], Or.inl rfl⟩

theorem isConstant_toString (n : Nat) : IsConstant (toString n) := by
  have hne : Nat.repr n ≠ "" := Nat.repr_ne_empty
  cases hl : (toString n).toList with
  | nil => exact absurd (String.toList_eq_nil_iff.mp hl) hne
  | cons c cs =>
      refine ⟨c, cs, hl, Or.inr ?_⟩
      have hc : c ∈ (toString n).toList := by
        rw [hl]
        exact List.mem_cons_self
      have hdigits : c ∈ Nat.toDigits 10 n := by simpa [toString, Nat.repr] using hc
      exact Nat.isDigit_of_mem_toDigits (by decide) (by decide) hdigits

theorem IsConstant.plain {s : String} (h : IsConstant s) : Plain u.env [s] := by
  obtain ⟨c, cs, hs, hc⟩ := h
  intro t ht
  rw [List.mem_singleton.mp ht]
  refine u.env_mark ⟨c, cs, hs, ?_⟩
  rcases hc with rfl | hdigit
  · decide
  · exact isIdentStart_of_isDigit hdigit

theorem IsConstant.ne {s t : String} {d : Char} (h : IsConstant s) (ht : t.toList.head? = some d)
    (hd : d ≠ quoteChar ∧ d.isDigit = false) : s ≠ t := by
  rintro rfl
  obtain ⟨c, cs, hs, hc⟩ := h
  rw [hs, List.head?_cons, Option.some.injEq] at ht
  subst ht
  rcases hc with heq | hdigit
  · exact hd.1 heq
  · exact absurd (hdigit.symm.trans hd.2) (by decide)

theorem IsConstant.ne_paren {s : String} (h : IsConstant s) : s ≠ "(" :=
  h.ne (d := '(') rfl (by decide)

theorem IsConstant.isArg {s : String} (h : IsConstant s) : IsArg [s] :=
  isArg_singleton h.ne_paren (h.ne (d := ')') rfl (by decide)) (h.ne (d := ',') rfl (by decide))

/-- The word is one of `assertionWords`, or no identifier. -/
def known (s : String) : Bool :=
  assertionWords.contains s || (s.toList.head?.any fun c => !isIdentStart c)

theorem env_known {s : String} (h : known s = true) : u.env s = none := by
  unfold known at h
  rcases Bool.or_eq_true_iff.mp h with hw | hm
  · exact u.env_word (List.contains_iff_mem.mp hw)
  · apply u.env_mark
    cases hs : s.toList with
    | nil => simp [hs] at hm
    | cons c cs => exact ⟨c, cs, hs, by simpa [hs] using hm⟩

theorem plain_of_known {ss : List String} (h : ss.all known = true) : Plain u.env ss := by
  intro s hs
  exact u.env_known (List.all_eq_true.mp h s hs)

end Site

end Methan
