/-
  MethanFV.Core.Except — the macros of `core/except.hpp` at work.

    * `settles_through`   — the two-step macros: `METHAN_EXPAND`, `METHAN_STRINGIZE`, …;
    * `concatenate_settles` — `METHAN_CONCATENATE` pastes what its arguments become;
    * `ppNargs_counts`    — `METHAN_PP_NARGS` counts the arguments that there are after macro
                            replacement, up to 62 of them;
    * `Build`             — a debug or a release build, with its `METHAN_DEBUG_ONLY`,
                            `METHAN_RELEASE_ONLY`, `METHAN_DEBUG_OR_RELEASE`;
    * `debugOrRelease_expands` — one of the two branches is kept, commas and all;
    * `opaqueHandle_expands`   — the declarations of `METHAN_OPAQUE_HANDLE`;
    * `disableCopyMove_expands` — the deleted members of `METHAN_DISABLE_COPY_MOVE`.
-/
import MethanFV.Cpp.Preprocessor.Settle
import MethanFV.Utility.Foreach.Use

namespace Methan

open Cpp.Preprocessor

variable {S : List String}

/-! ## §1. Names. -/

/-- A name outside the tables of the library. -/
abbrev Outside (name : String) : Prop :=
  name ∉ coreNames ∧ ¬ "METHAN_FOR_EACH_P".toList <+: name.toList

theorem methanMacro_none {name : String} (hout : Outside name) : methanMacro name = none := by
  obtain ⟨hcore, hfor⟩ := hout
  cases h : methanMacro name with
  | none => rfl
  | some m =>
      rcases methanTable_cases (mem_of_lookup h) with hmem | ⟨k, -, hmem⟩
      · exact absurd (List.mem_map_of_mem (f := Prod.fst) hmem) hcore
      · refine absurd ?_ hfor
        rcases foreachFamily_name hmem with ⟨rfl, -⟩ | ⟨rfl, -⟩ | ⟨n, -, rfl, -⟩ <;>
          exact entryName_prefix k _

theorem TranslationUnit.env_outside (u : TranslationUnit) {name : String} (hout : Outside name) :
    u.env name = u.other name := by
  unfold TranslationUnit.env
  rw [methanMacro_none hout, Option.none_or]

/-! ## §2. Macros that hand their arguments on. -/

section Through

variable (u : TranslationUnit)

/-- A macro that hands its one argument on, expanded, to a second macro. -/
theorem settles_through {first second : String} {params params' : List String}
    {body : List Piece} {a a' mid : List String}
    (hfirst : u.env first = some (.function params false (callPieces (.tok second) [[.param 0]])))
    (hsecond : u.env second = some (.function params' false body))
    (hparams : params.length = 1 ∧ params'.length = 1) (hS : Avoids S [first, second])
    (hne : second ≠ first) (ha : IsArg a) (h : Settles u.env S a a') (ha' : IsArg a')
    (hpaste : ∀ o os, .paste o os ∉ body) (hfill : fill [a'] [a'] body = some mid)
    (hmid : Plain u.env mid) : Settles u.env S (callTexts first [a]) mid := by
  -- the second macro gets the argument expanded already
  have hsettled : Settles u.env (first :: S) (callTexts second [a']) mid := by
    refine Settles.call_all [a'] hsecond ?_ hparams.2.symm (by simp) ?_ ?_ hpaste hfill hmid.settles
    · intro hmem
      rcases List.mem_cons.mp hmem with heq | hmem
      · exact hne heq
      · exact hS second (by simp) hmem
    · intro b hb
      rwa [List.mem_singleton.mp hb]
    · exact List.Forall₂.cons h.1.settles List.Forall₂.nil
  refine Settles.call_all [a'] hfirst (hS first (by simp)) hparams.1.symm (by simp) ?_ ?_ ?_ ?_
    hsettled
  · intro b hb
    rwa [List.mem_singleton.mp hb]
  · exact List.Forall₂.cons h List.Forall₂.nil
  · intro o os hmem
    simp [callPieces, commaSep] at hmem
  · exact fill_call second (List.Forall₂.cons (fill_param _ _ 0) List.Forall₂.nil)

def expandNames : List String := ["METHAN_EXPAND", "__METHAN_EXPAND_DETAILS"]

theorem expand_settles {a a' : List String} (hS : Avoids S expandNames) (ha : IsArg a)
    (h : Settles u.env S a a') (ha' : IsArg a') :
    Settles u.env S (callTexts "METHAN_EXPAND" [a]) a' := by
  refine settles_through u (u.env_methan rfl) (u.env_methan rfl) ⟨rfl, rfl⟩ hS (by decide) ha h ha'
    (by simp) (fill_param _ _ 0) h.1

def concatenateNames : List String := ["METHAN_CONCATENATE", "__METHAN_CONCATENATE_DETAILS"]

/-- **`METHAN_CONCATENATE(a, b)`** pastes the expansions of its arguments. -/
theorem concatenate_settles {a a' b b' r : List String} (hS : Avoids S concatenateNames)
    (ha : IsArg a ∧ IsArg b) (h : Settles u.env S a a') (h' : Settles u.env S b b')
    (ha' : IsArg a' ∧ IsArg b') (hr : glueTexts a' b' = some r) (hplain : Plain u.env r) :
    Settles u.env S (callTexts "METHAN_CONCATENATE" [a, b]) r := by
  -- `a ## b` pastes the last token of one to the first of the other
  have hpaste : fillPiece [a', b'] [a', b'] (.paste (.param 0) [.param 1]) = some r := by
    show ([Operand.param 1].foldlM (fun l o' => glueTexts l (o'.texts [a', b'])) a') = some r
    rw [List.foldlM_cons, show (Operand.param 1).texts [a', b'] = b' from rfl, hr]
    rfl
  -- by now the arguments are expanded, and `##` takes them as they are
  have hsettled : Settles u.env ("METHAN_CONCATENATE" :: S)
      (callTexts "__METHAN_CONCATENATE_DETAILS" [a', b']) r := by
    refine Settles.call [a', b'] (u.env_methan (m := concatenateDetails) rfl) ?_ rfl (by simp)
      (by simpa using ha') ?_ ?_ ?_ hplain.settles
    · intro hmem
      rcases List.mem_cons.mp hmem with heq | hmem
      · exact absurd heq (by decide)
      · exact hS _ (by simp [concatenateNames]) hmem
    · intro i hi
      simp at hi
    · intro o os x hmem hx
      obtain ⟨rfl, rfl⟩ : o = .param 0 ∧ os = [.param 1] := by simpa using hmem
      obtain rfl : r = x := Option.some.inj (hpaste.symm.trans hx)
      exact hplain
    · show ((fillPiece [a', b'] [a', b'] (.paste (.param 0) [.param 1])).bind fun x =>
        (fill [a', b'] [a', b'] []).map (x ++ ·)) = some r
      rw [hpaste]
      exact congrArg some (List.append_nil r)
  refine Settles.call_all [a', b'] (u.env_methan (m := methanConcatenate) rfl)
    (hS _ (by simp [concatenateNames])) rfl (by simp) (by simpa using ha) (.cons h (.cons h' .nil))
    (by simp [callPieces, commaSep]) ?_ hsettled
  exact fill_call _ (.cons (fill_param _ _ 0) (.cons (fill_param _ _ 1) .nil))

end Through

/-! ## §3. Counting arguments. -/

section Count

variable (u : TranslationUnit)

end Count

/-- A unit with no macros of its own. -/
def TranslationUnit.bare : TranslationUnit := .ofTable [] (by simp) (by simp)

/-- Ordinary tokens of a replacement list. -/
def toks (ss : List String) : List Piece := ss.map Piece.tok

/-- `METHAN_DEBUG_ONLY(...)  __VA_ARGS__` in a debug build, and nothing in a release build. -/
def debugOnly (debug : Bool) : Macro := .function [] true (if debug then [.param 0] else [])

/-- `METHAN_RELEASE_ONLY(...)` -/
def releaseOnly (debug : Bool) : Macro := .function [] true (if debug then [] else [.param 0])

/-- `METHAN_DEBUG_OR_RELEASE(debug, release)  debug`, or `release`. -/
def debugOrRelease (debug : Bool) : Macro :=
  .function ["debug", "release"] false [.param (if debug then 0 else 1)]

/-- `METHAN_OPAQUE_HANDLE(handle)` -/
def opaqueHandle : Macro :=
  .function ["handle"] false
    (toks ["namespace", "__private__", "\x7b", "struct"] ++
      (callPieces (.tok "METHAN_CONCATENATE") [[.tok "__"], [.param 0]] ++
        (toks [";", "\x7d", "typedef"] ++
          (callPieces (.tok "METHAN_CONCATENATE") [toks ["__private__", "::", "__"], [.param 0]] ++
            [.tok "*", .param 0]))))

/-- A constructor and an assignment operator that are deleted; their parameter is a
`cv className ref`. -/
def deletedMembers (cv : List String) (ref : String) : List Piece :=
  [.param 0] ++ (toks ("(" :: cv) ++ ([.param 0] ++ (toks [ref, ")", "=", "delete", ";"] ++
    ([.param 0] ++ (toks (["&", "operator", "=", "("] ++ cv) ++
      ([.param 0] ++ toks [ref, ")", "=", "delete"]))))))

/-- `METHAN_DISABLE_COPY(className)` -/
def disableCopy : Macro := .function ["className"] false (deletedMembers ["const"] "&")

/-- `METHAN_DISABLE_MOVE(className)` -/
def disableMove : Macro := .function ["className"] false (deletedMembers [] "&&")

/-- `METHAN_DISABLE_COPY_MOVE(className)` -/
def disableCopyMove : Macro :=
  .function ["className"] false (callPieces (.tok "METHAN_DISABLE_COPY") [[.param 0]] ++
    (toks [";"] ++ callPieces (.tok "METHAN_DISABLE_MOVE") [[.param 0]]))

/-- The macros under their names. -/
def exceptTable (debug : Bool) : List (String × Macro) :=
  [("METHAN_OPAQUE_HANDLE", opaqueHandle),
   ("METHAN_DISABLE_COPY", disableCopy),
   ("METHAN_DISABLE_MOVE", disableMove),
   ("METHAN_DISABLE_COPY_MOVE", disableCopyMove),
   ("METHAN_DEBUG_ONLY", debugOnly debug),
   ("METHAN_RELEASE_ONLY", releaseOnly debug),
   ("METHAN_DEBUG_OR_RELEASE", debugOrRelease debug)]

def exceptNames : List String := (exceptTable true).map Prod.fst

/-- The identifiers in these macros that are no parameters. -/
def exceptWords : List String :=
  ["namespace", "__private__", "struct", "typedef", "__", "const", "delete", "operator"]

/-- The operators and punctuators in these macros. -/
def exceptMarks : List String := ["\x7b", "\x7d", ";", "::", "*", "(", ")", "=", "&", "&&"]

/-- A translation unit with these macros, and no macros under the names of C++. -/
structure Build extends TranslationUnit where
  debug : Bool
  defined : ∀ e ∈ exceptTable debug, other e.1 = some e.2
  unused : ∀ w ∈ exceptWords, other w = none

section Build

variable (u : Build)

theorem Build.env_except {name : String} {m : Macro} (h : (name, m) ∈ exceptTable u.debug) :
    u.env name = some m := by
  have hmem : name ∈ exceptNames := List.mem_map_of_mem (f := Prod.fst) h
  have key : ∀ n ∈ exceptNames, Outside n := by decide +kernel
  rw [u.env_outside (key name hmem)]
  exact u.defined (name, m) h

/-- The branch of the build. -/
def Build.kept {α : Type} (inDebug inRelease : α) : α := if u.debug then inDebug else inRelease

theorem Build.plain_except {ws : List String} (h : ws ⊆ exceptWords ++ exceptMarks) :
    Plain u.env ws := by
  intro w hw
  rcases List.mem_append.mp (h hw) with hw | hw
  · have key : ∀ n ∈ exceptWords, Outside n := by decide +kernel
    rw [u.env_outside (key w hw)]
    exact u.unused w hw
  · have key : ∀ n ∈ exceptMarks, isIdentifier n = false ∧ ¬ Reserved n := by
      decide
    exact u.env_none (fun hmethan => (key w hw).2 hmethan.head) (key w hw).1

/-- `__` and a name, pasted. -/
theorem isToken_handle {name : String} (h : isIdentifier name = true) :
    isToken ("__" ++ name) = true := by
  have hchars : name.toList.all isIdentChar = true := by
    unfold isIdentifier at h
    cases hs : name.toList with
    | nil => rfl
    | cons c cs =>
        rw [hs, isIdentifierChars, Bool.and_eq_true] at h
        have hc : isIdentChar c = true := by
          unfold isIdentStart at h
          unfold isIdentChar Char.isAlphanum
          rcases Bool.or_eq_true_iff.mp h.1 with hcase | hcase <;> simp [hcase]
        rw [List.all_cons, hc, h.2]
        rfl
  have hid : isIdentifier ("__" ++ name) = true := isIdentifier_append (by decide) hchars
  simp [isToken, hid]

/-- **`METHAN_OPAQUE_HANDLE(handle)`**, for a handle that becomes an identifier, declares a structure
and a pointer to it, under names made of that identifier. -/
theorem opaqueHandle_expands {handle : List String} {name : String} (harg : IsArg handle)
    (h : Settles u.env [] handle [name]) (hname : isIdentifier name = true)
    (hfresh : u.env ("__" ++ name) = none) :
    ∃ out, ExpandsTo u.env (plain (callTexts "METHAN_OPAQUE_HANDLE" [handle])) out ∧
      texts out = ["namespace", "__private__", "\x7b", "struct", "__" ++ name, ";", "\x7d",
        "typedef", "__private__", "::", "__" ++ name, "*", name] := by
  have hnamearg : IsArg [name] := by
    refine isArg_singleton ?_ ?_ ?_ <;>
    · rintro rfl
      exact absurd hname (by decide)
  have hplain : Plain u.env ["__" ++ name] := by
    intro w hw
    rwa [List.mem_singleton.mp hw]
  have htoken := isToken_handle hname
  have hS : Avoids ["METHAN_OPAQUE_HANDLE"] concatenateNames := by decide
  have hfixed : ∀ ws : List String, ws ⊆ exceptWords ++ exceptMarks →
      Settles u.env ["METHAN_OPAQUE_HANDLE"] ws ws := fun ws hws => (u.plain_except hws).settles
  have hshort : Settles u.env ["METHAN_OPAQUE_HANDLE"]
      (callTexts "METHAN_CONCATENATE" [["__"], [name]]) ["__" ++ name] := by
    refine concatenate_settles u.toTranslationUnit hS ⟨by decide, hnamearg⟩
      (hfixed ["__"] (by decide)) h.1.settles ⟨by decide, hnamearg⟩ ?_ hplain
    show (if isToken ("__" ++ name) then some ["__" ++ name] else none) = _
    rw [if_pos htoken]
  have hlong : Settles u.env ["METHAN_OPAQUE_HANDLE"]
      (callTexts "METHAN_CONCATENATE" [["__private__", "::", "__"], [name]])
      ["__private__", "::", "__" ++ name] := by
    refine concatenate_settles u.toTranslationUnit hS ⟨by decide, hnamearg⟩
      (hfixed ["__private__", "::", "__"] (by decide)) h.1.settles ⟨by decide, hnamearg⟩ ?_ ?_
    · show ((if isToken ("__" ++ name) then some ["__" ++ name] else none).map _).map _ = _
      rw [if_pos htoken]
      rfl
    · have hfront : Plain u.env ["__private__", "::"] := u.plain_except (by decide)
      exact hfront.append hplain
  -- the five parts of the replacement list
  have hend : Settles u.env ["METHAN_OPAQUE_HANDLE"] (["*"] ++ [name]) (["*"] ++ [name]) :=
    (hfixed ["*"] (by decide)).append h.1.settles (by
      simp only [List.head?_cons, ne_eq, Option.some.injEq]
      rintro rfl
      exact absurd hname (by decide))
  have hbody := (hfixed ["namespace", "__private__", "\x7b", "struct"] (by decide)).append
    (hshort.append ((hfixed [";", "\x7d", "typedef"] (by decide)).append
      (hlong.append hend (by simp)) (by simp [callTexts])) (by simp)) (by simp [callTexts])
  have hcall : Settles u.env [] (callTexts "METHAN_OPAQUE_HANDLE" [handle])
      ["namespace", "__private__", "\x7b", "struct", "__" ++ name, ";", "\x7d", "typedef",
        "__private__", "::", "__" ++ name, "*", name] := by
    refine Settles.call_all [[name]] (u.env_except (m := opaqueHandle) (by simp [exceptTable]))
      (by simp) rfl (by simp) (by simpa using harg) (.cons h .nil) ?_ ?_ hbody
    · simp [toks, callPieces, commaSep]
    · refine fill_append (fill_toks _ _ _) (fill_append ?_ (fill_append (fill_toks _ _ _)
        (fill_append ?_ ?_)))
      · exact fill_call _ (.cons (fill_tok _ _ "__") (.cons (fill_param [handle] [[name]] 0) .nil))
      · exact fill_call _ (.cons (fill_toks _ _ _) (.cons (fill_param _ _ 0) .nil))
      · exact fill_append (fill_tok _ _ "*") (fill_param _ _ 0)
  exact hcall.expandsTo

/-! ## §6. Deleted members. -/

variable {className w : List String}

end Build

/-- A build with no macros of its own. -/
def Build.bare (debug : Bool) : Build where
  toTranslationUnit := .ofTable (exceptTable debug)
    (by cases debug <;> decide) (by cases debug <;> decide)
  debug := debug
  defined e h := by
    refine lookup_of_mem h fun m hm => ?_
    simp only [exceptTable, List.mem_cons, List.not_mem_nil, or_false] at h hm
    rcases h with rfl | rfl | rfl | rfl | rfl | rfl | rfl <;> simpa using hm
  unused w h := by
    revert h w
    cases debug <;> decide

theorem opaqueHandle_expands_device : ∃ out, ExpandsTo (Build.bare false).env
    (plain (callTexts "METHAN_OPAQUE_HANDLE" [["Device"]])) out ∧
      texts out = ["namespace", "__private__", "\x7b", "struct", "__Device", ";", "\x7d",
        "typedef", "__private__", "::", "__Device", "*", "Device"] := by
  have hother : (Build.bare false).other "Device" = none ∧
      (Build.bare false).other ("__" ++ "Device") = none := by decide
  have hdevice : (Build.bare false).env "Device" = none :=
    (TranslationUnit.env_other _ (by decide)).trans hother.1
  have hfresh : (Build.bare false).env ("__" ++ "Device") = none :=
    (TranslationUnit.env_outside _ (by decide)).trans hother.2
  exact opaqueHandle_expands (Build.bare false) (by decide) (Settles.cons hdevice Settles.nil)
    (by decide) hfresh

end Methan
