/-
  MethanFV.Utility.Foreach.Table — the macros of `utility/foreach.hpp`.

  The 504 rungs `METHAN_FOR_EACH_Pk_n` (k = 0..7 parameters, n = 0..62 items), the helpers
  `METHAN_FOR_EACH_Pk_` and the entry points `METHAN_FOR_EACH_Pk` are three families, each one
  definition with k and n as parameters.  A translation unit is these macros and the ones of
  `Core.Macro` together with any other macros its source defines, the user's generators among
  them.
-/
import Std.Data.String.ToNat
import MethanFV.Cpp.Preprocessor.Poison
import MethanFV.Core.Macro

namespace Methan

open Cpp.Preprocessor

/-! ## §1. Names. -/

/-- `METHAN_FOR_EACH_Pk` -/
def entryName (k : Nat) : String := "METHAN_FOR_EACH_P" ++ toString k

/-- `METHAN_FOR_EACH_Pk_` -/
def helperName (k : Nat) : String := entryName k ++ "_"

/-- `METHAN_FOR_EACH_Pk_n` -/
def rungName (k n : Nat) : String := helperName k ++ toString n

/-- `p0, …, p(k-1)` -/
def paramNames (k : Nat) : List String := (List.range k).map fun i => "p" ++ toString i

/-- The parameters number `a, …, a + n - 1` as arguments. -/
def paramArgs (a n : Nat) : List (List Piece) := (List.range' a n).map fun i => [.param i]

/-! ## §2. The three families. -/

/-- The rungs:

    METHAN_FOR_EACH_Pk_0(WHAT, p0, …)
    METHAN_FOR_EACH_Pk_1(WHAT, p0, …, x)       WHAT(p0, …, x)
    METHAN_FOR_EACH_Pk_n(WHAT, p0, …, x, ...)  WHAT(p0, …, x)
        METHAN_EXPAND(METHAN_FOR_EACH_Pk_(n-1)(WHAT, p0, …, __VA_ARGS__)) -/
def rung (k : Nat) : Nat → Macro
  | 0 => .function ("WHAT" :: paramNames k) false []
  | 1 => .function ("WHAT" :: (paramNames k ++ ["x"])) false
      (callPieces (.param 0) (paramArgs 1 (k + 1)))
  | n + 2 => .function ("WHAT" :: (paramNames k ++ ["x"])) true
      (callPieces (.param 0) (paramArgs 1 (k + 1)) ++
        callPieces (.tok "METHAN_EXPAND")
          [callPieces (.tok (rungName k (n + 1))) (paramArgs 0 (k + 1) ++ [[.param (k + 2)]])])

/-- `METHAN_FOR_EACH_Pk_(IT, WHAT, p0, …, ...)  METHAN_EXPAND(IT(WHAT, p0, …, __VA_ARGS__))` -/
def helper (k : Nat) : Macro :=
  .function ("IT" :: "WHAT" :: paramNames k) true
    (callPieces (.tok "METHAN_EXPAND") [callPieces (.param 0) (paramArgs 1 (k + 2))])

/-- `METHAN_FOR_EACH_Pk(WHAT, p0, …, ...)`:

    METHAN_FOR_EACH_Pk_(METHAN_CONCATENATE(METHAN_FOR_EACH_Pk_, METHAN_PP_NARGS(__VA_ARGS__)),
        WHAT, p0, …, __VA_ARGS__) -/
def entry (k : Nat) : Macro :=
  .function ("WHAT" :: paramNames k) true
    (callPieces (.tok (helperName k))
      (callPieces (.tok "METHAN_CONCATENATE")
          [[.tok (helperName k)], callPieces (.tok "METHAN_PP_NARGS") [[.param (k + 1)]]] ::
        paramArgs 0 (k + 2)))

/-- The macros of `foreach.hpp` with `k` parameters. -/
def foreachFamily (k : Nat) : List (String × Macro) :=
  (entryName k, entry k) :: (helperName k, helper k) ::
    (List.range 63).map fun n => (rungName k n, rung k n)

/-- All macros in force after `#include <methan/utility/foreach.hpp>` that the model follows. -/
def methanTable : List (String × Macro) := coreTable ++ (List.range 8).flatMap foreachFamily

def methanMacro (name : String) : Option Macro := methanTable.lookup name

/-- The names of these macros. -/
def IsMethan (name : String) : Prop := (methanMacro name).isSome = true

/-! ## §3. Translation units. -/

/-- The other macros of a translation unit.  Macro names are identifiers, and none is taken from
the family of names that `foreach.hpp` forms by pasting. -/
structure TranslationUnit where
  other : Env
  identifier : ∀ name, (other name).isSome → isIdentifier name
  fresh : ∀ name, (other name).isSome → ¬ "METHAN_FOR_EACH_P".toList <+: name.toList

/-- A unit whose other macros are listed. -/
def TranslationUnit.ofTable (table : List (String × Macro))
    (hid : ∀ e ∈ table, isIdentifier e.1)
    (hfresh : ∀ e ∈ table, ¬ "METHAN_FOR_EACH_P".toList <+: e.1.toList) : TranslationUnit where
  other name := table.lookup name
  identifier name h := by
    obtain ⟨m, hm⟩ := Option.isSome_iff_exists.mp h
    obtain ⟨l₁, l₂, rfl, -⟩ := List.lookup_eq_some_iff.mp hm
    exact hid (name, m) (by simp)
  fresh name h := by
    obtain ⟨m, hm⟩ := Option.isSome_iff_exists.mp h
    obtain ⟨l₁, l₂, rfl, -⟩ := List.lookup_eq_some_iff.mp hm
    exact hfresh (name, m) (by simp)

/-- All macros of the unit. -/
def TranslationUnit.env (u : TranslationUnit) : Env := fun name =>
  (methanMacro name).or (u.other name)

/-- The other macros alone: a `METHAN_` macro name must not be met. -/
def TranslationUnit.userEnv (u : TranslationUnit) : Env := fun name =>
  if (methanMacro name).isSome then some .poisoned else u.other name

theorem TranslationUnit.poisons (u : TranslationUnit) : Poisons IsMethan u.userEnv u.env where
  poisoned name h := if_pos h
  agree name h := by
    have hnone : methanMacro name = none := by simpa [IsMethan] using h
    simp [userEnv, env, hnone]

/-! ## §4. Looking names up. -/

theorem entryName_eq (k : Nat) : entryName k = "METHAN_FOR_EACH_P" ++ toString k := rfl

theorem helperName_eq (k : Nat) : helperName k = entryName k ++ "_" := rfl

theorem rungName_eq (k n : Nat) : rungName k n = helperName k ++ toString n := rfl

theorem entryName_inj {k k' : Nat} {s s' : String} (hk : k < 8) (hk' : k' < 8)
    (h : entryName k ++ s = entryName k' ++ s') : k = k' ∧ s = s' := by
  have hdigit : ∀ a < 8, (toString a).toList.length = 1 := by decide
  have hinj : ∀ a < 8, ∀ b < 8, (toString a).toList = (toString b).toList → a = b := by decide
  obtain ⟨c, hc⟩ := List.length_eq_one_iff.mp (hdigit k hk)
  obtain ⟨c', hc'⟩ := List.length_eq_one_iff.mp (hdigit k' hk')
  rw [entryName_eq, entryName_eq, String.append_assoc, String.append_assoc,
    String.append_right_inj] at h
  have hlist := congrArg String.toList h
  rw [String.toList_append, String.toList_append, hc, hc', List.singleton_append,
    List.singleton_append, List.cons.injEq] at hlist
  exact ⟨hinj k hk k' hk' (by rw [hc, hc', hlist.1]), String.toList_inj.mp hlist.2⟩

theorem rungName_inj {k k' n n' : Nat} (hk : k < 8) (hk' : k' < 8)
    (h : rungName k n = rungName k' n') : k = k' ∧ n = n' := by
  rw [rungName_eq, rungName_eq, helperName_eq, helperName_eq, String.append_assoc,
    String.append_assoc] at h
  obtain ⟨rfl, hs⟩ := entryName_inj hk hk' h
  rw [String.append_right_inj] at hs
  exact ⟨rfl, Nat.repr_injective hs⟩

/-- In a table whose names are distinct, every entry is found under its name. -/
theorem lookup_of_mem {table : List (String × Macro)} {name : String} {m : Macro}
    (hmem : (name, m) ∈ table)
    (hkeys : ∀ m', (name, m') ∈ table → m' = m) : table.lookup name = some m := by
  cases hl : table.lookup name with
  | none => exact absurd (List.lookup_eq_none_iff.mp hl _ hmem) (by simp)
  | some m' =>
      obtain ⟨l₁, l₂, rfl, -⟩ := List.lookup_eq_some_iff.mp hl
      rw [hkeys m' (by simp)]

theorem mem_of_lookup {table : List (String × Macro)} {name : String} {m : Macro}
    (h : table.lookup name = some m) : (name, m) ∈ table := by
  obtain ⟨l₁, l₂, rfl, -⟩ := List.lookup_eq_some_iff.mp h
  simp

/-- The names of one family and what they stand for. -/
theorem mem_foreachFamily {k : Nat} {name : String} {m : Macro} :
    (name, m) ∈ foreachFamily k ↔
      (name = entryName k ∧ m = entry k) ∨ (name = helperName k ∧ m = helper k) ∨
        ∃ n ≤ 62, name = rungName k n ∧ m = rung k n := by
  simp only [foreachFamily, List.mem_cons, Prod.mk.injEq, List.mem_map, List.mem_range]
  refine or_congr_right (or_congr_right ?_)
  constructor
  · rintro ⟨n, hn, rfl, rfl⟩; exact ⟨n, by omega, rfl, rfl⟩
  · rintro ⟨n, hn, rfl, rfl⟩; exact ⟨n, by omega, rfl, rfl⟩

/-- Every name of a family continues its entry point's name. -/
theorem foreachFamily_name {k : Nat} {name : String} {m : Macro}
    (h : (name, m) ∈ foreachFamily k) :
    (name = entryName k ++ "" ∧ m = entry k) ∨ (name = entryName k ++ "_" ∧ m = helper k) ∨
      ∃ n ≤ 62, name = entryName k ++ ("_" ++ toString n) ∧ m = rung k n := by
  rcases mem_foreachFamily.mp h with ⟨rfl, rfl⟩ | ⟨rfl, rfl⟩ | ⟨n, hn, rfl, rfl⟩
  · exact .inl ⟨by simp, rfl⟩
  · exact .inr (.inl ⟨rfl, rfl⟩)
  · exact .inr (.inr ⟨n, hn, by rw [rungName_eq, helperName_eq, String.append_assoc], rfl⟩)

theorem coreTable_name {name : String} {m : Macro} (h : (name, m) ∈ coreTable) :
    ¬ "METHAN_FOR_EACH_P".toList <+: name.toList ∧
      (name.toList.head? = some 'M' ∨ name.toList.head? = some '_') := by
  have key : ∀ e ∈ coreTable, ¬ "METHAN_FOR_EACH_P".toList <+: e.1.toList ∧
      (e.1.toList.head? = some 'M' ∨ e.1.toList.head? = some '_') := by decide
  exact key _ h

theorem entryName_prefix (k : Nat) (s : String) :
    "METHAN_FOR_EACH_P".toList <+: (entryName k ++ s).toList := by
  rw [entryName_eq, String.append_assoc, String.toList_append]
  exact List.prefix_append _ _

theorem methanTable_cases {name : String} {m : Macro} (h : (name, m) ∈ methanTable) :
    (name, m) ∈ coreTable ∨ ∃ k < 8, (name, m) ∈ foreachFamily k := by
  rcases List.mem_append.mp h with h | h
  · exact .inl h
  · obtain ⟨k, hk, hm⟩ := List.mem_flatMap.mp h
    exact .inr ⟨k, List.mem_range.mp hk, hm⟩

/-- Two entries of the families under one name are the same entry. -/
theorem foreachFamily_unique {k k' : Nat} (hk : k < 8) (hk' : k' < 8) {name : String}
    {m m' : Macro} (h : (name, m) ∈ foreachFamily k) (h' : (name, m') ∈ foreachFamily k') :
    m' = m := by
  rcases foreachFamily_name h with ⟨rfl, rfl⟩ | ⟨rfl, rfl⟩ | ⟨n, hn, rfl, rfl⟩ <;>
    rcases foreachFamily_name h' with ⟨he, rfl⟩ | ⟨he, rfl⟩ | ⟨n', hn', he, rfl⟩ <;>
    obtain ⟨rfl, hs⟩ := entryName_inj hk hk' he
  · rfl
  · simp at hs
  · simp at hs
  · simp at hs
  · rfl
  · exact absurd (String.append_eq_left_iff.mp hs.symm) Nat.repr_ne_empty
  · simp at hs
  · exact absurd (String.append_eq_left_iff.mp hs) Nat.repr_ne_empty
  · rw [Nat.repr_injective ((String.append_right_inj _).mp hs)]

theorem methanMacro_family {k : Nat} (hk : k < 8) {name : String} {m : Macro}
    (h : (name, m) ∈ foreachFamily k) : methanMacro name = some m := by
  refine lookup_of_mem (List.mem_append_right _
    (List.mem_flatMap.mpr ⟨k, List.mem_range.mpr hk, h⟩)) fun m' hm' => ?_
  rcases methanTable_cases hm' with hcore | ⟨k', hk', hm'⟩
  · refine absurd ?_ (coreTable_name hcore).1
    rcases foreachFamily_name h with ⟨rfl, -⟩ | ⟨rfl, -⟩ | ⟨n, hn, rfl, -⟩ <;>
      exact entryName_prefix k _
  · exact foreachFamily_unique hk hk' h hm'

theorem methanMacro_rung {k n : Nat} (hk : k < 8) (hn : n ≤ 62) :
    methanMacro (rungName k n) = some (rung k n) :=
  methanMacro_family hk (mem_foreachFamily.mpr (.inr (.inr ⟨n, hn, rfl, rfl⟩)))

/-- A `METHAN_` macro name starts with `M` or `_`. -/
theorem IsMethan.head {name : String} (h : IsMethan name) :
    name.toList.head? = some 'M' ∨ name.toList.head? = some '_' := by
  obtain ⟨m, hm⟩ := Option.isSome_iff_exists.mp h
  rcases methanTable_cases (mem_of_lookup hm) with hcore | ⟨k, hk, hfam⟩
  · exact (coreTable_name hcore).2
  · refine .inl ?_
    have hprefix : "METHAN_FOR_EACH_P".toList <+: name.toList := by
      rcases foreachFamily_name hfam with ⟨rfl, -⟩ | ⟨rfl, -⟩ | ⟨n, hn, rfl, -⟩ <;>
        exact entryName_prefix k _
    obtain ⟨rest, hrest⟩ := hprefix
    have hM : "METHAN_FOR_EACH_P".toList.head? = some 'M' := by decide
    calc name.toList.head? = ("METHAN_FOR_EACH_P".toList ++ rest).head? := by simp only [hrest]
      _ = some 'M' := by simp only [List.head?_append, hM, Option.some_or]

/-! ## §5. What the unit's macros are. -/

variable (u : TranslationUnit)

theorem TranslationUnit.env_methan {name : String} {m : Macro} (h : methanMacro name = some m) :
    u.env name = some m := by
  simp [env, h]

/-- A name that starts like the `METHAN_` macros' names. -/
def Reserved (name : String) : Prop :=
  name.toList.head? = some 'M' ∨ name.toList.head? = some '_'

instance (name : String) : Decidable (Reserved name) := inferInstanceAs (Decidable (_ ∨ _))

theorem TranslationUnit.env_other {name : String} (h : ¬ Reserved name) :
    u.env name = u.other name := by
  have hnone : methanMacro name = none := by
    by_contra hne
    exact h (IsMethan.head (Option.isSome_iff_ne_none.mpr hne))
  simp [env, hnone]

/-- Neither a `METHAN_` macro name nor an identifier: no macro. -/
theorem TranslationUnit.env_none {name : String} (h1 : ¬ IsMethan name)
    (h2 : isIdentifier name = false) : u.env name = none := by
  have hm : methanMacro name = none := by simpa [IsMethan] using h1
  have ho : u.other name = none := by
    by_contra hne
    have := u.identifier name (Option.isSome_iff_ne_none.mpr hne)
    simp [h2] at this
  simp [env, hm, ho]

theorem TranslationUnit.env_punctuation :
    u.env "(" = none ∧ u.env ")" = none ∧ u.env "," = none := by
  have key : ∀ s ∈ ["(", ")", ","], isIdentifier s = false ∧
      ¬ (s.toList.head? = some 'M' ∨ s.toList.head? = some '_') := by decide
  refine ⟨?_, ?_, ?_⟩ <;>
    exact u.env_none (fun h => (key _ (by simp)).2 h.head) (key _ (by simp)).1

end Methan
