/-
  MethanFV.Utility.Exception — `utility/exception.hpp` and `utility/exception.cpp`.
-/
import Mathlib.Data.List.Basic

namespace Methan

/-- All the exceptions that the API throws. -/
inductive ExceptionType where
  | IllegalArgument
  | IllegalState
  | NullPointer
  | AlreadyInitialized
  | IndexOutOfBounds
  | BadCastException
  | Unknown
  deriving DecidableEq, Repr

/-- `to_string(type)` -/
def to_string : ExceptionType → String
  | .IllegalArgument => "IllegalArgument"
  | .IllegalState => "IllegalState"
  | .NullPointer => "NullPointer"
  | .AlreadyInitialized => "AlreadyInitialized"
  | .IndexOutOfBounds => "IndexOutOfBounds"
  | .BadCastException => "BadCastException"
  | _ => "Unknown"

/-- The exception class. -/
structure Exception where
  m_what : String
  m_file : String
  m_line : Nat
  m_type : ExceptionType
  deriving DecidableEq, Repr

/-- A double quote. -/
def quote : String := String.singleton (Char.ofNat 34)

/-- The constructor with information about the exception. -/
def Exception.create (what file : String) (line : Nat) (type : ExceptionType) : Exception where
  m_file := file
  m_line := line
  m_type := type
  m_what := to_string type ++ "Exception : " ++ what ++
    " [file=" ++ quote ++ file ++ quote ++ ", line=" ++ toString line ++ "] "

/-- `METHAN_THROW_EXCEPTION(what, type)` at a line of a file. -/
def methanThrowException {α : Type} (file : String) (line : Nat) (what : String)
    (type : ExceptionType) : Except Exception α :=
  .error (.create what file line type)

/-- `METHAN_FORCE_ASSERT(condition, type, msg)` on a condition that has been evaluated. -/
def methanForceAssert (file : String) (line : Nat) (condition : Bool) (type : ExceptionType)
    (msg : String) : Except Exception Unit :=
  if !condition then methanThrowException file line msg type else .ok ()

@[simp] theorem Exception.create_type (what file : String) (line : Nat) (type : ExceptionType) :
    (Exception.create what file line type).m_type = type := rfl

theorem methanForceAssert_ok {file : String} {line : Nat} {condition : Bool}
    {type : ExceptionType} {msg : String} :
    methanForceAssert file line condition type msg = .ok () ↔ condition = true := by
  cases condition <;> simp [methanForceAssert, methanThrowException]

end Methan
