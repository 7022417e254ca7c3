import Mathlib.Data.Rat.Defs
import Mathlib.Algebra.GroupWithZero.Nat
import Mathlib.Algebra.Ring.Int.Defs
import Mathlib.Data.List.Infix
import CodeCalc.Lib.Dict

/-! The Python values and exceptions the service passes around: what
`json.loads` can return, and what an `except` clause can see of an exception. -/
namespace CodeCalc
open Lib

/-- A decoded JSON document.  A float is its exact rational value; the three
that have none (`NaN`, `Infinity`, `-Infinity`) keep their spelling. -/
inductive Json where
  | null
  | bool (value : Bool)
  | int (value : Int)
  | float (value : ℚ)
  | nonfinite (spelling : String)
  | str (value : String)
  | arr (items : List Json)
  | obj (members : List (String × Json))

/-- A Python dictionary with string keys, in insertion order. -/
abbrev Fields := List (String × Json)

namespace Json

/-- `bool(value)`. -/
def truthy : Json → Bool
  | null => false
  | bool value => value
  | int value => decide (value ≠ 0)
  | float value => decide (value ≠ 0)
  | nonfinite _ => true
  | str value => decide (value ≠ "")
  | arr items => !items.isEmpty
  | obj members => !members.isEmpty

/-- `hash(value)` is defined: a list or a dictionary has none, and looking one
up in a set raises `TypeError`. -/
def hashable : Json → Bool
  | arr _ => false
  | obj _ => false
  | _ => true

end Json

/-- `{**left, **right}`. -/
def mergeFields (left right : Fields) : Fields :=
  right.foldl (fun fields entry => setEntry entry.1 entry.2 fields) left

/-- `fields.setdefault(key, value)`. -/
def setDefault (fields : Fields) (key : String) (value : Json) : Fields :=
  if (fields.lookup key).isSome then fields else fields ++ [(key, value)]

/-- The classes that some `except` clause or `isinstance` test names. -/
inductive ExcClass where
  | exception
  | osError
  | timeoutError
  | keyError
  | valueError
  | typeError
  | attributeError
  | recursionError
  | runtimeError
  | unsupportedCapability
  | unknownProvider
  | providerOperationFailure
  | tooManyActiveRuns
  | missingExtra
  | memoryError
  | permissionError
  | fileNotFoundError
  | importError
  | indexError
  | arithmeticError
  | zeroDivisionError
  | ceilingExceeded
  | strictRuntimeUnavailable
  deriving DecidableEq, Repr

/-- An exception as its handlers see it.  `bases` are the named classes it is
an instance of; an exception without `exception` among them derives from
`BaseException` only and passes every `except Exception`. -/
structure Exc where
  typeName : String
  bases : List ExcClass
  /-- `str(exc)`, or `none` when `__str__` itself raises. -/
  message : Option String
  /-- `getattr(exc, "code", None)`, with the falsy values left out. -/
  code : Option String := none
  /-- The `result` of a `CodedRunFailure`; `none` for every other class. -/
  coded : Option Fields := none

namespace Exc

def isInstance (exc : Exc) (cls : ExcClass) : Bool := decide (cls ∈ exc.bases)

/-- Caught by `except (A, B, ...)`. -/
def caughtBy (exc : Exc) (classes : List ExcClass) : Bool := classes.any exc.isInstance

def keyError (message : String) : Exc :=
  ⟨"KeyError", [.keyError, .exception], some message, none, none⟩

def timeoutError (message : String) : Exc :=
  ⟨"TimeoutError", [.timeoutError, .osError, .exception], some message, none, none⟩

def attributeError (message : String) : Exc :=
  ⟨"AttributeError", [.attributeError, .exception], some message, none, none⟩

def valueError (message : String) : Exc :=
  ⟨"ValueError", [.valueError, .exception], some message, none, none⟩

def typeError (message : String) : Exc :=
  ⟨"TypeError", [.typeError, .exception], some message, none, none⟩

def zeroDivisionError (message : String) : Exc :=
  ⟨"ZeroDivisionError", [.zeroDivisionError, .arithmeticError, .exception], some message,
    none, none⟩

/-- `exact._CeilingExceeded`, a `ValueError` of its own. -/
def ceilingExceeded (message : String) : Exc :=
  ⟨"_CeilingExceeded", [.ceilingExceeded, .valueError, .exception], some message, none, none⟩

def recursionError (message : String) : Exc :=
  ⟨"RecursionError", [.recursionError, .runtimeError, .exception], some message, none, none⟩

/-- Caught by `except Exception`, and then rendered or passed on verbatim
without raising in its turn. -/
def reportable (exc : Exc) : Bool :=
  exc.isInstance .exception && (exc.coded.isSome || exc.message.isSome)

def unprintable (exc : Exc) : Exc :=
  ⟨"Exception", [.exception], some (exc.typeName ++ ".__str__ raised"), none, none⟩

end Exc

/-- `needle in text`. -/
def isIn (needle text : String) : Bool :=
  text.toList.tails.any fun rest => needle.toList.isPrefixOf rest

/-- `repr` of a text with no quote, backslash or control character in it. -/
def reprStr (text : String) : String := "'" ++ text ++ "'"

end CodeCalc
