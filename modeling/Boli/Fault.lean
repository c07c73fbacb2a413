import Boli.Number.Numeral
import Boli.Syntax.Basic

/-!
# Faults

What can go wrong while a program runs.  A *fault* is the fault of the script: it has a cause and
mostly a line.  A *host error* comes from outside the language.
-/

namespace Boli

/-- How control leaves a statement before its end. -/
inductive Jump where
  /-- Out of a loop. -/
  | stop
  /-- To the next round of a loop. -/
  | skip
  /-- Out of a call. -/
  | giveBack
deriving DecidableEq, Repr

/-- The complaint about a jump that nothing catches. -/
def Jump.stray : Jump → String
  | stop => "'thamb' used outside of a loop"
  | skip => "'pudheJa' used outside of a loop"
  | giveBack => "'paratDe' used outside of a function"

/-- Why a script fails. -/
inductive Cause where
  /-- A variable is read that does not exist. -/
  | undefinedVariable (name : String)
  /-- A variable is assigned that does not exist. -/
  | undefinedTarget (name : String)
  /-- Something is called that is no function. -/
  | unknownFunction (name : String)
  /-- A function gets the wrong number of arguments. -/
  | arity (name : String) (expected actual : Nat)
  /-- A node or an operator has no meaning. -/
  | unknownOperation (what : String)
  /-- An arithmetic operator does not take the operands. -/
  | operands (op : Op) (left right : ValueType)
  /-- An order does not take the operands. -/
  | incomparable (op : Op) (left right : ValueType)
  /-- The sign does not take the operand. -/
  | notNegatable (type : ValueType)
  /-- A value has no properties. -/
  | noProperty (name : String) (type : ValueType)
  /-- A value has no elements. -/
  | notIndexable (type : ValueType)
  /-- An index is no whole number. -/
  | indexNotWhole (shown : String)
  /-- An index is negative or too large. -/
  | indexOutOfRange (index : Int)
  /-- A value that is appended to is no list. -/
  | notAList (type : ValueType)
  /-- A value has no length. -/
  | noLength (type : ValueType)
  /-- The input is no text but an object of the named type of the host. -/
  | inputNotText (hostType : String)
  /-- There is no input. -/
  | inputUnavailable
  /-- A jump leaves the program. -/
  | stray (jump : Jump)
  /-- A jump leaves a function. -/
  | strayInFunction (jump : Jump) (function : String)
deriving DecidableEq, Repr

/-- The wording of a cause. -/
def Cause.message : Cause → String
  | undefinedVariable name => "Undefined variable '" ++ name ++ "'"
  | undefinedTarget name => "Cannot assign to undefined variable '" ++ name ++ "'"
  | unknownFunction name => "Unknown function: " ++ name
  | arity name expected actual =>
    "Function '" ++ name ++ "' expects " ++ toString expected ++ " arguments, got " ++
      toString actual
  | unknownOperation what => "Unknown operation '" ++ what ++ "'"
  | operands op left right =>
    "Cannot apply '" ++ op.symbol ++ "' to " ++ left.name ++ " and " ++ right.name
  | incomparable op left right =>
    "Cannot compare " ++ left.name ++ " and " ++ right.name ++ " with '" ++ op.symbol ++ "'"
  | notNegatable type => "Unary minus (-) requires a number, got " ++ type.name
  | noProperty name type => "Cannot read property '" ++ name ++ "' of " ++ type.name
  | notIndexable type => type.name ++ " is not indexable"
  | indexNotWhole shown => "Index must be a whole number, got " ++ shown
  | indexOutOfRange index => "Index " ++ toString index ++ " out of range"
  | notAList type => "jod() expects a list, got " ++ type.name
  | noLength type => "moj() works on lists and strings, got " ++ type.name
  | inputNotText hostType => "Input provider must return text, got " ++ hostType
  | inputUnavailable => "Input handler not provided and prompt is not available"
  | stray jump => jump.stray
  | strayInFunction jump function => jump.stray ++ " in function '" ++ function ++ "'"

/-- A fault of the script, with the line it happened on if that is known. -/
structure Fault where
  /-- The cause. -/
  cause : Cause
  /-- The line. -/
  line : Line
deriving DecidableEq, Repr

/-- The wording of a fault. -/
def Fault.message (f : Fault) : String :=
  match f.line with
  | some n => f.cause.message ++ " on line " ++ toString n
  | none => f.cause.message

/-- An error from outside the language. -/
inductive HostError where
  /-- An operation meets an object that is no value of the language. -/
  | notAValue
  /-- The output does not take another line, for the reason it gives. -/
  | sinkFailed (reason : String)
  /-- The host calls a value that is no function. -/
  | notAFunction (type : Option ValueType)
  /-- The host reads a number from a value that is no text. -/
  | notAText (type : Option ValueType)
  /-- The host formats a text as a number that holds none. -/
  | notANumber (text : String)
  /-- The host formats a value as a number that is neither a number nor a text. -/
  | notNumeric (type : Option ValueType)
  /-- The host divides by zero. -/
  | divisionByZero
  /-- The host takes a remainder of infinity or by zero. -/
  | remainderUndefined
  /-- The host takes infinity, or no number, for an integer. -/
  | notAnInteger (infinite : Bool)
  /-- The host reads an item beyond the end of a list or a text. -/
  | noItem (type : Option ValueType)
deriving DecidableEq, Repr

/-- What the host calls the type of a value. -/
def hostTypeName : Option ValueType → String
  | some .number => "float"
  | some .text => "str"
  | some .boolean => "bool"
  | some .null => "NoneType"
  | some .list => "list"
  | some .function => "FunctionValue"
  | none => "dict"

/-- The wording of a host error. -/
def HostError.message : HostError → String
  | notAValue => "Not an AmchiScript value: \x7b\x7d"
  | sinkFailed reason => reason
  | notAFunction type => "'" ++ hostTypeName type ++ "' object has no attribute 'closure'"
  | notAText type => "'" ++ hostTypeName type ++ "' object has no attribute 'strip'"
  | notANumber text => Numeral.complaint text
  | notNumeric type =>
    "float() argument must be a string or a real number, not '" ++ hostTypeName type ++ "'"
  | divisionByZero => "float division by zero"
  | remainderUndefined => "math domain error"
  | notAnInteger infinite =>
    "cannot convert float " ++ (if infinite then "infinity" else "NaN") ++ " to integer"
  | noItem type =>
    (if type = some .text then "string" else hostTypeName type) ++ " index out of range"

end Boli
