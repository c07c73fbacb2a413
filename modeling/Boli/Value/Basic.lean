/-!
# Values

A value is null, a boolean, a number, a text, a list or a function.  Lists and functions have an
identity: the value is only the number of a list or a function in the store, and two values are the
same list exactly when the numbers agree.

A host that embeds the language may hand in something else.  Such a `foreign` value has no type, and
every operation that asks for its type fails.
-/

namespace Boli

/-- The number of a list in the store. -/
structure ListId where
  /-- The number. -/
  index : Nat
deriving DecidableEq, Repr, Inhabited

/-- The number of a function in the store. -/
structure FunctionId where
  /-- The number. -/
  index : Nat
deriving DecidableEq, Repr, Inhabited

/-- The number of a scope in the store. -/
structure ScopeId where
  /-- The number. -/
  index : Nat
deriving DecidableEq, Repr, Inhabited

/-- A value of the language. -/
inductive Value where
  /-- The absent value. -/
  | null
  /-- A truth value. -/
  | boolean (b : Bool)
  /-- A double. -/
  | number (x : Float)
  /-- A text. -/
  | text (s : String)
  /-- A list in the store. -/
  | list (id : ListId)
  /-- A function in the store. -/
  | function (id : FunctionId)
  /-- An object of the host that is no value of the language, told apart by a number. -/
  | foreign (tag : Nat)
deriving Repr, Inhabited

/-- The type of a value. -/
inductive ValueType where
  | number | text | boolean | null | function | list
deriving DecidableEq, Repr

namespace ValueType

/-- The name of a type in messages. -/
def name : ValueType → String
  | number => "number"
  | text => "string"
  | boolean => "boolean"
  | null => "null"
  | function => "function"
  | list => "list"

end ValueType

namespace Value

/-- The type of a value.  A foreign object has none. -/
def type? : Value → Option ValueType
  | null => some .null
  | boolean _ => some .boolean
  | number _ => some .number
  | text _ => some .text
  | list _ => some .list
  | function _ => some .function
  | foreign _ => none

/-- The double that a number or a boolean counts as. -/
def numeric? : Value → Option Float
  | number x => some x
  | boolean b => some (if b then 1 else 0)
  | _ => none

/-- The value is the same list, function or foreign object. -/
def isSameObject : Value → Value → Bool
  | list a, list b => a == b
  | function a, function b => a == b
  | foreign a, foreign b => a == b
  | _, _ => false

end Value

end Boli
