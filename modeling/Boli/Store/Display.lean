import Boli.Store.Basic
import Boli.Number.Numeral
import Boli.Text.Quoted

/-!
# Texts and tests of values

How a value is printed, when it counts as true, and when two values are equal.

* `Store.display` is the text of a value.  The text of a list holds the texts of its elements, so a
  list that contains itself has none.
* `Value.truth?` is the truth of a value.
* `Value.looselyEquals?` is equality with conversions between numbers, booleans and texts.

A foreign object has neither a text nor a truth nor an equal.
-/

namespace Boli

/-- Why a value has no text. -/
inductive Unprintable where
  /-- A foreign object is part of it. -/
  | foreign
  /-- It contains itself. -/
  | endless
  /-- A number has no integer to print: infinity, or no number. -/
  | notAnInteger (infinite : Bool)
deriving DecidableEq, Repr

namespace Store

/-- The texts of some values. -/
def displayAll (display : Value → Except Unprintable String) :
    List Value → Except Unprintable (List String)
  | [] => .ok []
  | v :: vs => do
    let first ← display v
    let rest ← displayAll display vs
    return first :: rest

/-- The text of a value whose lists are nested at most `depth` deep. -/
def displayWithin (s : Store) : Nat → Value → Except Unprintable String
  | _, .null => .ok "nil"
  | _, .boolean b => .ok (if b then "true" else "false")
  | _, .number x =>
    match Numeral.display? x with
    | some text => .ok text
    | none => .error (.notAnInteger x.isInf)
  | _, .text t => .ok t
  | _, .function id => .ok ("<kaamKar " ++ ((s.closure? id).map Closure.name).getD "" ++ ">")
  | _, .foreign _ => .error .foreign
  | 0, .list _ => .error .endless
  | depth + 1, .list id => do
    let items ← displayAll (displayWithin s depth) (s.elements id).toList
    return "[" ++ ", ".intercalate items ++ "]"

/-- The text of a value.  Lists nested deeper than there are lists contain themselves. -/
def display (s : Store) (v : Value) : Except Unprintable String :=
  s.displayWithin s.lists.size v

/-- The description of a scope: its names in order, and whether it lies in another one. -/
def describe (s : Store) (id : ScopeId) : String :=
  let names := (s.bindings id).names.mergeSort
  "Environment([" ++ ", ".intercalate (names.map Text.quoted) ++ "], parent=" ++
    (if (s.parent? id).isSome then "yes" else "no") ++ ")"

end Store

namespace Value

/-- The truth of a value: null, false, zero, no number and the empty text are false. -/
def truth? : Value → Option Bool
  | null => some false
  | boolean b => some b
  | number x => some (x != 0 && !x.isNaN)
  | text s => some (s != "")
  | list _ | function _ => some true
  | foreign _ => none

/-- The value of a constant in a program.  A numeric text is a number if texts are coerced. -/
def coerced (coerce : Bool) : Value → Value
  | text s => if coerce then ((Numeral.ofText? s).map number).getD (text s) else text s
  | v => v

/-- Equality of two values of the language.  A number or boolean equals a text that holds the same
number, and lists and functions only equal themselves. -/
def looselyEquals : Value → Value → Bool
  | null, null => true
  | text s, text t => s == t
  | text s, w =>
    match w.numeric? with
    | some y => (Numeral.ofText? s).any (· == y)
    | none => false
  | v, text t =>
    match v.numeric? with
    | some x => (Numeral.ofText? t).any (x == ·)
    | none => false
  | v, w =>
    match v.numeric?, w.numeric? with
    | some x, some y => x == y
    | _, _ => v.isSameObject w

/-- Equality, which a foreign object does not take part in. -/
def looselyEquals? (v w : Value) : Option Bool :=
  if v.type?.isSome && w.type?.isSome then some (v.looselyEquals w) else none

end Value

end Boli
