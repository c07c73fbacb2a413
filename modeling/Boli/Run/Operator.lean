import Boli.Run.Machine
import Boli.Text.Split

/-!
# Operators and built-in functions

What the operators and the functions of the language do with values that are already computed.

* `Action.binary` and `Action.unary` apply an operator.
* `Action.element` takes an element of a list or a character of a text.
* `Action.builtin` calls a function of the language.

Arithmetic takes numbers and booleans.  Addition also joins two lists, and joins texts as soon as
one operand is a text.  Both operands of a conjunction or a disjunction are computed before it
chooses between them.
-/

namespace Boli

/-- The arithmetic of an operator on numbers. -/
def Op.arithmetic (op : Op) (x y : Float) : Action Float :=
  match op with
  | .add => return x + y
  | .sub => return x - y
  | .mul => return x * y
  | .div => Action.ofHost .divisionByZero (Double.divide? x y)
  | _ => Action.ofHost .remainderUndefined (Double.remainder? x y)

/-- The order of an operator on numbers. -/
def Op.orderNumbers (op : Op) (x y : Float) : Bool :=
  match op with
  | .gt => y < x
  | .ge => y ≤ x
  | .lt => x < y
  | _ => x ≤ y

/-- The order of an operator on texts, which goes by code points. -/
def Op.orderTexts (op : Op) (s t : String) : Bool :=
  match op with
  | .gt => t < s
  | .ge => !(decide (s < t))
  | .lt => s < t
  | _ => !(decide (t < s))

namespace Action

/-- Adds numbers, joins lists, or joins texts. -/
def add (l r : Value) (line : Line) : Action Value := do
  let left ← typeOf l
  let right ← typeOf r
  if left = .text ∨ right = .text then
    let s ← display l
    let t ← display r
    return .text (s ++ t)
  else
    match l, r with
    | .list a, .list b => do
      let store := (← get).store
      newList (store.elements a ++ store.elements b)
    | _, _ =>
      match l.numeric?, r.numeric? with
      | some x, some y => return .number (← Op.arithmetic .add x y)
      | _, _ => fail (.operands .add left right) line

/-- Applies an arithmetic operator other than addition. -/
def arithmetic (op : Op) (l r : Value) (line : Line) : Action Value := do
  let left ← typeOf l
  let right ← typeOf r
  match l.numeric?, r.numeric? with
  | some x, some y => return .number (← op.arithmetic x y)
  | _, _ => fail (.operands op left right) line

/-- Compares numbers or texts by an order. -/
def order (op : Op) (l r : Value) (line : Line) : Action Value := do
  let left ← typeOf l
  let right ← typeOf r
  match l, r with
  | .text s, .text t => return .boolean (op.orderTexts s t)
  | _, _ =>
    match l.numeric?, r.numeric? with
    | some x, some y => return .boolean (op.orderNumbers x y)
    | _, _ => fail (.incomparable op left right) line

/-- Applies an operator to two values. -/
def binary (op : Op) (l r : Value) (line : Line) : Action Value := do
  match op with
  | .and => return if ← truth l then r else l
  | .or => return if ← truth l then l else r
  | .eq => return .boolean (← ofValue? (l.looselyEquals? r))
  | .ne => return .boolean (!(← ofValue? (l.looselyEquals? r)))
  | .add => add l r line
  | .sub | .mul | .div | .mod => arithmetic op l r line
  | .gt | .ge | .lt | .le => order op l r line
  | .not | .other _ => fail (.unknownOperation op.symbol) line

/-- Applies an operator to one value. -/
def unary (op : Op) (v : Value) (line : Line) : Action Value := do
  match op with
  | .sub =>
    let type ← typeOf v
    match v.numeric? with
    | some x => return .number (-x)
    | none => fail (.notNegatable type) line
  | .not => return .boolean (!(← truth v))
  | _ => fail (.unknownOperation op.symbol) line

/-! ## Elements -/

/-- The place that an index value names. -/
def placeOf (index : Value) (line : Line) : Action Int := do
  let _ ← typeOf index
  match index with
  | .number x =>
    if Double.isWhole x then
      ofHost (.notAnInteger x.isInf) (Double.toInt? x)
    else
      fail (.indexNotWhole (← display index)) line
  | _ => fail (.indexNotWhole (← display index)) line

/-- The number of items of a list or a text. -/
def size (s : Store) (target : Value) : Nat :=
  match target with
  | .list id => (s.elements id).size
  | .text t => t.length
  | _ => 0

/-- The item of a list or a text at a place, counted from zero. -/
def item? (s : Store) (target : Value) (place : Nat) : Option Value :=
  match target with
  | .list id => (s.elements id)[place]?
  | .text t => (Text.charAt? t place).map fun c => .text c.toString
  | _ => none

/-- Complains about a value that has no elements. -/
def requireIndexable (target : Value) (line : Line) : Action Unit := do
  match ← typeOf target with
  | .list | .text => return ()
  | type => fail (.notIndexable type) line

/-- An element of a list or a character of a text. -/
def element (target index : Value) (line : Line) : Action Value := do
  let place ← placeOf index line
  let store := (← get).store
  if 0 ≤ place ∧ place < size store target then
    ofHost (.noItem target.type?) (item? store target place.toNat)
  else
    fail (.indexOutOfRange place) line

/-! ## Built-in functions -/

/-- Takes a text from the input. -/
def input (args : List Value) (line : Line) : Action Value := do
  if args.isEmpty then
    return .text (← readInput line)
  else
    fail (.arity Builtin.input.name 0 args.length) line

/-- Writes values with a space between them. -/
def print (args : List Value) : Action Value := do
  let texts ← each display args
  write (" ".intercalate texts)
  return .null

/-- Puts a value at the end of a list and returns the list. -/
def append (args : List Value) (line : Line) : Action Value := do
  match args with
  | [target, value] =>
    match target with
    | .list id => do
      modifyStore (·.append id value)
      return target
    | _ => fail (.notAList (← typeOf target)) line
  | _ => fail (.arity Builtin.append.name 2 args.length) line

/-- The number of elements of a list or of characters of a text. -/
def length (args : List Value) (line : Line) : Action Value := do
  match args with
  | [target] =>
    match target with
    | .list id => return .number (Double.ofNat ((← get).store.elements id).size)
    | .text t => return .number (Double.ofNat t.length)
    | _ => fail (.noLength (← typeOf target)) line
  | _ => fail (.arity Builtin.length.name 1 args.length) line

/-- Calls a function of the language. -/
def builtin (b : Builtin) (args : List Value) (line : Line) : Action Value :=
  match b with
  | .input => input args line
  | .print => print args
  | .list => newList args.toArray
  | .append => append args line
  | .length => length args line

end Action

end Boli
