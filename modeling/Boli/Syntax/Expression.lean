import Boli.Syntax.Basic
import Boli.Syntax.Cursor
import Boli.Number.Numeral

/-!
# Reading expressions

Expressions come in levels, from the loosest to the tightest: disjunction, conjunction, equality,
relation, sum, product, sign, accessor, primary.  Each binary level is a chain of operands of the
next level, joined from the left.

Every definition takes the reading of a whole expression as an argument, for the expressions inside
parentheses, brackets and argument lists.  `expressionWithin` closes the circle with a bound on the
nesting, and `expression` takes that bound from the tokens ahead, which are never fewer than the
parentheses and brackets still to open.
-/

namespace Boli

/-- The levels of binary operators, loosest first. -/
inductive Level where
  | disjunction | conjunction | equality | relation | sum | product
deriving DecidableEq, Repr

/-- The operator that a kind of token is on a level.  The word forms of the comparisons mean the
same as their symbols. -/
def Level.op? : Level → Kind → Option Op
  | disjunction, .keyword .or => some .or
  | conjunction, .keyword .and => some .and
  | equality, .symbol .equal => some .eq
  | equality, .keyword .equal => some .eq
  | equality, .symbol .notEqual => some .ne
  | relation, .symbol .greater => some .gt
  | relation, .keyword .greater => some .gt
  | relation, .symbol .greaterEqual => some .ge
  | relation, .symbol .less => some .lt
  | relation, .keyword .less => some .lt
  | relation, .symbol .lessEqual => some .le
  | sum, .symbol .plus => some .add
  | sum, .symbol .minus => some .sub
  | product, .symbol .times => some .mul
  | product, .symbol .divide => some .div
  | product, .symbol .modulo => some .mod
  | _, _ => none

/-- The operator that a kind of token is in front of an operand. -/
def signOp? : Kind → Option Op
  | .symbol .minus => some .sub
  | .keyword .not => some .not
  | _ => none

/-- The function that a keyword calls when an opening parenthesis follows. -/
def Keyword.builtin? : Keyword → Option Builtin
  | input => some .input
  | print => some .print
  | list => some .list
  | append => some .append
  | length => some .length
  | _ => none

namespace Parser

/-- The arguments of a call, in parentheses. -/
def arguments (expr : Parser Expr) : Parser (List Expr) := do
  let _ ← expect (.symbol .openParen) .parenBeforeArguments
  let args ← itemsUntil (.symbol .closeParen) expr
  let _ ← expect (.symbol .closeParen) .argumentsEnd
  return args

/-- A constant, which takes one token. -/
def constant (value : Value) : Parser Expr := do
  let t ← advance
  return .literal (some t.line) value t.value

/-- A number. -/
def numberLiteral : Parser Expr := do
  let t ← advance
  match Numeral.ofLexeme? t.value with
  | some x => return .literal (some t.line) (.number x) t.value
  | none => failAt t (.notANumber t.value)

/-- A variable, or a call of the function with that name. -/
def nameOrCall (expr : Parser Expr) : Parser Expr := do
  let t ← advance
  if ← isAt (.symbol .openParen) then
    return .call (some t.line) ⟨some t.line, t.value⟩ (← arguments expr)
  else
    return .name (some t.line) t.value

/-- A call of a function that is part of the language. -/
def builtinCall (expr : Parser Expr) (builtin : Builtin) : Parser Expr := do
  if ((← get).peek 1).kind = .symbol .openParen then
    let t ← advance
    return .call (some t.line) ⟨some t.line, builtin.name⟩ (← arguments expr)
  else
    fail (.expected .expression)

/-- A list in brackets. -/
def listLiteral (expr : Parser Expr) : Parser Expr := do
  let t ← advance
  let elements ← itemsUntil (.symbol .closeBracket) expr
  let _ ← expect (.symbol .closeBracket) .elementsEnd
  return .list (some t.line) elements

/-- An expression in parentheses. -/
def group (expr : Parser Expr) : Parser Expr := do
  let _ ← advance
  let e ← expr
  let _ ← expect (.symbol .closeParen) .groupEnd
  return e

/-- A constant, a name, a call, a list or a group. -/
def primary (expr : Parser Expr) : Parser Expr := do
  let t ← current
  match t.kind with
  | .keyword .yes => constant (.boolean true)
  | .keyword .no => constant (.boolean false)
  | .keyword .nothing => constant .null
  | .number => numberLiteral
  | .text => constant (.text t.value)
  | .identifier => nameOrCall expr
  | .symbol .openBracket => listLiteral expr
  | .symbol .openParen => group expr
  | .keyword word =>
    match word.builtin? with
    | some builtin => builtinCall expr builtin
    | none => fail (.expected .expression)
  | _ => fail (.expected .expression)

/-- The accessors behind an expression, at most `fuel` of them. -/
def accessors (expr : Parser Expr) : Nat → Expr → Parser Expr
  | 0, target => return target
  | fuel + 1, target => do
    match ← acceptAny [.symbol .openBracket, .symbol .dot] with
    | none => return target
    | some t =>
      if t.kind = .symbol .openBracket then
        let position ← expr
        let _ ← expect (.symbol .closeBracket) .indexEnd
        accessors expr fuel (.index (some t.line) target position)
      else
        let name ← expect .identifier .propertyName
        accessors expr fuel (.property (some t.line) target ⟨some name.line, name.value⟩)

/-- A primary expression and its accessors. -/
def postfixed (expr : Parser Expr) : Parser Expr := do
  let target ← primary expr
  accessors expr (← remaining) target

/-- Signs in front of an operand, at most `fuel` of them. -/
def signed (expr : Parser Expr) : Nat → Parser Expr
  | 0 => postfixed expr
  | fuel + 1 => do
    let t ← current
    match signOp? t.kind with
    | some op =>
      let _ ← advance
      return .unary (some t.line) op (← signed expr fuel)
    | none => postfixed expr

/-- An operand with any number of signs. -/
def unary (expr : Parser Expr) : Parser Expr := do
  signed expr (← remaining)

/-- The operators of a level and their right operands, at most `fuel` of them. -/
def chain (level : Level) (operand : Parser Expr) : Nat → Expr → Parser Expr
  | 0, left => return left
  | fuel + 1, left => do
    let t ← current
    match level.op? t.kind with
    | some op =>
      let _ ← advance
      let right ← operand
      chain level operand fuel (.binary (some t.line) op left right)
    | none => return left

/-- Operands joined from the left by the operators of a level. -/
def joined (level : Level) (operand : Parser Expr) : Parser Expr := do
  let left ← operand
  chain level operand (← remaining) left

/-- Multiplication, division and remainder. -/
def product (expr : Parser Expr) : Parser Expr :=
  joined .product (unary expr)

/-- Addition and subtraction. -/
def sum (expr : Parser Expr) : Parser Expr :=
  joined .sum (product expr)

/-- Comparisons by order. -/
def relation (expr : Parser Expr) : Parser Expr :=
  joined .relation (sum expr)

/-- Comparisons for equality. -/
def equality (expr : Parser Expr) : Parser Expr :=
  joined .equality (relation expr)

/-- Conjunctions. -/
def conjunction (expr : Parser Expr) : Parser Expr :=
  joined .conjunction (equality expr)

/-- Disjunctions, the loosest level. -/
def disjunction (expr : Parser Expr) : Parser Expr :=
  joined .disjunction (conjunction expr)

/-- An expression with at most `depth` expressions around the innermost one. -/
def expressionWithin : Nat → Parser Expr
  | 0 => fail (.expected .expression)
  | depth + 1 => disjunction (expressionWithin depth)

/-- An expression. -/
def expression : Parser Expr := do
  expressionWithin ((← remaining) + 1)

end Parser

end Boli
