import Boli.Proofs.Grammar

/-!
# Walks over an indexed list of tokens

A cursor holds its tokens in three parts, so it always has a current token, and every loop of a
reading carries fuel and stops when that is used up.  Neither tells why a reading that keeps an index
into one list, and goes round its loops for as long as the tokens say, would stay inside the list and
come to an end.  A walk is such a reading.

* `Place` is the list, the index and the token last fetched.  Nothing ties the three together.
* `Walk.fetch` is the only way to a token, and an index outside the list is an outcome of its own
  (`Trouble.outside`), different from every complaint about a token.
* Each round of a loop and each call of a walk by another one goes one level down from a depth.  A
  walk that is still going on at the bottom has no outcome at all (`Walk.unfinished`), so one that
  would go on forever has none for any depth.

`Walk.ranked` walks over the expressions of a rank, `Walk.statement` over a statement and
`Walk.program` over a whole program.
-/

namespace Boli

/-- A place in a list of tokens, kept as an index. -/
structure Place where
  /-- All tokens, from the first to the last. -/
  tokens : List Token
  /-- The index of the current token. -/
  index : Nat
  /-- The current token, as it was fetched from the list. -/
  current : Token
deriving DecidableEq, Repr

/-- Why a walk stops short. -/
inductive Trouble where
  /-- A token does not fit the grammar. -/
  | complaint (e : ParseError)
  /-- There is no token at an index. -/
  | outside
deriving DecidableEq, Repr

/-- A reading that moves an index, and that may be left without an outcome. -/
abbrev Walk := ExceptT Trouble (StateT Place Option)

namespace Walk

/-- A walk that has not come to an end. -/
def unfinished : Walk α := fun _ => none

/-! ## Steps -/

/-- The current token. -/
def current : Walk Token := do
  return (← get).current

/-- The token at an index. -/
def fetch (index : Nat) : Walk Token := do
  match (← get).tokens[index]? with
  | some t => return t
  | none => throw .outside

/-- The token `offset` places on, or the last one. -/
def peek (offset : Nat) : Walk Token := do
  let s ← get
  fetch (min (s.index + offset) (s.tokens.length - 1))

/-- Takes the current token, and fetches the next one unless it is the mark of the end. -/
def advance : Walk Token := do
  let s ← get
  if s.current.kind = .eof then
    return s.current
  else
    set { s with index := s.index + 1 }
    let next ← fetch (s.index + 1)
    set { s with index := s.index + 1, current := next }
    return s.current

/-- Complains about a token. -/
def failAt (t : Token) (complaint : Complaint) : Walk α :=
  throw (.complaint ⟨complaint, t.position⟩)

/-- Complains about the current token. -/
def fail (complaint : Complaint) : Walk α := do
  failAt (← current) complaint

/-- The current token is of the kind. -/
def isAt (kind : Kind) : Walk Bool := do
  return (← current).kind = kind

/-- Takes the current token if it is of one of the kinds. -/
def acceptAny (kinds : List Kind) : Walk (Option Token) := do
  if kinds.contains (← current).kind then
    return some (← advance)
  else
    return none

/-- Takes the current token if it is of the kind. -/
def accept (kind : Kind) : Walk (Option Token) := do
  if ← isAt kind then
    return some (← advance)
  else
    return none

/-- Takes the current token, or complains if it is of another kind. -/
def demand (kind : Kind) (complaint : Complaint) : Walk Token := do
  if ← isAt kind then advance else fail complaint

/-- Takes the current token, or complains with what is missing. -/
def expect (kind : Kind) (what : Expectation) : Walk Token :=
  demand kind (.expected what)

/-- Takes the current token, or complains by naming both kinds. -/
def eat (kind : Kind) : Walk Token := do
  demand kind (.wrongKind kind (← current).shown)

/-! ## Expressions -/

/-- A constant, which takes one token. -/
def constant (value : Value) : Walk Expr := do
  let t ← advance
  return .literal (some t.line) value t.value

/-- A number. -/
def numberLiteral : Walk Expr := do
  let t ← advance
  match Numeral.ofLexeme? t.value with
  | some x => return .literal (some t.line) (.number x) t.value
  | none => failAt t (.notANumber t.value)

mutual

/-- An expression of a rank. -/
def ranked : Nat → Rank → Walk Expr
  | 0, _ => unfinished
  | depth + 1, .binary level => do
    let left ← ranked depth level.operand
    chain depth level left
  | depth + 1, .sign => do
    let t ← current
    match signOp? t.kind with
    | some op =>
      let _ ← advance
      return .unary (some t.line) op (← ranked depth .sign)
    | none => ranked depth .accessor
  | depth + 1, .accessor => do
    let target ← ranked depth .primary
    accessors depth target
  | depth + 1, .primary => do
    let t ← current
    match t.kind with
    | .keyword .yes => constant (.boolean true)
    | .keyword .no => constant (.boolean false)
    | .keyword .nothing => constant .null
    | .number => numberLiteral
    | .text => constant (.text t.value)
    | .identifier => nameOrCall depth
    | .symbol .openBracket => listLiteral depth
    | .symbol .openParen => group depth
    | .keyword word =>
      match word.builtin? with
      | some builtin => builtinCall depth builtin
      | none => fail (.expected .expression)
    | _ => fail (.expected .expression)

/-- The operators of a level and their right operands. -/
def chain : Nat → Level → Expr → Walk Expr
  | 0, _, _ => unfinished
  | depth + 1, level, left => do
    let t ← current
    match level.op? t.kind with
    | some op =>
      let _ ← advance
      let right ← ranked depth level.operand
      chain depth level (.binary (some t.line) op left right)
    | none => return left

/-- The accessors behind an expression. -/
def accessors : Nat → Expr → Walk Expr
  | 0, _ => unfinished
  | depth + 1, target => do
    match ← acceptAny [.symbol .openBracket, .symbol .dot] with
    | none => return target
    | some t =>
      if t.kind = .symbol .openBracket then
        let position ← ranked depth .loosest
        let _ ← expect (.symbol .closeBracket) .indexEnd
        accessors depth (.index (some t.line) target position)
      else
        let name ← expect .identifier .propertyName
        accessors depth (.property (some t.line) target ⟨some name.line, name.value⟩)

/-- A variable, or a call of the function with that name. -/
def nameOrCall : Nat → Walk Expr
  | 0 => unfinished
  | depth + 1 => do
    let t ← advance
    if ← isAt (.symbol .openParen) then
      return .call (some t.line) ⟨some t.line, t.value⟩ (← arguments depth)
    else
      return .name (some t.line) t.value

/-- A call of a function that is part of the language. -/
def builtinCall : Nat → Builtin → Walk Expr
  | 0, _ => unfinished
  | depth + 1, builtin => do
    if (← peek 1).kind = .symbol .openParen then
      let t ← advance
      return .call (some t.line) ⟨some t.line, builtin.name⟩ (← arguments depth)
    else
      fail (.expected .expression)

/-- A list in brackets. -/
def listLiteral : Nat → Walk Expr
  | 0 => unfinished
  | depth + 1 => do
    let t ← advance
    let elements ← expressionsUntil depth (.symbol .closeBracket)
    let _ ← expect (.symbol .closeBracket) .elementsEnd
    return .list (some t.line) elements

/-- An expression in parentheses. -/
def group : Nat → Walk Expr
  | 0 => unfinished
  | depth + 1 => do
    let _ ← advance
    let e ← ranked depth .loosest
    let _ ← expect (.symbol .closeParen) .groupEnd
    return e

/-- The arguments of a call, in parentheses. -/
def arguments : Nat → Walk (List Expr)
  | 0 => unfinished
  | depth + 1 => do
    let _ ← expect (.symbol .openParen) .parenBeforeArguments
    let args ← expressionsUntil depth (.symbol .closeParen)
    let _ ← expect (.symbol .closeParen) .argumentsEnd
    return args

/-- No expressions before the closing token, or expressions separated by commas. -/
def expressionsUntil : Nat → Kind → Walk (List Expr)
  | 0, _ => unfinished
  | depth + 1, close => do
    if ← isAt close then return [] else expressions depth

/-- Expressions separated by commas. -/
def expressions : Nat → Walk (List Expr)
  | 0 => unfinished
  | depth + 1 => do
    let first ← ranked depth .loosest
    if (← accept (.symbol .comma)).isSome then
      return first :: (← expressions depth)
    else
      return [first]

end

/-! ## Statements that hold no others -/

section Plain

variable (depth : Nat)

/-- An expression. -/
def expression : Walk Expr :=
  ranked depth .loosest

/-- The semicolon behind a clause. -/
def semicolon (clause : Clause) : Walk Unit := do
  let _ ← expect (.symbol .semicolon) (.semicolon clause)

/-- A condition in parentheses behind a keyword. -/
def condition (word : String) : Walk Expr := do
  let _ ← expect (.symbol .openParen) (.parenAfterKeyword word)
  let e ← expression depth
  let _ ← expect (.symbol .closeParen) .conditionEnd
  return e

/-- The value behind an assignment sign, if there is one. -/
def initial? : Walk (Option Expr) := do
  if (← accept (.symbol .assign)).isSome then return some (← expression depth) else return none

/-- The declaration of a variable. -/
def declaration : Walk Stmt := do
  let t ← advance
  let name ← expect .identifier .variableName
  let initial ← initial? depth
  semicolon .declaration
  return .declare (some t.line) name.value initial

/-- An assignment. -/
def assignment : Walk Stmt := do
  let t ← advance
  let _ ← eat (.symbol .assign)
  let value ← expression depth
  semicolon .assignment
  return .assign (some t.line) t.value value

/-- A print statement. -/
def print : Walk Stmt := do
  let t ← advance
  let values ← expressions depth
  semicolon .print
  return .print (some t.line) values

/-- The print keyword at the place starts a call.  The look ahead goes over a slice of the list. -/
def isPrintCall : Walk Bool := do
  if (← peek 1).kind = .symbol .openParen then
    if (← peek 2).kind = .symbol .closeParen then
      return true
    else
      let s ← get
      return commaInside 0 (s.tokens.drop (s.index + 1))
  else
    return false

/-- Further parameters of a function, all different from those in `seen`. -/
def parameters : Nat → List String → Walk (List String)
  | 0, _ => unfinished
  | depth + 1, seen => do
    let t ← expect .identifier .parameterName
    if seen.contains t.value then
      failAt t (.duplicateParameter t.value)
    else if (← accept (.symbol .comma)).isSome then
      parameters depth (t.value :: seen)
    else
      return (t.value :: seen).reverse

/-- The parameters of a function up to the closing parenthesis. -/
def parameterList : Walk (List String) := do
  if ← isAt (.symbol .closeParen) then return [] else parameters depth []

/-- The value in front of a semicolon, if there is one. -/
def given? : Walk (Option Expr) := do
  if ← isAt (.symbol .semicolon) then return none else return some (← expression depth)

/-- The end of a call. -/
def giveBack : Walk Stmt := do
  let t ← advance
  let value ← given? depth
  semicolon .giveBack
  return .giveBack (some t.line) value

/-- A statement of one keyword. -/
def bare (make : Line → Stmt) (clause : Clause) : Walk Stmt := do
  let t ← advance
  semicolon clause
  return make (some t.line)

/-- An expression for its effects. -/
def expressionStatement : Walk Stmt := do
  let t ← current
  let e ← expression depth
  semicolon .expression
  return .expression (some t.line) e

end Plain

/-! ## Statements and programs -/

mutual

/-- A statement. -/
def statement : Nat → Walk Stmt
  | 0 => unfinished
  | depth + 1 => do
    let t ← current
    match t.kind with
    | .keyword .declare => declaration depth
    | .identifier =>
      if (← peek 1).kind = .symbol .assign then assignment depth else expressionStatement depth
    | .keyword .print => if ← isPrintCall then expressionStatement depth else print depth
    | .keyword .when => choice depth
    | .keyword .loop => loop depth
    | .keyword .function => function depth
    | .keyword .giveBack => giveBack depth
    | .keyword .stop => bare .stop .stop
    | .keyword .skip => bare .skip .skip
    | .symbol .openBrace => return .block (← block depth)
    | .keyword word =>
      if word.builtin?.isSome then expressionStatement depth else fail (.expected .statement)
    | _ => fail (.expected .statement)

/-- Statements up to a closing token or the end. -/
def statementsUntil : Nat → Kind → Walk (List Stmt)
  | 0, _ => unfinished
  | depth + 1, close => do
    let t ← current
    if t.kind = close ∨ t.kind = .eof then
      return []
    else
      let first ← statement depth
      return first :: (← statementsUntil depth close)

/-- Statements in braces. -/
def block : Nat → Walk Block
  | 0 => unfinished
  | depth + 1 => do
    let t ← expect (.symbol .openBrace) .blockStart
    let statements ← statementsUntil depth (.symbol .closeBrace)
    let _ ← expect (.symbol .closeBrace) .blockEnd
    return .mk (some t.line) statements

/-- A choice with its keyword. -/
def choice : Nat → Walk Stmt
  | 0 => unfinished
  | depth + 1 => do
    let keyword ← advance
    branch depth keyword

/-- What follows the keyword of a choice. -/
def branch : Nat → Token → Walk Stmt
  | 0, _ => unfinished
  | depth + 1, keyword => do
    let test ← condition depth keyword.value
    let consequent ← block depth
    let alternate ← alternate? depth
    return .branch (some keyword.line) test (.block consequent) alternate

/-- The other side of a choice, if there is one. -/
def alternate? : Nat → Walk (Option Stmt)
  | 0 => unfinished
  | depth + 1 => do
    match ← accept (.keyword .otherwiseWhen) with
    | some next => return some (← branch depth next)
    | none =>
      if (← accept (.keyword .otherwise)).isSome then
        if ← isAt (.keyword .when) then
          return some (← choice depth)
        else
          return some (.block (← block depth))
      else
        return none

/-- A loop. -/
def loop : Nat → Walk Stmt
  | 0 => unfinished
  | depth + 1 => do
    let t ← advance
    let test ← condition depth Keyword.loop.spelling
    let body ← block depth
    return .loop (some t.line) test body

/-- The definition of a function. -/
def function : Nat → Walk Stmt
  | 0 => unfinished
  | depth + 1 => do
    let t ← advance
    let name ← expect .identifier .functionName
    let _ ← expect (.symbol .openParen) .parenAfterName
    let params ← parameterList depth
    let _ ← expect (.symbol .closeParen) .parametersEnd
    let body ← block depth
    return .function (some t.line) name.value params body

end

/-- A whole program between its markers. -/
def program (depth : Nat) : Walk Program := do
  let t ← expect .start .start
  semicolon .start
  let statements ← statementsUntil depth .finish
  let _ ← expect .finish .finish
  semicolon .finish
  let _ ← demand .eof .afterProgram
  return .mk (some t.line) statements

end Walk

end Boli
