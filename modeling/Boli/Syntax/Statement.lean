import Boli.Syntax.Expression
import Boli.Token.Scan

/-!
# Reading statements and programs

A statement is known by its first token, with two exceptions.  A name followed by the assignment
sign starts an assignment and any other expression otherwise.  The print keyword starts a call when
the parentheses behind it hold a comma or nothing, and a print statement otherwise.

As for expressions, the definitions take the reading of a whole statement as an argument, and
`statementWithin` closes the circle with a bound on the nesting of blocks.
-/

namespace Boli

/-- The tokens behind the print keyword go on like the arguments of a call: a comma comes up while
exactly `depth` parentheses and brackets are open, one of which is the first. -/
def commaInside : Nat → List Token → Bool
  | _, [] => false
  | depth, t :: ts =>
    match t.kind with
    | .symbol .openParen | .symbol .openBracket => commaInside (depth + 1) ts
    | .symbol .closeParen | .symbol .closeBracket =>
      if depth ≤ 1 then false else commaInside (depth - 1) ts
    | .symbol .comma => if depth = 1 then true else commaInside depth ts
    | .symbol .semicolon | .eof => false
    | _ => commaInside depth ts
termination_by structural _ ts => ts

/-- The print keyword at the cursor starts a call. -/
def Cursor.isPrintCall (c : Cursor) : Bool :=
  (c.peek 1).kind = .symbol .openParen &&
    ((c.peek 2).kind = .symbol .closeParen || commaInside 0 c.ahead)

namespace Parser

/-- The semicolon behind a clause. -/
def semicolon (clause : Clause) : Parser Unit := do
  let _ ← expect (.symbol .semicolon) (.semicolon clause)

/-- Statements up to a closing token or the end, at most `fuel` of them. -/
def statementsUntil (close : Kind) (stmt : Parser Stmt) : Nat → Parser (List Stmt)
  | 0 => return []
  | fuel + 1 => do
    let t ← current
    if t.kind = close ∨ t.kind = .eof then
      return []
    else
      let first ← stmt
      return first :: (← statementsUntil close stmt fuel)

/-- Statements in braces. -/
def block (stmt : Parser Stmt) : Parser Block := do
  let t ← expect (.symbol .openBrace) .blockStart
  let statements ← statementsUntil (.symbol .closeBrace) stmt (← remaining)
  let _ ← expect (.symbol .closeBrace) .blockEnd
  return .mk (some t.line) statements

/-- A condition in parentheses behind a keyword. -/
def condition (word : String) : Parser Expr := do
  let _ ← expect (.symbol .openParen) (.parenAfterKeyword word)
  let e ← expression
  let _ ← expect (.symbol .closeParen) .conditionEnd
  return e

/-- The value behind an assignment sign, if there is one. -/
def initial? : Parser (Option Expr) := do
  if (← accept (.symbol .assign)).isSome then some <$> expression else return none

/-- The declaration of a variable. -/
def declaration : Parser Stmt := do
  let t ← advance
  let name ← expect .identifier .variableName
  let initial ← initial?
  semicolon .declaration
  return .declare (some t.line) name.value initial

/-- An assignment. -/
def assignment : Parser Stmt := do
  let t ← advance
  let _ ← eat (.symbol .assign)
  let value ← expression
  semicolon .assignment
  return .assign (some t.line) t.value value

/-- A print statement. -/
def print : Parser Stmt := do
  let t ← advance
  let values ← commaSeparated expression (← remaining)
  semicolon .print
  return .print (some t.line) values

/-- The other side of a choice, if there is one, given how to read a choice behind its keyword. -/
def alternate? (stmt : Parser Stmt) (choice : Token → Parser Stmt) : Parser (Option Stmt) := do
  match ← accept (.keyword .otherwiseWhen) with
  | some next => some <$> choice next
  | none =>
    if (← accept (.keyword .otherwise)).isSome then
      if ← isAt (.keyword .when) then
        some <$> choice (← advance)
      else
        (some ∘ Stmt.block) <$> block stmt
    else
      return none

/-- What follows the keyword of a choice, with at most `fuel` further choices chained to it. -/
def branch (stmt : Parser Stmt) : Nat → Token → Parser Stmt
  | 0, keyword => failAt keyword (.expected .statement)
  | fuel + 1, keyword => do
    let test ← condition keyword.value
    let consequent ← block stmt
    let alternate ← alternate? stmt (branch stmt fuel)
    return .branch (some keyword.line) test (.block consequent) alternate

/-- A loop. -/
def loop (stmt : Parser Stmt) : Parser Stmt := do
  let t ← advance
  let test ← condition Keyword.loop.spelling
  let body ← block stmt
  return .loop (some t.line) test body

/-- Further parameters of a function, at most `fuel` of them, all different from those in `seen`. -/
def parameters (seen : List String) : Nat → Parser (List String)
  | 0 => return seen.reverse
  | fuel + 1 => do
    let t ← expect .identifier .parameterName
    if seen.contains t.value then
      failAt t (.duplicateParameter t.value)
    else if (← accept (.symbol .comma)).isSome then
      parameters (t.value :: seen) fuel
    else
      return (t.value :: seen).reverse

/-- The parameters of a function up to the closing parenthesis. -/
def parameterList : Parser (List String) := do
  if ← isAt (.symbol .closeParen) then return [] else parameters [] ((← remaining) + 1)

/-- The definition of a function. -/
def function (stmt : Parser Stmt) : Parser Stmt := do
  let t ← advance
  let name ← expect .identifier .functionName
  let _ ← expect (.symbol .openParen) .parenAfterName
  let params ← parameterList
  let _ ← expect (.symbol .closeParen) .parametersEnd
  let body ← block stmt
  return .function (some t.line) name.value params body

/-- The value in front of a semicolon, if there is one. -/
def given? : Parser (Option Expr) := do
  if ← isAt (.symbol .semicolon) then return none else some <$> expression

/-- The end of a call. -/
def giveBack : Parser Stmt := do
  let t ← advance
  let value ← given?
  semicolon .giveBack
  return .giveBack (some t.line) value

/-- A statement of one keyword. -/
def bare (make : Line → Stmt) (clause : Clause) : Parser Stmt := do
  let t ← advance
  semicolon clause
  return make (some t.line)

/-- An expression for its effects. -/
def expressionStatement : Parser Stmt := do
  let t ← current
  let e ← expression
  semicolon .expression
  return .expression (some t.line) e

/-- A statement, given how to read the statements inside it. -/
def statementWith (stmt : Parser Stmt) : Parser Stmt := do
  let c ← get
  match c.current.kind with
  | .keyword .declare => declaration
  | .identifier =>
    if (c.peek 1).kind = .symbol .assign then assignment else expressionStatement
  | .keyword .print => if c.isPrintCall then expressionStatement else print
  | .keyword .when => branch stmt (c.remaining + 1) (← advance)
  | .keyword .loop => loop stmt
  | .keyword .function => function stmt
  | .keyword .giveBack => giveBack
  | .keyword .stop => bare .stop .stop
  | .keyword .skip => bare .skip .skip
  | .symbol .openBrace => Stmt.block <$> block stmt
  | .keyword word =>
    if word.builtin?.isSome then expressionStatement else fail (.expected .statement)
  | _ => fail (.expected .statement)

/-- A statement with at most `depth` statements around the innermost one. -/
def statementWithin : Nat → Parser Stmt
  | 0 => fail (.expected .statement)
  | depth + 1 => statementWith (statementWithin depth)

/-- A statement. -/
def statement : Parser Stmt := do
  statementWithin ((← remaining) + 1)

/-- A whole program between its markers. -/
def program : Parser Program := do
  let t ← expect .start .start
  semicolon .start
  let statements ← statementsUntil .finish statement (← remaining)
  let _ ← expect .finish .finish
  semicolon .finish
  let _ ← demand .eof .afterProgram
  return .mk (some t.line) statements

/-- A phrase that the end has to follow. -/
def alone (phrase : Parser α) : Parser α := do
  let a ← phrase
  let _ ← demand .eof .afterPhrase
  return a

end Parser

/-! ## Reading a text -/

/-- Why a text is no program. -/
inductive SourceError where
  /-- It does not split into tokens. -/
  | lex (e : LexError)
  /-- Its tokens do not fit the grammar. -/
  | parse (e : ParseError)
deriving DecidableEq, Repr

/-- The wording of an error. -/
def SourceError.message : SourceError → String
  | lex e => e.message
  | parse e => e.message

/-- Reads a phrase from the tokens of a text. -/
def Parser.ofTokens (phrase : Parser α) (tokens : List Token) : Except SourceError α :=
  match Cursor.ofTokens? tokens with
  | none => .error (.parse ⟨.afterPhrase, .first⟩)
  | some c =>
    match phrase c with
    | .ok a _ => .ok a
    | .error e _ => .error (.parse e)

/-- Reads a phrase from a text. -/
def Parser.ofText (phrase : Parser α) (text : String) : Except SourceError α :=
  match Token.ofText text with
  | .ok tokens => phrase.ofTokens tokens
  | .error e => .error (.lex e)

/-- The program that a text holds. -/
def Program.ofText (text : String) : Except SourceError Program :=
  Parser.program.ofText text

end Boli
