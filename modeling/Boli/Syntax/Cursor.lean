import Boli.Number.Numeral
import Boli.Token.Basic

/-!
# Cursors

A cursor walks over the tokens of a program.  It holds the tokens passed, the current token and
those ahead of it, so there is a current token at all times.  The mark of the end is never passed.

* `Parser` is the monad of reading from a cursor.  What was read before an error stays read.
* `ParseError` is a complaint about the token at a place.
* `Cursor.advance`, `Cursor.peek`, `expect` and `accept` are the steps of a reading.

`Cursor.last_advance` says that a step keeps the mark of the end, and `Cursor.look?_natCast` that both
ways to look ahead agree.
-/

namespace Boli

/-! ## Complaints -/

/-- What a semicolon comes after. -/
inductive Clause where
  | start | finish | stop | skip | declaration | assignment | print | giveBack | expression
deriving DecidableEq, Repr

/-- The words for a clause in messages. -/
def Clause.phrase : Clause → String
  | start => "\"chala suru karu\""
  | finish => "\"bas re ata\""
  | stop => "\"thamb\""
  | skip => "\"pudheJa\""
  | declaration => "variable declaration"
  | assignment => "assignment"
  | print => "print statement"
  | giveBack => "return value"
  | expression => "expression"

/-- What a reading may miss. -/
inductive Expectation where
  | start | finish | statement | expression
  | blockStart | blockEnd
  | variableName | functionName | parameterName | propertyName
  | semicolon (after : Clause)
  | parenAfterKeyword (word : String) | parenAfterName | parenBeforeArguments
  | conditionEnd | parametersEnd | argumentsEnd | groupEnd
  | elementsEnd | indexEnd
deriving DecidableEq, Repr

/-- The words for an expectation in messages. -/
def Expectation.phrase : Expectation → String
  | start => "\"chala suru karu\" at the beginning of the program"
  | finish => "\"bas re ata\" at the end of the program"
  | statement => "statement"
  | expression => "expression"
  | blockStart => "\"\x7b\" to start a block"
  | blockEnd => "\"\x7d\" after block"
  | variableName => "variable name after \"heAhe\""
  | functionName => "function name after \"kaamKar\""
  | parameterName => "parameter name"
  | propertyName => "property name after \".\""
  | semicolon clause => "\";\" after " ++ clause.phrase
  | parenAfterKeyword word => "\"(\" after \"" ++ word ++ "\""
  | parenAfterName => "\"(\" after function name"
  | parenBeforeArguments => "\"(\" before arguments"
  | conditionEnd => "\")\" after condition"
  | parametersEnd => "\")\" after parameters"
  | argumentsEnd => "\")\" after arguments"
  | groupEnd => "\")\" after expression"
  | elementsEnd => "\"]\" after list elements"
  | indexEnd => "\"]\" after index"

/-- What is wrong with a token. -/
inductive Complaint where
  /-- Something else has to stand here. -/
  | expected (what : Expectation)
  /-- A token of another kind has to stand here. -/
  | wrongKind (wanted : Kind) (got : String)
  /-- The name of a parameter is already taken. -/
  | duplicateParameter (name : String)
  /-- Something follows the end of the program. -/
  | afterProgram
  /-- Something follows the end of a statement or an expression read on its own. -/
  | afterPhrase
  /-- A number token whose text is no number.  The text of a program never gives one. -/
  | notANumber (text : String)
  /-- A complaint in the words of the caller. -/
  | custom (message : String)
deriving DecidableEq, Repr

/-- The wording of a complaint. -/
def Complaint.message : Complaint → String
  | expected what => "Expected " ++ what.phrase ++ "."
  | wrongKind wanted got =>
    "Expected '" ++ wanted.spelling?.getD wanted.code ++ "' but got '" ++ got ++ "'."
  | duplicateParameter name => "Duplicate parameter '" ++ name ++ "'."
  | afterProgram => "Unexpected input after \"bas re ata;\"."
  | afterPhrase => "Unexpected input."
  | notANumber text => Numeral.complaint text
  | custom message => message

/-- A token that does not fit the grammar. -/
structure ParseError where
  /-- What is wrong. -/
  complaint : Complaint
  /-- The place of the token. -/
  position : Position
deriving DecidableEq, Repr

/-- The wording of an error with its place.  Only a text that is no number goes without. -/
def ParseError.message (e : ParseError) : String :=
  match e.complaint with
  | .notANumber text => Numeral.complaint text
  | complaint =>
    "Parse error at line " ++ toString e.position.line ++ ", column " ++
      toString e.position.column ++ ": " ++ complaint.message

/-! ## Cursors -/

/-- A place in a list of tokens. -/
structure Cursor where
  /-- The tokens passed, the nearest first. -/
  passed : List Token
  /-- The token at the cursor. -/
  current : Token
  /-- The tokens behind it. -/
  ahead : List Token
  /-- The number of tokens behind it. -/
  remaining : Nat
  /-- The number is kept up to date. -/
  remaining_eq : remaining = ahead.length
deriving DecidableEq, Repr

namespace Cursor

theorem getElem?_cons_length (t : Token) (ts : List Token) :
    (t :: ts)[ts.length]? = some (ts.getLastD t) := by
  induction ts generalizing t with
  | nil => rfl
  | cons u us ih => rw [List.length_cons, List.getElem?_cons_succ, ih, List.getLastD_cons]

/-- The cursor at the first of some tokens, which have to close with the mark of the end. -/
def ofTokens? : List Token → Option Cursor
  | [] => none
  | t :: ts => if (ts.getLastD t).kind = .eof then some ⟨[], t, ts, ts.length, rfl⟩ else none

/-- All tokens, from the first to the last. -/
def tokens (c : Cursor) : List Token := c.passed.reverse ++ c.current :: c.ahead

/-- The number of tokens passed. -/
def position (c : Cursor) : Nat := c.passed.length

/-- The last token. -/
def last (c : Cursor) : Token := c.ahead.getLastD c.current

/-- The token `offset` places on, or the last one. -/
def peek (c : Cursor) (offset : Nat) : Token :=
  (c.current :: c.ahead)[offset]?.getD c.last

/-- The token at an index from the first one, or at a negative index from the end, where the last
token has index minus one. -/
def at? (c : Cursor) (index : Int) : Option Token :=
  match index with
  | .ofNat n => c.tokens[n]?
  | .negSucc n => c.tokens.reverse[n]?

/-- The token any number of places on or back.  Forth from the last token there is only that token
itself, and back from the first one the count goes on at the end. -/
def look? (c : Cursor) (offset : Int) : Option Token :=
  c.at? (min (c.position + offset) (c.position + c.remaining))

/-- The cursor behind the current token, unless that is the mark of the end. -/
def advance : Cursor → Cursor
  | ⟨passed, current, [], n, h⟩ => ⟨passed, current, [], n, h⟩
  | ⟨passed, current, t :: ts, n, h⟩ =>
    if current.kind = .eof then ⟨passed, current, t :: ts, n, h⟩
    else ⟨current :: passed, t, ts, n - 1, by rw [h, List.length_cons, Nat.add_sub_cancel]⟩

/-- The tokens are those passed, the current one and those left. -/
theorem length_tokens (c : Cursor) : c.tokens.length = c.position + c.remaining + 1 := by
  rw [tokens, position, c.remaining_eq, List.length_append, List.length_reverse, List.length_cons,
    Nat.add_assoc]

theorem at?_position (c : Cursor) : c.at? c.position = some c.current := by
  simp [at?, tokens, position]

/-- Forth from the current token, both ways to look ahead agree. -/
theorem look?_natCast (c : Cursor) (offset : Nat) : c.look? offset = some (c.peek offset) := by
  have hlen : (c.current :: c.ahead).length = c.remaining + 1 := by
    rw [List.length_cons, c.remaining_eq]
  have hmin : min ((c.position : Int) + offset) (c.position + c.remaining) =
      ((c.position + min offset c.remaining : Nat) : Int) := by omega
  have hat (n : Nat) : c.at? ((c.position + n : Nat) : Int) = (c.current :: c.ahead)[n]? := by
    show c.tokens[c.position + n]? = _
    rw [tokens, List.getElem?_append_right (by simp [position])]
    simp [position]
  rw [look?, hmin, hat, peek]
  by_cases h : offset ≤ c.remaining
  · have hlt : offset < (c.current :: c.ahead).length := by
      rw [hlen]; exact Nat.lt_succ_of_le h
    rw [Nat.min_eq_left h, List.getElem?_eq_getElem hlt, Option.getD_some]
  · have hnone : (c.current :: c.ahead)[offset]? = none :=
      List.getElem?_eq_none (by rw [hlen]; exact Nat.lt_of_not_le h)
    rw [Nat.min_eq_right (Nat.le_of_not_le h), hnone, Option.getD_none, last, c.remaining_eq]
    exact getElem?_cons_length c.current c.ahead

/-- The mark of the end stays where it is. -/
theorem last_advance (c : Cursor) : c.advance.last = c.last := by
  obtain ⟨passed, current, ahead, n, h⟩ := c
  cases ahead with
  | nil => rfl
  | cons t ts =>
    simp only [advance]
    split
    · rfl
    · simp only [last, List.getLastD_cons]

end Cursor

/-! ## Reading -/

/-- A reading from a cursor. -/
abbrev Parser := EStateM ParseError Cursor

namespace Parser

/-- The current token. -/
def current : Parser Token := do
  return (← get).current

/-- The number of tokens ahead. -/
def remaining : Parser Nat := do
  return (← get).remaining

/-- Takes the current token. -/
def advance : Parser Token := do
  let t ← current
  modify Cursor.advance
  return t

/-- Complains about a token. -/
def failAt (t : Token) (complaint : Complaint) : Parser α :=
  throw ⟨complaint, t.position⟩

/-- Complains about the current token. -/
def fail (complaint : Complaint) : Parser α := do
  failAt (← current) complaint

/-- The current token is of the kind. -/
def isAt (kind : Kind) : Parser Bool := do
  return (← current).kind = kind

/-- Takes the current token if it is of one of the kinds. -/
def acceptAny (kinds : List Kind) : Parser (Option Token) := do
  if kinds.contains (← current).kind then
    return some (← advance)
  else
    return none

/-- Takes the current token if it is of the kind. -/
def accept (kind : Kind) : Parser (Option Token) := do
  if ← isAt kind then
    return some (← advance)
  else
    return none

/-- Takes the current token, or complains if it is of another kind. -/
def demand (kind : Kind) (complaint : Complaint) : Parser Token := do
  if ← isAt kind then advance else fail complaint

/-- Takes the current token, or complains with what is missing. -/
def expect (kind : Kind) (what : Expectation) : Parser Token :=
  demand kind (.expected what)

/-- Takes the current token, or complains by naming both kinds. -/
def eat (kind : Kind) : Parser Token := do
  demand kind (.wrongKind kind (← current).shown)

/-- Items separated by commas, as many as `fuel` commas allow. -/
def commaSeparated (item : Parser α) : Nat → Parser (List α)
  | 0 => do
    return [← item]
  | fuel + 1 => do
    let first ← item
    if (← accept (.symbol .comma)).isSome then
      return first :: (← commaSeparated item fuel)
    else
      return [first]

/-- No items before the closing token, or items separated by commas. -/
def itemsUntil (close : Kind) (item : Parser α) : Parser (List α) := do
  if ← isAt close then return [] else commaSeparated item (← remaining)

end Parser

end Boli
