import Boli.Token.Kind
import Boli.Text.Digit
import Boli.Text.Word

/-!
# Lexemes

The lexeme at the head of a text: the longest stretch of characters that belongs together, and what
it is.  Besides tokens there are gaps, which are blanks, line ends and comments, and faults, which
no token can start with.

* `Lexeme.read` reads the lexeme that starts with a character.  It also looks at the character in
  front, since a program marker must not continue a word.
* `Extent` pairs the lexeme with the number of its characters, which is never zero.

The rules come in a fixed order: markers, numbers, quoted texts, words, comments, symbols, blanks.
A word is made of ASCII characters.  A marker, though, must not touch a word character of any
script, and the letters of a marker have forms beyond ASCII.
-/

namespace Boli

open Boli.Text

/-- Why a text cannot be split into tokens. -/
inductive LexFault where
  /-- A comment is not closed. -/
  | unterminatedComment
  /-- A quoted text is not closed on its line. -/
  | unterminatedText
  /-- No token starts with the character. -/
  | unexpected (c : Char)
deriving DecidableEq, Repr

/-- The wording of a fault. -/
def LexFault.message : LexFault → String
  | unterminatedComment => "Unterminated block comment"
  | unterminatedText => "Unterminated string"
  | unexpected c => "Unexpected character '" ++ c.toString ++ "'"

/-- What stands at the head of a text. -/
inductive Lexeme where
  /-- A token and the text it stands for. -/
  | token (kind : Kind) (value : List Char)
  /-- Blanks or a comment. -/
  | gap
  /-- No token. -/
  | fault (cause : LexFault)
deriving DecidableEq, Repr

/-- A lexeme and how far it reaches. -/
structure Extent where
  /-- The lexeme. -/
  lexeme : Lexeme
  /-- The number of characters after the first one. -/
  more : Nat
deriving DecidableEq, Repr

namespace Lexeme

/-! ## Words and markers -/

/-- The character can start a word. -/
def startsWord (c : Char) : Bool :=
  c.isAlpha || c == '_'

/-- The character can continue a word. -/
def continuesWord (c : Char) : Bool :=
  c.isAlphanum || c == '_'

/-- A blank within a line. -/
def isSpace (c : Char) : Bool :=
  c == ' ' || c == '\t'

/-- The character is the given small letter in one of its forms: small or capital, the long s, or
the Kelvin sign. -/
def isLetter (letter c : Char) : Bool :=
  c.toLower == letter || (letter == 's' && c == '\u017f') || (letter == 'k' && c == '\u212a')

/-- What follows a word, if the text starts with it in any mixture of cases. -/
def afterWord? : List Char → List Char → Option (List Char)
  | [], cs => some cs
  | _ :: _, [] => none
  | letter :: word, c :: cs => if isLetter letter c then afterWord? word cs else none
termination_by structural word => word

/-- What follows a sequence of words that are separated by blanks on one line. -/
def afterWords? : List (List Char) → List Char → Option (List Char)
  | [], cs => some cs
  | [word], cs => afterWord? word cs
  | word :: words, cs =>
    match afterWord? word cs with
    | some (c :: rest) => if isSpace c then afterWords? words (rest.dropWhile isSpace) else none
    | _ => none
termination_by structural words => words

/-- The words of the opening marker. -/
def startWords : List (List Char) := ["chala".toList, "suru".toList, "karu".toList]

/-- The words of the closing marker. -/
def finishWords : List (List Char) := ["bas".toList, "re".toList, "ata".toList]

/-- The number of characters of a marker at the head of a text, if one stands there by itself. -/
def marker? (words : List (List Char)) (before : Option Char) (cs : List Char) : Option Nat :=
  if before.any isWordCharacter then none
  else
    match afterWords? words cs with
    | some rest => if rest.head?.any isWordCharacter then none else some (cs.length - rest.length)
    | none => none

/-! ## Literals and comments -/

/-- The number of characters that continue a number after its first digit: digits, and a point with
digits behind it. -/
def numberMore (cs : List Char) : Nat :=
  let whole := (cs.takeWhile isDigit).length
  match cs.drop whole with
  | '.' :: fraction =>
    match (fraction.takeWhile isDigit).length with
    | 0 => whole
    | n + 1 => whole + 1 + (n + 1)
  | _ => whole

/-- The character that an escaped character stands for. -/
def unescape : Char → Char
  | 'n' => '\n'
  | 't' => '\t'
  | 'r' => '\r'
  | c => c

/-- The meaning of a quoted text up to its closing quote, and the number of characters including
that quote.  A line feed ends the search. -/
def quotedBody? (quote : Char) : List Char → Option (List Char × Nat)
  | [] => none
  | '\\' :: c :: cs =>
    if c = '\n' then none
    else (quotedBody? quote cs).map fun (body, n) => (unescape c :: body, n + 2)
  | c :: cs =>
    if c = quote then some ([], 1)
    else if c = '\n' ∨ c = '\\' then none
    else (quotedBody? quote cs).map fun (body, n) => (c :: body, n + 1)
termination_by structural cs => cs

/-- The number of characters up to the end of a comment, including the two that close it. -/
def commentBody? : List Char → Option Nat
  | '*' :: '/' :: _ => some 2
  | _ :: cs => (commentBody? cs).map (· + 1)
  | [] => none
termination_by structural cs => cs

/-! ## The lexeme at the head -/

/-- The kind of a word. -/
def wordKind (word : List Char) : Kind :=
  match Keyword.ofWord? word with
  | some keyword => .keyword keyword
  | none => .identifier

/-- A lexeme that is a symbol, a line end or a blank, or no lexeme at all. -/
def readMark (c : Char) (cs : List Char) : Extent :=
  match Symbol.ofChars? c cs.head? with
  | some symbol => ⟨.token (.symbol symbol) symbol.spelling.toList, symbol.spelling.length - 1⟩
  | none =>
    if c = '\n' ∨ c = '\r' ∨ isSpace c then ⟨.gap, 0⟩ else ⟨.fault (.unexpected c), 0⟩

/-- A lexeme that starts with a slash: a comment or the symbol. -/
def readSlash (cs : List Char) : Extent :=
  match cs with
  | '*' :: rest =>
    match commentBody? rest with
    | some n => ⟨.gap, n + 1⟩
    | none => ⟨.fault .unterminatedComment, 0⟩
  | '/' :: rest => ⟨.gap, 1 + (rest.takeWhile (· ≠ '\n')).length⟩
  | _ => readMark '/' cs

/-- A lexeme that is no marker. -/
def readPlain (c : Char) (cs : List Char) : Extent :=
  if isDigit c then
    let more := numberMore cs
    ⟨.token .number (c :: cs.take more), more⟩
  else if c = '"' ∨ c = '\'' then
    match quotedBody? c cs with
    | some (body, n) => ⟨.token .text body, n⟩
    | none => ⟨.fault .unterminatedText, 0⟩
  else if startsWord c then
    let word := c :: cs.takeWhile continuesWord
    ⟨.token (wordKind word) word, word.length - 1⟩
  else if c = '/' then readSlash cs
  else readMark c cs

/-- The lexeme of the text `c :: cs` when the character `before` stands in front of it. -/
def read (before : Option Char) (c : Char) (cs : List Char) : Extent :=
  match marker? startWords before (c :: cs) with
  | some n => ⟨.token .start ((c :: cs).take n), n - 1⟩
  | none =>
    match marker? finishWords before (c :: cs) with
    | some n => ⟨.token .finish ((c :: cs).take n), n - 1⟩
    | none => readPlain c cs

end Lexeme

end Boli
