/-!
# Lines and cursors

A text in an editor is cut into lines, which keep what ends them.  A cursor in a line is given by
the number of UTF-16 units in front of it, and points at a word.

* `Text.lines` cuts a text into lines.
* `Text.wordAt` is the word at a cursor in a line.
* `Text.wordIn` is the word at a cursor in a text.
-/

namespace Boli.Text

/-- The character ends a line. -/
def endsLine (c : Char) : Bool :=
  c = '\n' || c = '\x0b' || c = '\x0c' || c = '\r' || c = '\x1c' || c = '\x1d' || c = '\x1e' ||
    c = '\x85' || c = '\u2028' || c = '\u2029'

/-- The lines of a text, each with its end. -/
def lines : List Char → List (List Char)
  | [] => []
  | '\r' :: '\n' :: cs => ['\r', '\n'] :: lines cs
  | c :: cs =>
    if endsLine c then [c] :: lines cs
    else
      match lines cs with
      | [] => [[c]]
      | line :: rest => (c :: line) :: rest

/-- The number of UTF-16 units of a character. -/
def units (c : Char) : Nat :=
  if c.toNat < 0x10000 then 1 else 2

/-- The number of UTF-16 units of a text. -/
def width : List Char → Nat
  | [] => 0
  | c :: cs => units c + width cs

/-- The number of characters that it takes to pass some units. -/
def charsFor (count : Nat) : List Char → Nat
  | [] => 0
  | c :: cs => if count = 0 then 0 else charsFor (count - units c) cs + 1
termination_by structural cs => cs

/-- The line without the carriage return in front of a line feed. -/
def joinReturn : List Char → List Char
  | '\r' :: '\n' :: cs => '\n' :: joinReturn cs
  | c :: cs => c :: joinReturn cs
  | [] => []

/-- The number of characters in front of a cursor in a line.  A cursor beyond the end of the line
stands in front of the last unit. -/
def column (line : List Char) (units : Nat) : Nat :=
  let shown := joinReturn line
  charsFor (if units > width shown then width shown - 1 else units) shown

/-- The character can be part of a word. -/
def isWord (c : Char) : Bool :=
  c.isAlphanum || c = '_'

/-- The part of a word that some characters end with, in front of a line feed if there is one. -/
def wordBefore (cs : List Char) : List Char :=
  let back :=
    match cs.reverse with
    | '\n' :: back => back
    | back => back
  (back.takeWhile isWord).reverse

/-- The word at a cursor in a line. -/
def wordAt (line : List Char) (units : Nat) : List Char :=
  let c := column line units
  wordBefore (line.take c) ++ (line.drop c).takeWhile isWord

/-- The word at a cursor in a text.  There is none below the last line. -/
def wordIn (text : String) (line units : Nat) : String :=
  match (lines text.toList)[line]? with
  | some cs => String.ofList (wordAt cs units)
  | none => ""

end Boli.Text
