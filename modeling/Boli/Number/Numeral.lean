import Boli.Number.Decimal
import Boli.Text.Digit
import Boli.Text.Blank
import Boli.Text.Quoted

/-!
# Numerals

The texts of numbers.  There are two ways to read them, both with digits of any script.

* `ofText?` reads a text value: digits with at most one point, and never an exponent.
* `ofNotation?` reads every notation for a double: with an exponent, with underscores between the
  digits, and with names for the values that have no digits.

Writing has two forms.

* `written` shows a double exactly as a program text or a dump would: the shortest decimal that
  reads back, positional with a point from `0.0001` up to sixteen digits before the point, and with
  a signed exponent of at least two digits elsewhere.
* `display?` shows a double as a script prints it: a whole number has all its digits and no point,
  and the sign of zero is dropped.
-/

namespace Boli.Numeral

open Boli.Text

/-! ## Reading -/

/-- The decimal written by digits before and after a point. -/
def ofParts (whole fraction : List Char) : Decimal :=
  ⟨ofDigits (whole ++ fraction), -fraction.length⟩

/-- Reads digits with an optional point, which needs a digit on one side at least. -/
def readUnsigned? (cs : List Char) : Option Decimal :=
  let whole := cs.takeWhile isDigit
  match cs.dropWhile isDigit with
  | [] => if whole.isEmpty then none else some (ofParts whole [])
  | '.' :: fraction =>
    if fraction.all isDigit && !(whole.isEmpty && fraction.isEmpty) then
      some (ofParts whole fraction)
    else
      none
  | _ => none

/-- Reads an unsigned number after an optional sign. -/
def readSigned? : List Char → Option Float
  | '-' :: cs => (readUnsigned? cs).map (Decimal.toDouble true)
  | '+' :: cs => (readUnsigned? cs).map (Decimal.toDouble false)
  | cs => (readUnsigned? cs).map (Decimal.toDouble false)

/-- The number that a text value holds, if it is numeric.  White space around it is ignored. -/
def ofText? (text : String) : Option Float :=
  readSigned? (trim text.toList)

/-! ## Any notation -/

/-- The text without its underscores, each of which has to stand between two digits. -/
def unseparated? (afterDigit : Bool) : List Char → Option (List Char)
  | [] => some []
  | c :: cs =>
    if c = '_' then
      if afterDigit && cs.head?.any isDigit then unseparated? false cs else none
    else
      (unseparated? (isDigit c) cs).map (c :: ·)
termination_by structural cs => cs

/-- Reads the digits of an exponent. -/
def readDigits? (cs : List Char) : Option Nat :=
  if cs.isEmpty || !cs.all isDigit then none else some (ofDigits cs)

/-- Reads an exponent. -/
def readExponent? : List Char → Option Int
  | '-' :: cs => (readDigits? cs).map fun n => -n
  | '+' :: cs => (readDigits? cs).map fun n => n
  | cs => (readDigits? cs).map fun n => n

/-- Reads an unsigned number with an optional exponent. -/
def readScientific? (cs : List Char) : Option Decimal :=
  let mantissa := cs.takeWhile fun c => c != 'e' && c != 'E'
  match cs.drop mantissa.length with
  | [] => readUnsigned? mantissa
  | _ :: exponent => do
    let d ← readUnsigned? mantissa
    let e ← readExponent? exponent
    return d.scaled e

/-- Reads an unsigned number or the name of one. -/
def readMagnitude? (negative : Bool) (cs : List Char) : Option Float :=
  match String.ofList (cs.map Char.toLower) with
  | "inf" | "infinity" => some (Double.infinity negative)
  | "nan" => some Double.nan
  | _ => (readScientific? cs).map (Decimal.toDouble negative)

/-- The number that a text stands for in any notation. -/
def ofNotation? (text : String) : Option Float := do
  let cs ← unseparated? false (trimOuter text.toList)
  match cs with
  | '-' :: cs => readMagnitude? true cs
  | '+' :: cs => readMagnitude? false cs
  | cs => readMagnitude? false cs

/-- The complaint about a text that is no number in any notation. -/
def complaint (text : String) : String :=
  "could not convert string to float: " ++ quoted text

/-- The value of a number token.  In a program text it is a plain numeral.  A token built by hand
may use any notation. -/
def ofLexeme? (lexeme : String) : Option Float :=
  match readUnsigned? lexeme.toList with
  | some d => some (d.toDouble false)
  | none => ofNotation? lexeme

/-! ## Writing -/

/-- The digits of a number without the zeros at their end. -/
def significant (n : Nat) : List Char :=
  ((Nat.toDigits 10 n).reverse.dropWhile (· == '0')).reverse

/-- The digits of an exponent, at least two. -/
def exponentDigits (n : Nat) : List Char :=
  if n < 10 then '0' :: Nat.toDigits 10 n else Nat.toDigits 10 n

/-- Digits whose first one stands at `place`, written around a point. -/
def positional (digits : List Char) (place : Int) : List Char :=
  if place < 0 then
    '0' :: '.' :: List.replicate (-place - 1).toNat '0' ++ digits
  else
    let before := place.toNat + 1
    if digits.length ≤ before then
      digits ++ List.replicate (before - digits.length) '0' ++ ['.', '0']
    else
      digits.take before ++ '.' :: digits.drop before

/-- Digits whose first one stands at `place`, written with an exponent. -/
def scientific (digits : List Char) (place : Int) : List Char :=
  let mantissa :=
    match digits with
    | d :: e :: rest => d :: '.' :: e :: rest
    | _ => digits
  let sign := if place < 0 then '-' else '+'
  mantissa ++ 'e' :: sign :: exponentDigits place.natAbs

/-- A decimal in the form that its size asks for. -/
def layout (d : Decimal) : List Char :=
  let digits := significant d.coefficient
  let place : Int := (Nat.toDigits 10 d.coefficient).length + d.exponent - 1
  if -4 ≤ place ∧ place < 16 then positional digits place else scientific digits place

/-- The text of the positive double with a given ordinal. -/
def writtenMagnitude (n : Nat) : List Char :=
  if n = 0 then ['0', '.', '0']
  else if n = Double.infinite then ['i', 'n', 'f']
  else layout (Decimal.shortest n)

/-- The shortest text of a double that reads back as the same double. -/
def written (x : Float) : String :=
  if x.isNaN then "nan"
  else
    let text := writtenMagnitude (Double.magnitude x)
    String.ofList (if Double.isNegative x then '-' :: text else text)

/-- The text of a number as scripts print it.  A whole number is printed as an integer. -/
def display? (x : Float) : Option String :=
  if x.isNaN then some "NaN"
  else if x.isInf then some (if Double.isNegative x then "-Infinity" else "Infinity")
  else if Double.isWhole x then (Double.toInt? x).map toString
  else some (written x)

/-- Every number has a text. -/
theorem isSome_display? (x : Float) : (display? x).isSome := by
  rw [display?]
  split
  · rfl
  · split
    · rfl
    · split
      · next hwhole => rw [Double.toInt?_of_isWhole hwhole]; rfl
      · rfl

end Boli.Numeral
