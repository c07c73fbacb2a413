import Boli.Text.Printable

/-!
# Quoted text

The quoted form shows a text on one line.  Single quotes enclose it, unless it holds a single quote
and no double quote.  The backslash, the enclosing quote, the line feed, the carriage return and the
tab have short escapes, and a character that is not printable is written by its code point.

* `quoted` is the quoted form.
* `hex` writes a number in a fixed width of hexadecimal digits.
-/

namespace Boli.Text

/-- The last `width` hexadecimal digits of a number, most significant first. -/
def hex (width code : Nat) : List Char :=
  match width with
  | 0 => []
  | width + 1 => hex width (code / 16) ++ [Nat.digitChar (code % 16)]
termination_by structural width

/-- The escape of a character that is not printable: the shortest of the three widths that fits. -/
def codeEscape (code : Nat) : List Char :=
  if code < 0x100 then '\\' :: 'x' :: hex 2 code
  else if code < 0x10000 then '\\' :: 'u' :: hex 4 code
  else '\\' :: 'U' :: hex 8 code

/-- The characters that stand for one character between quotes. -/
def quotedChar (quote c : Char) : List Char :=
  if c = quote ∨ c = '\\' then ['\\', c]
  else if c = '\n' then ['\\', 'n']
  else if c = '\r' then ['\\', 'r']
  else if c = '\t' then ['\\', 't']
  else if isPrintable c then [c]
  else codeEscape c.toNat

/-- The quote that encloses a text. -/
def quoteFor (cs : List Char) : Char :=
  if cs.contains '\'' && !cs.contains '"' then '"' else '\''

/-- The quoted form of a text. -/
def quoted (text : String) : String :=
  let cs := text.toList
  let quote := quoteFor cs
  String.ofList (quote :: cs.flatMap (quotedChar quote) ++ [quote])

end Boli.Text
