/-!
# Blank characters

The white space that may surround a number in a text value.  `trim` removes it on both sides.
`trimOuter` does the same without the four separators among the control characters, which are white
space in a text value only.
-/

namespace Boli.Text

/-- The code points that count as white space around a number. -/
def isBlankCode (code : Nat) : Bool :=
  (0x9 ≤ code && code ≤ 0xD) || (0x1C ≤ code && code ≤ 0x20) || code == 0x85 || code == 0xA0 ||
    code == 0x1680 || (0x2000 ≤ code && code ≤ 0x200A) || code == 0x2028 || code == 0x2029 ||
    code == 0x202F || code == 0x205F || code == 0x3000

/-- The character is white space. -/
def isBlank (c : Char) : Bool :=
  isBlankCode c.toNat

/-- The text without the white space in front of it. -/
def trimLeft (cs : List Char) : List Char :=
  cs.dropWhile isBlank

/-- The text without the white space on either side. -/
def trim (cs : List Char) : List Char :=
  (trimLeft (trimLeft cs).reverse).reverse

/-- The character is white space and no separator among the control characters. -/
def isOuterBlank (c : Char) : Bool :=
  isBlank c && !(0x1C ≤ c.toNat && c.toNat ≤ 0x1F)

/-- The text without the white space on either side, separators apart. -/
def trimOuter (cs : List Char) : List Char :=
  ((cs.dropWhile isOuterBlank).reverse.dropWhile isOuterBlank).reverse

theorem trimLeft_of_head {c : Char} (cs : List Char) (h : isBlank c = false) :
    trimLeft (c :: cs) = c :: cs := by
  simp [trimLeft, h]

end Boli.Text
