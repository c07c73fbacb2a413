/-!
# Decimal digits

A number may be written in the digits of any script.  Unicode gives every script that counts by ten
a run of ten consecutive code points, zero first, so one code point per script describes them all.

* `digit?` is the value of a decimal digit, and `isDigit` says that there is one.
* `ofDigits` reads a run of digits as a natural number, most significant digit first.  It takes many
  digits at a time, which `ofDigits_eq` says is the same as one after the other.
-/

namespace Boli.Text

/-- The code points of the zeros, one per script, in increasing order. -/
def zeros : List Nat :=
  [0x30, 0x660, 0x6F0, 0x7C0, 0x966, 0x9E6, 0xA66, 0xAE6, 0xB66, 0xBE6, 0xC66, 0xCE6,
    0xD66, 0xDE6, 0xE50, 0xED0, 0xF20, 0x1040, 0x1090, 0x17E0, 0x1810, 0x1946, 0x19D0,
    0x1A80, 0x1A90, 0x1B50, 0x1BB0, 0x1C40, 0x1C50, 0xA620, 0xA8D0, 0xA900, 0xA9D0,
    0xA9F0, 0xAA50, 0xABF0, 0xFF10, 0x104A0, 0x10D30, 0x11066, 0x110F0, 0x11136,
    0x111D0, 0x112F0, 0x11450, 0x114D0, 0x11650, 0x116C0, 0x11730, 0x118E0, 0x11950,
    0x11C50, 0x11D50, 0x11DA0, 0x16A60, 0x16AC0, 0x16B50, 0x1D7CE, 0x1D7D8, 0x1D7E2,
    0x1D7EC, 0x1D7F6, 0x1E140, 0x1E2F0, 0x1E950, 0x1FBF0]

/-- The zero whose run of ten holds the code point. -/
def zeroOf? (code : Nat) : Option Nat :=
  zeros.find? fun origin => origin ≤ code && code < origin + 10

/-- The value of a decimal digit of any script. -/
def digit? (c : Char) : Option Nat :=
  (zeroOf? c.toNat).map (c.toNat - ·)

/-- The character is a decimal digit of some script. -/
def isDigit (c : Char) : Bool :=
  (digit? c).isSome

/-- The natural number written by a run of digits, continuing from the digits read so far. -/
def ofDigitsFrom (read : Nat) : List Char → Nat
  | [] => read
  | c :: cs => ofDigitsFrom (10 * read + (digit? c).getD 0) cs
termination_by structural cs => cs

/-- The number of digits that are put together before they join a larger number. -/
def groupSize : Nat := 18

/-- The natural number written by a run of digits, continuing from the digits read so far, the last
`count` of which are still apart.  Digits join in groups, since a step with a large number costs as
much as one with many digits. -/
def ofDigitGroups (read group count : Nat) : List Char → Nat
  | [] => read * Nat.pow 10 count + group
  | c :: cs =>
    if count < groupSize then
      ofDigitGroups read (10 * group + (digit? c).getD 0) (count + 1) cs
    else
      ofDigitGroups (read * Nat.pow 10 count + group) ((digit? c).getD 0) 1 cs
termination_by structural cs => cs

/-- The natural number written by a run of digits. -/
def ofDigits (cs : List Char) : Nat :=
  ofDigitGroups 0 0 0 cs

theorem ofDigitsFrom_append (read : Nat) (cs ds : List Char) :
    ofDigitsFrom read (cs ++ ds) = ofDigitsFrom (ofDigitsFrom read cs) ds := by
  induction cs generalizing read with
  | nil => rfl
  | cons c cs ih => exact ih _

/-- A group of digits that is put aside counts as if it had been read. -/
theorem ofDigitGroups_eq (read group count : Nat) (cs : List Char) :
    ofDigitGroups read group count cs = ofDigitsFrom (read * Nat.pow 10 count + group) cs := by
  induction cs generalizing read group count with
  | nil => rfl
  | cons c cs ih =>
    rw [ofDigitGroups, ofDigitsFrom]
    split
    · have hpow : Nat.pow 10 (count + 1) = Nat.pow 10 count * 10 := rfl
      rw [ih, hpow, ← Nat.mul_assoc, Nat.mul_comm _ 10, Nat.mul_add, Nat.add_assoc]
    · have hpow : Nat.pow 10 1 = 10 := rfl
      rw [ih, hpow, Nat.mul_comm]

/-- Putting digits together in groups makes no difference. -/
theorem ofDigits_eq (cs : List Char) : ofDigits cs = ofDigitsFrom 0 cs := by
  rw [ofDigits, ofDigitGroups_eq, Nat.zero_mul, Nat.zero_add]

end Boli.Text
