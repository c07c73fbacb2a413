import Boli.Number.Double

/-!
# Decimals

A decimal is a coefficient and a power of ten.  It is read as the double nearest to it, and a finite
double is written as the decimal with the fewest digits that reads back as that double.

* `Decimal.ordinal` rounds a decimal to a double.
* `Decimal.shortest` is the decimal that stands for a double: it tries one digit, two digits and so
  on, up to the seventeen that always suffice, and of two decimals with the same number of digits it
  takes the nearer one.

`ordinal_shortest` says that the shortest decimal reads back as the double it stands for.
-/

namespace Boli

/-- A non-negative decimal number. -/
structure Decimal where
  /-- The digits, as one number. -/
  coefficient : Nat
  /-- The power of ten that the coefficient is multiplied with. -/
  exponent : Int
deriving DecidableEq, Repr

namespace Decimal

/-- The numerator of a decimal, over `den`. -/
def num (d : Decimal) : Nat :=
  d.coefficient * Nat.pow 10 d.exponent.toNat

/-- The denominator of a decimal. -/
def den (d : Decimal) : Nat :=
  Nat.pow 10 (-d.exponent).toNat

/-- The ordinal of the double nearest to a decimal. -/
def ordinal (d : Decimal) : Nat :=
  Double.nearest (d.num * Double.unitsInOne) d.den

/-- The double nearest to a decimal, with a sign. -/
def toDouble (negative : Bool) (d : Decimal) : Float :=
  Double.ofOrdinal negative d.ordinal

/-- A decimal times a power of ten.  An exponent beyond the range of doubles is cut to one that is
beyond it as well, since the nearest double is infinite or zero anyway. -/
def scaled (d : Decimal) (power : Int) : Decimal :=
  { d with exponent := max (-(d.coefficient.log2 + 400)) (min 400 (d.exponent + power)) }

/-! ## The shortest decimal of a double -/

/-- The decimal that equals a finite double.  A unit is a power of five over the same power of
ten. -/
def exact (n : Nat) : Decimal :=
  ⟨Double.units n * Nat.pow 5 Double.unitBits, -Double.unitBits⟩

/-- A number of units is at least a power of ten. -/
def reaches (u : Nat) (place : Int) : Bool :=
  Double.unitsInOne * Nat.pow 10 place.toNat ≤ u * Nat.pow 10 (-place).toNat

/-- The position of the first digit of a positive number of units: zero for the digit before the
point, minus one for the digit after it.  The position of the first bit tells it up to one. -/
def leadingPlace (u : Nat) : Int :=
  let guess : Int := (u.log2 - Double.unitBits : Int) * 30103 / 100000
  if reaches u (guess + 1) then guess + 1
  else if reaches u guess then guess
  else guess - 1

/-- The decimal with its last digit at `place` that stands for the double: the nearer one of the two
neighbours on that grid, among those that read back.  A tie goes to the even digit. -/
def onGrid? (n : Nat) (place : Int) : Option Decimal :=
  let num := Double.units n * Nat.pow 10 (-place).toNat
  let den := Double.unitsInOne * Nat.pow 10 place.toNat
  let lower : Decimal := ⟨num / den, place⟩
  let upper : Decimal := ⟨num / den + 1, place⟩
  let nearer :=
    match compare (2 * (num % den)) den with
    | .lt => lower
    | .eq => if lower.coefficient % 2 = 0 then lower else upper
    | .gt => upper
  [nearer, lower, upper].find? fun d => d.ordinal == n

/-- The decimal with the fewest digits that reads back as the double with ordinal `n`. -/
def shortest (n : Nat) : Decimal :=
  let first := leadingPlace (Double.units n)
  ((List.range 17).findSome? fun k : Nat => onGrid? n (first - k)).getD (exact n)

/-- The exact decimal of a double is not rounded away from it. -/
theorem ordinal_exact {n : Nat} (h : n ≤ Double.infinite) : (exact n).ordinal = n := by
  have hnum : (exact n).num * Double.unitsInOne = Double.units n * (exact n).den := by
    unfold num den exact Double.unitsInOne
    generalize Double.unitBits = k
    simp only [Nat.pow_eq]
    have hneg : (-(k : Int)).toNat = 0 := by omega
    have hpos : (-(-(k : Int))).toNat = k := by omega
    rw [hneg, hpos, Nat.pow_zero, Nat.mul_one, Nat.mul_assoc, ← Nat.mul_pow]
  rw [ordinal, hnum]
  exact Double.nearest_units (Nat.pow_pos (by decide)) h

/-- A decimal that is tried is taken only if it reads back. -/
theorem ordinal_onGrid? {n : Nat} {place : Int} {d : Decimal} (h : onGrid? n place = some d) :
    d.ordinal = n := by
  simp only [onGrid?] at h
  have hread := List.find?_some h
  simpa only [beq_iff_eq] using hread

/-- The shortest decimal of a double reads back as that double. -/
theorem ordinal_shortest {n : Nat} (h : n ≤ Double.infinite) : (shortest n).ordinal = n := by
  simp only [shortest]
  generalize hd : (List.range 17).findSome? _ = found
  cases found with
  | none => exact ordinal_exact h
  | some d =>
    obtain ⟨_, _, hgrid⟩ := List.exists_of_findSome?_eq_some hd
    exact ordinal_onGrid? hgrid

end Decimal

end Boli
