/-!
# Doubles as whole numbers of units

Every finite double is a whole multiple of the smallest positive one.  The non-negative doubles,
taken in order, are numbered by their bit patterns: this number is the *ordinal* of a double, and
its magnitude is a natural number of *units*.  Both are exact, so rounding, remainders and the test
for a whole number are arithmetic on natural numbers.

* `units` is the magnitude of an ordinal, and `ordinal` the last ordinal whose magnitude does not
  exceed a given one.
* `nearest` rounds a quotient of units to the nearest ordinal, a tie to the even one.
* `quotient?`, `fmod?` and `toInt?` are the operations of the host that are not defined everywhere,
  and `divide?` and `remainder?` the division and the remainder of scripts, which are.

`units_strictMono` says that ordinals and magnitudes come in the same order, and `ordinal_units`
that every double is found again from its magnitude.
-/

namespace Boli.Double

/-! ## Ordinals and units -/

/-- The number of doubles between one power of two and the next. -/
def binade : Nat := 4503599627370496

/-- The magnitude of an ordinal, in units. -/
def units (n : Nat) : Nat :=
  let shift := n / binade - 1
  (n - shift * binade) * Nat.pow 2 shift

/-- The last ordinal whose magnitude does not exceed `u` units. -/
def ordinal (u : Nat) : Nat :=
  let shift := u.log2 - 52
  shift * binade + u / Nat.pow 2 shift

/-- The smallest positive double is two to the power of minus this. -/
def unitBits : Nat := 1074

/-- The number of units in one. -/
def unitsInOne : Nat := Nat.pow 2 unitBits

/-- The ordinal of infinity.  The ordinals below it are those of the finite doubles. -/
def infinite : Nat := 2047 * binade

/-- The ordinal nearest to `num / den` units.  A tie goes to the even ordinal, and everything from
half way between the largest finite double and the next power of two on is infinite. -/
def nearest (num den : Nat) : Nat :=
  let below := ordinal (num / den)
  let rounded :=
    match compare (2 * num) ((units below + units (below + 1)) * den) with
    | .lt => below
    | .eq => below + below % 2
    | .gt => below + 1
  min rounded infinite

/-! ## Sign and magnitude -/

/-- The bit of a bit pattern that is set for negative doubles. -/
def signBit : Nat := 2048 * binade

/-- The sign bit is set. -/
def isNegative (x : Float) : Bool :=
  signBit ≤ x.toBits.toNat

/-- The ordinal of the absolute value. -/
def magnitude (x : Float) : Nat :=
  x.toBits.toNat % signBit

/-- The double with a sign and an ordinal. -/
def ofOrdinal (negative : Bool) (n : Nat) : Float :=
  .ofBits (UInt64.ofNat (if negative then signBit + n else n))

/-- The value that is not a number. -/
def nan : Float := ofOrdinal false (infinite + binade / 2)

/-- Infinity, with a sign. -/
def infinity (negative : Bool) : Float :=
  ofOrdinal negative infinite

/-- A natural number, rounded to the nearest double. -/
def ofNat (n : Nat) : Float :=
  ofOrdinal false (nearest (n * unitsInOne) 1)

/-! ## Whole numbers -/

/-- The double is finite and has no fraction. -/
def isWhole (x : Float) : Bool :=
  magnitude x < infinite && units (magnitude x) % unitsInOne == 0

/-- The whole part of a finite double. -/
def wholePart (x : Float) : Int :=
  let n : Int := units (magnitude x) / unitsInOne
  if isNegative x then -n else n

/-- The integer toward zero from a double.  Infinity and no number have none. -/
def toInt? (x : Float) : Option Int :=
  if magnitude x < infinite then some (wholePart x) else none

/-- A whole double has an integer for the host. -/
theorem toInt?_of_isWhole {x : Float} (h : isWhole x = true) : toInt? x = some (wholePart x) := by
  simp only [isWhole, Bool.and_eq_true, decide_eq_true_eq] at h
  rw [toInt?, if_pos h.1]

/-! ## Division and remainder -/

/-- The quotient of two doubles.  There is none by zero. -/
def quotient? (x y : Float) : Option Float :=
  if y == 0 then none else some (x / y)

/-- Division in scripts.  A zero divisor gives infinity with the sign of the dividend, and no number
if the dividend is zero or no number itself. -/
def divide? (x y : Float) : Option Float :=
  if y == 0 then
    some (if x == 0 || x.isNaN then nan else infinity (isNegative x))
  else
    quotient? x y

theorem isSome_divide? (x y : Float) : (divide? x y).isSome := by
  cases h : y == 0 <;> simp [divide?, quotient?, h]

/-- The remainder of division toward zero, which has the sign of the dividend.  There is none of
infinity and none by zero, and no number gives no number. -/
def fmod? (x y : Float) : Option Float :=
  if x.isNaN || y.isNaN then some nan
  else if x.isInf || y == 0 then none
  else if y.isInf then some x
  else some (ofOrdinal (isNegative x) (ordinal (units (magnitude x) % units (magnitude y))))

/-- The remainder in scripts, which is no number if the divisor is zero or the dividend infinite. -/
def remainder? (x y : Float) : Option Float :=
  if y == 0 || x.isInf then some nan else fmod? x y

/-- Scripts can ask for any remainder. -/
theorem isSome_remainder? (x y : Float) : (remainder? x y).isSome := by
  cases hy : y == 0 with
  | true => simp [remainder?, hy]
  | false =>
    cases hx : x.isInf with
    | true => simp [remainder?, hx]
    | false =>
      simp only [remainder?, fmod?, hx, hy, Bool.or_self, Bool.false_eq_true, ↓reduceIte]
      split
      · rfl
      · split <;> rfl

/-! ## The two numberings agree -/

theorem two_pow_pos (k : Nat) : 0 < Nat.pow 2 k :=
  Nat.two_pow_pos k

/-- Above an ordinal, one step up adds the unit of its binade. -/
theorem units_succ (n : Nat) :
    units (n + 1) = units n + Nat.pow 2 (n / binade - 1) := by
  have hcarry : (n + 1) / binade = n / binade ∨
      (n + 1) / binade = n / binade + 1 ∧ n + 1 = (n / binade + 1) * binade := by
    unfold binade
    omega
  rcases hcarry with h | ⟨h, hn⟩
  · have hle : (n / binade - 1) * binade ≤ n := by
      unfold binade
      omega
    simp only [units, h]
    rw [Nat.succ_sub hle, Nat.succ_mul]
  · cases hk : n / binade with
    | zero =>
      rw [hk] at h hn
      simp only [units, h, hk, Nat.pow_eq]
      omega
    | succ k =>
      rw [hk] at h hn
      simp only [units, h, hk, Nat.add_sub_cancel, Nat.pow_eq]
      have hnext : n + 1 - (k + 1) * binade = binade := by
        unfold binade at *
        omega
      have hhere : n - k * binade + 1 = 2 * binade := by
        unfold binade at *
        omega
      rw [hnext, ← Nat.succ_mul, Nat.succ_eq_add_one, hhere, Nat.pow_succ, Nat.mul_comm 2,
        Nat.mul_assoc, Nat.mul_comm 2]

/-- Magnitudes grow with ordinals. -/
theorem units_strictMono {m n : Nat} (h : m < n) : units m < units n := by
  induction h with
  | refl => rw [units_succ]; exact Nat.lt_add_of_pos_right (two_pow_pos _)
  | step _ ih => rw [units_succ]; exact Nat.lt_add_right _ ih

theorem units_zero : units 0 = 0 := rfl

/-- The exponent of the leading bit of a magnitude of at least one binade. -/
theorem log2_units (n : Nat) : (units n).log2 - 52 = n / binade - 1 := by
  simp only [units, Nat.pow_eq, binade]
  generalize hs : n / 4503599627370496 - 1 = shift
  cases shift with
  | zero =>
    have hlt : n < 2 ^ 53 := by omega
    simp only [Nat.zero_mul, Nat.sub_zero, Nat.pow_zero, Nat.mul_one]
    by_cases h0 : n = 0
    · subst h0; rfl
    · have := (Nat.log2_lt h0).2 hlt
      omega
  | succ shift =>
    have hlo : 2 ^ 52 ≤ n - (shift + 1) * 4503599627370496 := by omega
    have hhi : n - (shift + 1) * 4503599627370496 < 2 ^ 53 := by omega
    generalize n - (shift + 1) * 4503599627370496 = m at hlo hhi
    have hpos : 0 < 2 ^ (shift + 1) := Nat.two_pow_pos _
    have h0 : m * 2 ^ (shift + 1) ≠ 0 := Nat.mul_ne_zero (by omega) (by omega)
    have h1 : 52 + (shift + 1) ≤ (m * 2 ^ (shift + 1)).log2 := by
      rw [Nat.le_log2 h0, Nat.pow_add]
      exact Nat.mul_le_mul_right _ hlo
    have h2 : (m * 2 ^ (shift + 1)).log2 < 53 + (shift + 1) := by
      rw [Nat.log2_lt h0, Nat.pow_add 2 53]
      exact Nat.mul_lt_mul_of_pos_right hhi hpos
    omega

/-- Every double is found again from its magnitude. -/
theorem ordinal_units (n : Nat) : ordinal (units n) = n := by
  simp only [ordinal, log2_units]
  rw [units, Nat.mul_div_cancel _ (two_pow_pos _)]
  unfold binade
  omega

/-- A magnitude that a double has is not rounded. -/
theorem nearest_units {n den : Nat} (hden : 0 < den) (hfinite : n ≤ infinite) :
    nearest (units n * den) den = n := by
  have hgap : units n < units (n + 1) := units_strictMono (Nat.lt_succ_self n)
  have hlt : 2 * (units n * den) < (units n + units (n + 1)) * den := by
    rw [← Nat.mul_assoc]
    exact Nat.mul_lt_mul_of_pos_right (by omega) hden
  simp only [nearest, Nat.mul_div_cancel _ hden, ordinal_units,
    Nat.compare_eq_lt.2 hlt]
  omega

end Boli.Double
