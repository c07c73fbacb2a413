import Mathlib
import Boli.Number.Decimal

/-!
# Rounding follows the order of numbers

The rounded ordinal of a quotient of units is beyond `n` if and only if the quotient is beyond the
middle between the doubles `n` and `n + 1`, or in the middle and `n` is odd
(`Double.lt_nearest_iff`).  So a larger quotient never has a smaller double (`Double.nearest_mono`).

For decimals this means that equal decimals have the same double (`Decimal.ordinal_congr`), however
the digits stand around the point, and that the rounded value of a decimal can be told from a power
of ten below or above it.
-/

namespace Boli

namespace Double

/-! ## The ordinal below a magnitude -/

/-- The magnitudes of one binade, and those below the first one. -/
theorem units_binade {shift q : Nat} (hlt : q < 2 * binade) (hle : shift = 0 ∨ binade ≤ q) :
    (shift * binade + q) / binade - 1 = shift ∧
      units (shift * binade + q) = q * Nat.pow 2 shift := by
  have hshift : (shift * binade + q) / binade - 1 = shift := by
    unfold binade at *
    omega
  refine ⟨hshift, ?_⟩
  simp only [units, hshift, Nat.add_sub_cancel_left]

/-- A magnitude lies between that of its ordinal and the next one. -/
theorem units_ordinal_le_and_lt (u : Nat) :
    units (ordinal u) ≤ u ∧ u < units (ordinal u + 1) := by
  have hlog : u < 2 ^ (u.log2 + 1) := Nat.lt_log2_self
  have hpow := two_pow_pos (u.log2 - 52)
  have hq : u / Nat.pow 2 (u.log2 - 52) < 2 * binade := by
    rw [Nat.div_lt_iff_lt_mul hpow]
    refine hlog.trans_le ?_
    have hbits : 2 * binade * Nat.pow 2 (u.log2 - 52) = 2 ^ (53 + (u.log2 - 52)) := by
      rw [Nat.pow_add, Nat.pow_eq]
      rfl
    rw [hbits]
    exact Nat.pow_le_pow_right (by decide) (by omega)
  have hbinade : u.log2 - 52 = 0 ∨ binade ≤ u / Nat.pow 2 (u.log2 - 52) := by
    refine or_iff_not_imp_left.2 fun hne => ?_
    have hu : u ≠ 0 := by
      rintro rfl
      exact hne rfl
    rw [Nat.le_div_iff_mul_le hpow]
    have hbits : binade * Nat.pow 2 (u.log2 - 52) = 2 ^ u.log2 := by
      have hsum : 52 + (u.log2 - 52) = u.log2 := by omega
      rw [← hsum, Nat.pow_add, hsum, Nat.pow_eq]
      rfl
    rw [hbits]
    exact Nat.log2_self_le hu
  obtain ⟨hshift, hunits⟩ := units_binade hq hbinade
  have hordinal : ordinal u = (u.log2 - 52) * binade + u / Nat.pow 2 (u.log2 - 52) := rfl
  rw [units_succ, hordinal, hshift, hunits]
  exact ⟨Nat.div_mul_le_self _ _, Nat.lt_div_mul_add hpow⟩

/-! ## The nearest ordinal -/

theorem nearest_le_infinite (num den : Nat) : nearest num den ≤ infinite :=
  Nat.min_le_right _ _

/-- Rounding stays at the ordinal below or goes on to the next one, as the middle tells.  In the
middle, the even one of the two is taken. -/
theorem exists_nearest_eq (num den : Nat) :
    ∃ below rounded, below = ordinal (num / den) ∧ nearest num den = min rounded infinite ∧
      (rounded = below ∧ (2 * num < (units below + units (below + 1)) * den ∨
          2 * num = (units below + units (below + 1)) * den ∧ below % 2 = 0) ∨
        rounded = below + 1 ∧ ((units below + units (below + 1)) * den < 2 * num ∨
          2 * num = (units below + units (below + 1)) * den ∧ below % 2 = 1)) := by
  refine ⟨_, _, rfl, rfl, ?_⟩
  generalize ordinal (num / den) = below
  cases hcompare : compare (2 * num) ((units below + units (below + 1)) * den) with
  | lt => exact .inl ⟨rfl, .inl (Nat.compare_eq_lt.1 hcompare)⟩
  | eq =>
    have heq := Nat.compare_eq_eq.1 hcompare
    rcases Nat.mod_two_eq_zero_or_one below with heven | hodd
    · refine .inl ⟨?_, .inr ⟨heq, heven⟩⟩
      rw [heven, Nat.add_zero]
    · refine .inr ⟨?_, .inr ⟨heq, hodd⟩⟩
      rw [hodd]
  | gt => exact .inr ⟨rfl, .inl (Nat.compare_eq_gt.1 hcompare)⟩

theorem units_mono {m n : Nat} (h : m ≤ n) : units m ≤ units n :=
  (Nat.eq_or_lt_of_le h).elim (fun heq => heq ▸ Nat.le_refl _) fun hlt => (units_strictMono hlt).le

/-- The rounded ordinal is beyond `n` if the quotient is beyond the middle between `n` and `n + 1`,
or in the middle and `n` is odd. -/
theorem lt_nearest_iff {num den n : Nat} (hden : 0 < den) (hn : n < infinite) :
    n < nearest num den ↔ (units n + units (n + 1)) * den < 2 * num ∨
      ((units n + units (n + 1)) * den = 2 * num ∧ n % 2 = 1) := by
  obtain ⟨below, rounded, hordinal, hnearest, hrounded⟩ := exists_nearest_eq num den
  obtain ⟨hbelow, habove⟩ := units_ordinal_le_and_lt (num / den)
  rw [← hordinal, Nat.le_div_iff_mul_le hden] at hbelow
  rw [← hordinal, Nat.div_lt_iff_lt_mul hden] at habove
  rw [hnearest, Nat.lt_min, and_iff_left hn]
  have hstep : units n < units (n + 1) := units_strictMono n.lt_succ_self
  rcases Nat.lt_trichotomy n below with hlt | rfl | hgt
  · -- the quotient is beyond the next double
    have hmono : units (n + 1) ≤ units below := units_mono hlt
    have hmiddle := calc
      (units n + units (n + 1)) * den < (units below + units below) * den :=
        Nat.mul_lt_mul_of_pos_right (by omega) hden
      _ = 2 * (units below * den) := by rw [← Nat.two_mul, Nat.mul_assoc]
      _ ≤ 2 * num := Nat.mul_le_mul_left 2 hbelow
    omega
  · -- the quotient lies between the two doubles
    omega
  · -- the quotient is below the lower double
    have hmono : units (below + 1) ≤ units n := units_mono hgt
    have hmiddle := calc
      2 * num < 2 * (units (below + 1) * den) := Nat.mul_lt_mul_of_pos_left habove Nat.two_pos
      _ = (units (below + 1) + units (below + 1)) * den := by rw [← Nat.two_mul, Nat.mul_assoc]
      _ ≤ (units n + units (n + 1)) * den := Nat.mul_le_mul_right den (by omega)
    omega

/-- A larger quotient has no smaller double. -/
theorem nearest_mono {num den num' den' : Nat} (hden : 0 < den) (hden' : 0 < den')
    (h : num * den' ≤ num' * den) : nearest num den ≤ nearest num' den' := by
  cases hn : nearest num den with
  | zero => exact Nat.zero_le _
  | succ n =>
    have hinfinite : n < infinite := by
      have hle := nearest_le_infinite num den
      omega
    have hlt : n < nearest num den := by omega
    have hbeyond := (lt_nearest_iff hden hinfinite).1 hlt
    refine (lt_nearest_iff hden' hinfinite).2 ?_
    generalize units n + units (n + 1) = middle at hbeyond
    -- both sides of the comparison with the middle, over the common denominator
    have hscaled : 2 * num * den' ≤ 2 * num' * den := by
      rw [Nat.mul_assoc, Nat.mul_assoc]
      exact Nat.mul_le_mul_left 2 h
    have hcancel (a : Nat) : a * den' * den = a * den * den' := Nat.mul_right_comm a den' den
    rcases hbeyond with hlt | ⟨heq, hodd⟩
    · left
      refine Nat.lt_of_mul_lt_mul_right (a := den) ?_
      rw [hcancel]
      exact (Nat.mul_lt_mul_of_pos_right hlt hden').trans_le hscaled
    · have hle : middle * den' ≤ 2 * num' := by
        refine Nat.le_of_mul_le_mul_right ?_ hden
        rw [hcancel, heq]
        exact hscaled
      rcases Nat.lt_or_eq_of_le hle with hlt | heq'
      · exact .inl hlt
      · exact .inr ⟨heq', hodd⟩

end Double

namespace Decimal

theorem den_pos (d : Decimal) : 0 < d.den :=
  Nat.pow_pos (by decide)

/-- The numerator of a decimal over the denominator of another one. -/
def against (d e : Decimal) : Nat :=
  d.num * e.den

/-- A larger decimal has no smaller double. -/
theorem ordinal_mono {d e : Decimal} (h : d.against e ≤ e.against d) : d.ordinal ≤ e.ordinal := by
  refine Double.nearest_mono d.den_pos e.den_pos ?_
  rw [Nat.mul_right_comm, Nat.mul_right_comm e.num]
  exact Nat.mul_le_mul_right _ h

theorem ordinal_congr {d e : Decimal} (h : d.against e = e.against d) : d.ordinal = e.ordinal :=
  Nat.le_antisymm (ordinal_mono h.le) (ordinal_mono h.ge)

/-- Decimals are compared at a common power of ten. -/
theorem against_eq (c c' : Nat) (e e' : Int) :
    against ⟨c, e⟩ ⟨c', e'⟩ = c * 10 ^ (e.toNat + (-e').toNat) := by
  simp only [against, num, den, Nat.pow_eq]
  rw [Nat.mul_assoc, ← Nat.pow_add]

/-- Zeros at the end of the digits may be dropped. -/
theorem ordinal_mul_pow (c k : Nat) (e : Int) :
    ordinal ⟨c * 10 ^ k, e⟩ = ordinal ⟨c, e + k⟩ := by
  refine ordinal_congr ?_
  rw [against_eq, against_eq, Nat.mul_assoc, ← Nat.pow_add]
  congr 2
  omega

/-- A decimal with a digit at a place, or before it, is at least that power of ten. -/
theorem le_ordinal {c : Nat} {e place : Int} {k : Nat} (h : 10 ^ k ≤ c) (hk : place ≤ k + e) :
    ordinal ⟨1, place⟩ ≤ ordinal ⟨c, e⟩ := by
  refine ordinal_mono ?_
  rw [against_eq, against_eq, Nat.one_mul]
  calc 10 ^ (place.toNat + (-e).toNat) ≤ 10 ^ (k + (e.toNat + (-place).toNat)) :=
        Nat.pow_le_pow_right (by decide) (by omega)
    _ = 10 ^ k * 10 ^ (e.toNat + (-place).toNat) := Nat.pow_add ..
    _ ≤ c * 10 ^ (e.toNat + (-place).toNat) := Nat.mul_le_mul_right _ h

/-- A decimal whose digits all stand behind a place is at most that power of ten. -/
theorem ordinal_le {c : Nat} {e place : Int} {k : Nat} (h : c ≤ 10 ^ k) (hk : k + e ≤ place) :
    ordinal ⟨c, e⟩ ≤ ordinal ⟨1, place⟩ := by
  refine ordinal_mono ?_
  rw [against_eq, against_eq, Nat.one_mul]
  calc c * 10 ^ (e.toNat + (-place).toNat) ≤ 10 ^ k * 10 ^ (e.toNat + (-place).toNat) :=
        Nat.mul_le_mul_right _ h
    _ = 10 ^ (k + (e.toNat + (-place).toNat)) := (Nat.pow_add ..).symm
    _ ≤ 10 ^ (place.toNat + (-e).toNat) := Nat.pow_le_pow_right (by decide) (by omega)

end Decimal

end Boli
