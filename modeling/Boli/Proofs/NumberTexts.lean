import Boli.Proofs.Lexemes
import Boli.Proofs.Rounding
import Boli.Number.Numeral

/-!
# Decimals written and read

A decimal is written with a point or with an exponent.  The text with a point is a number in the
sense of a source text and of a text value, and it is read as a decimal of the same value
(`Numeral.spells_positional`).  The text with an exponent is neither.
-/

namespace Boli

open Boli.Text

/-! ## Runs of digits -/

namespace Text

/-- An ASCII digit has the value of its place behind zero. -/
theorem digit?_of_isDigit {c : Char} (h : c.isDigit) : digit? c = some (c.toNat - 48) := by
  have hbounds : 48 ≤ c.toNat ∧ c.toNat ≤ 57 := by
    simpa [Char.isDigit, UInt32.le_iff_toNat_le] using h
  have hzero : zeroOf? c.toNat = some 48 := by
    rw [zeroOf?, zeros, List.find?_cons_of_pos]
    simp only [Bool.and_eq_true, decide_eq_true_eq]
    omega
  rw [digit?, hzero]
  rfl

theorem isDigit_of_ascii {c : Char} (h : c.isDigit) : isDigit c := by
  rw [isDigit, digit?_of_isDigit h]
  rfl

/-- On ASCII digits, reading is the one of the library. -/
theorem ofDigitsFrom_eq {cs : List Char} (h : ∀ c ∈ cs, c.isDigit) (read : Nat) :
    ofDigitsFrom read cs = Nat.ofDigitChars 10 cs read := by
  induction cs generalizing read with
  | nil => rfl
  | cons c cs ih =>
    rw [ofDigitsFrom, digit?_of_isDigit (h c List.mem_cons_self),
      ih fun d hd => h d (List.mem_cons_of_mem c hd)]
    rfl

theorem isDigit_toDigits {n : Nat} {c : Char} (h : c ∈ Nat.toDigits 10 n) : c.isDigit :=
  Nat.isDigit_of_mem_toDigits (by decide) (by decide) h

/-- The digits of a number are read as that number. -/
theorem ofDigits_toDigits (n : Nat) : ofDigits (Nat.toDigits 10 n) = n := by
  rw [ofDigits_eq, ofDigitsFrom_eq fun c => isDigit_toDigits, Nat.ofDigitChars_ten_toDigits]

theorem ofDigitsFrom_zeros (read k : Nat) :
    ofDigitsFrom read (List.replicate k '0') = read * 10 ^ k := by
  have hzero : digit? '0' = some 0 := by decide
  induction k generalizing read with
  | zero => simp [ofDigitsFrom]
  | succ k ih =>
    rw [List.replicate_succ, ofDigitsFrom, hzero, ih, Nat.pow_succ']
    simp only [Option.getD_some, Nat.add_zero]
    ring

/-- Zeros at the end of digits multiply by ten. -/
theorem ofDigits_append_zeros (cs : List Char) (k : Nat) :
    ofDigits (cs ++ List.replicate k '0') = ofDigits cs * 10 ^ k := by
  rw [ofDigits_eq, ofDigits_eq, ofDigitsFrom_append, ofDigitsFrom_zeros]

/-- Zeros in front of digits do not count. -/
theorem ofDigits_zeros_append (k : Nat) (cs : List Char) :
    ofDigits (List.replicate k '0' ++ cs) = ofDigits cs := by
  rw [ofDigits_eq, ofDigits_eq, ofDigitsFrom_append, ofDigitsFrom_zeros, Nat.zero_mul]

end Text

namespace Numeral

open Lexeme (takeWhile_append_point dropWhile_append_point)

/-! ## Reading -/

/-- Digits without a point are read as a whole number. -/
theorem readUnsigned?_whole {whole : List Char} (hne : whole ≠ []) (h : whole.all isDigit) :
    readUnsigned? whole = some (ofParts whole []) := by
  have hdigits : ∀ c ∈ whole, isDigit c := by simpa using h
  have htake : whole.takeWhile isDigit = whole := List.takeWhile_eq_self_iff.2 hdigits
  have hdrop : whole.dropWhile isDigit = [] := List.dropWhile_eq_nil_iff.2 hdigits
  simp [readUnsigned?, htake, hdrop, hne]

theorem readUnsigned?_fraction {whole fraction : List Char} (hne : whole ≠ [])
    (h : whole.all isDigit) (h' : fraction.all isDigit) :
    readUnsigned? (whole ++ '.' :: fraction) = some (ofParts whole fraction) := by
  simp [readUnsigned?, takeWhile_append_point h, dropWhile_append_point h, hne, h']

/-- A number is made of digits and a point. -/
theorem isDigit_or_eq_point {cs : List Char} {d : Decimal} (h : readUnsigned? cs = some d) :
    ∀ c ∈ cs, isDigit c ∨ c = '.' := by
  have hsplit : cs.takeWhile isDigit ++ cs.dropWhile isDigit = cs :=
    List.takeWhile_append_dropWhile
  intro c hc
  rw [← hsplit, List.mem_append] at hc
  rcases hc with hc | hc
  · exact .inl (List.mem_takeWhile_imp hc)
  · simp only [readUnsigned?] at h
    split at h
    · next hnil =>
      rw [hnil] at hc
      cases hc
    · next fraction hpoint =>
      rw [hpoint] at hc
      split at h
      · next hdigits =>
        simp only [Bool.and_eq_true, List.all_eq_true] at hdigits
        rcases List.mem_cons.1 hc with rfl | hc
        · exact .inr rfl
        · exact .inl (hdigits.1 c hc)
      · cases h
    · cases h

/-! ## Writing -/

/-- The digits of a number are its significant digits and zeros. -/
theorem exists_toDigits_eq (n : Nat) :
    ∃ z, Nat.toDigits 10 n = significant n ++ List.replicate z '0' := by
  obtain ⟨zeros, hsplit⟩ : ∃ zeros, (Nat.toDigits 10 n).reverse =
      zeros ++ (Nat.toDigits 10 n).reverse.dropWhile (· == '0') ∧ ∀ c ∈ zeros, c = '0' := by
    refine ⟨(Nat.toDigits 10 n).reverse.takeWhile (· == '0'),
      List.takeWhile_append_dropWhile.symm, fun c hc => ?_⟩
    simpa using List.mem_takeWhile_imp hc
  refine ⟨zeros.length, ?_⟩
  have hzeros : zeros = List.replicate zeros.length '0' := List.eq_replicate_of_mem hsplit.2
  have hreverse := congrArg List.reverse hsplit.1
  rw [List.reverse_reverse, List.reverse_append] at hreverse
  rw [hreverse, significant]
  congr 1
  rw [hzeros, List.reverse_replicate, List.length_replicate]

theorem isDigit_significant {n : Nat} {c : Char} (h : c ∈ significant n) : c.isDigit := by
  obtain ⟨z, hz⟩ := exists_toDigits_eq n
  exact isDigit_toDigits (hz ▸ List.mem_append_left _ h)

theorem all_significant (n : Nat) : (significant n).all isDigit := by
  simp only [List.all_eq_true]
  exact fun c hc => isDigit_of_ascii (isDigit_significant hc)

theorem all_zeros (k : Nat) : (List.replicate k '0').all isDigit := by
  simp only [List.all_replicate]
  split
  · rfl
  · decide

/-- A text with a point, in its two parts. -/
theorem exists_positional_eq (digits : List Char) (place : Int) (hne : digits ≠ [])
    (hdigits : digits.all isDigit) :
    ∃ whole fraction, positional digits place = whole ++ '.' :: fraction ∧ whole ≠ [] ∧
      fraction ≠ [] ∧ whole.all isDigit ∧ fraction.all isDigit ∧
      (ofParts whole fraction).ordinal = Decimal.ordinal
        ⟨ofDigits digits, place + 1 - digits.length⟩ := by
  have hlength : 0 < digits.length := List.length_pos_of_ne_nil hne
  rw [positional]
  split
  · next hplace =>
    refine ⟨['0'], List.replicate (-place - 1).toNat '0' ++ digits, rfl, by simp, by simp [hne],
      by decide, ?_, ?_⟩
    · rw [List.all_append, all_zeros, hdigits]
      rfl
    · have hdigits : ['0'] ++ (List.replicate (-place - 1).toNat '0' ++ digits) =
          List.replicate ((-place - 1).toNat + 1) '0' ++ digits := by
        rw [List.replicate_succ]
        rfl
      rw [ofParts, hdigits, ofDigits_zeros_append]
      congr 2
      simp only [List.length_append, List.length_replicate]
      omega
  · next hplace =>
    dsimp only
    split
    · next hle =>
      refine ⟨digits ++ List.replicate (place.toNat + 1 - digits.length) '0', ['0'],
        by simp, by simp [hne], by simp, ?_, by decide, ?_⟩
      · rw [List.all_append, all_zeros, hdigits]
        rfl
      · have hzeros : digits ++ List.replicate (place.toNat + 1 - digits.length) '0' ++ ['0'] =
            digits ++ List.replicate (place.toNat + 1 - digits.length + 1) '0' := by
          rw [List.append_assoc, List.replicate_succ']
        rw [ofParts, hzeros, ofDigits_append_zeros, Decimal.ordinal_mul_pow]
        congr 2
        simp only [List.length_singleton]
        omega
    · next hlt =>
      refine ⟨digits.take (place.toNat + 1), digits.drop (place.toNat + 1), rfl, ?_, ?_, ?_, ?_, ?_⟩
      · simp [hne]
      · rw [Ne, List.drop_eq_nil_iff]
        exact hlt
      · simp only [List.all_eq_true] at hdigits ⊢
        exact fun c hc => hdigits c (List.mem_of_mem_take hc)
      · simp only [List.all_eq_true] at hdigits ⊢
        exact fun c hc => hdigits c (List.mem_of_mem_drop hc)
      · rw [ofParts, List.take_append_drop]
        congr 2
        simp only [List.length_drop]
        omega

/-! ## Texts that stand for a double -/

/-- The text is a number of a source text, and its double has the ordinal `n`. -/
def Spells (cs : List Char) (n : Nat) : Prop :=
  Lexeme.isNumber cs ∧ ∃ d, readUnsigned? cs = some d ∧ d.ordinal = n

/-- The text has an exponent behind its digits. -/
def HasExponent (cs : List Char) : Prop :=
  ∃ mantissa rest, cs = mantissa ++ 'e' :: rest ∧ Lexeme.isNumber mantissa

/-- The digits of a natural number spell it. -/
theorem spells_whole (k : Nat) : Spells (Nat.toDigits 10 k) (Decimal.ordinal ⟨k, 0⟩) := by
  have hdigits : (Nat.toDigits 10 k).all isDigit := by
    simp only [List.all_eq_true]
    exact fun c hc => isDigit_of_ascii (isDigit_toDigits hc)
  refine ⟨Lexeme.isNumber_whole Nat.toDigits_ne_nil hdigits,
    _, readUnsigned?_whole Nat.toDigits_ne_nil hdigits, ?_⟩
  rw [ofParts, List.append_nil, ofDigits_toDigits]
  rfl

/-- The place of the first digit of a decimal. -/
def leading (d : Decimal) : Int :=
  (Nat.toDigits 10 d.coefficient).length + d.exponent - 1

/-- A number that is not zero has a significant digit. -/
theorem significant_ne_nil {n : Nat} (h : n ≠ 0) : significant n ≠ [] := by
  obtain ⟨z, hz⟩ := exists_toDigits_eq n
  intro hnil
  have hread := ofDigits_toDigits n
  rw [hz, hnil, ofDigits_append_zeros] at hread
  exact h (hread.symm.trans (Nat.zero_mul _))

/-- A decimal that is written with a point is read with the same double. -/
theorem spells_positional {d : Decimal} (h : d.coefficient ≠ 0) :
    Spells (positional (significant d.coefficient) (leading d)) d.ordinal := by
  obtain ⟨whole, fraction, heq, hwhole, hfraction, hdigits, hdigits', hordinal⟩ :=
    exists_positional_eq (significant d.coefficient) (leading d) (significant_ne_nil h)
      (all_significant _)
  obtain ⟨z, hz⟩ := exists_toDigits_eq d.coefficient
  have hcoefficient : d.coefficient = ofDigits (significant d.coefficient) * 10 ^ z := by
    rw [← ofDigits_append_zeros, ← hz, ofDigits_toDigits]
  have hlength : (Nat.toDigits 10 d.coefficient).length =
      (significant d.coefficient).length + z := by
    rw [hz, List.length_append, List.length_replicate]
  rw [heq]
  refine ⟨Lexeme.isNumber_fraction hwhole hdigits hfraction hdigits', _,
    readUnsigned?_fraction hwhole hdigits hdigits', ?_⟩
  calc (ofParts whole fraction).ordinal
      = Decimal.ordinal ⟨ofDigits (significant d.coefficient), d.exponent + z⟩ := by
        rw [hordinal]
        congr 2
        rw [leading, hlength]
        omega
    _ = Decimal.ordinal ⟨ofDigits (significant d.coefficient) * 10 ^ z, d.exponent⟩ :=
        (Decimal.ordinal_mul_pow _ _ _).symm
    _ = d.ordinal := by rw [← hcoefficient]

/-- The scientific text of a decimal has an exponent. -/
theorem hasExponent_scientific {digits : List Char} (hne : digits ≠ [])
    (hdigits : digits.all isDigit) (place : Int) : HasExponent (scientific digits place) := by
  refine ⟨_, _, rfl, ?_⟩
  cases digits with
  | nil => exact absurd rfl hne
  | cons c cs =>
    simp only [List.all_cons, Bool.and_eq_true] at hdigits
    cases cs with
    | nil => exact Lexeme.isNumber_whole (by simp) (by simp [hdigits.1])
    | cons e rest =>
      exact Lexeme.isNumber_fraction (List.cons_ne_nil c []) (by simp [hdigits.1])
        (List.cons_ne_nil e rest) hdigits.2

end Numeral

end Boli
