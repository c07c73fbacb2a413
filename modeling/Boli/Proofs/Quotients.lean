import Boli.Proofs.Frame
import Boli.Proofs.Ordinals

/-!
# The signs and classes of quotients

A quotient of doubles is no number exactly if an operand is none, both are zero or both are
infinite, and otherwise its sign is negative if the operands have different signs.  Division in
scripts keeps to this but for one case.  By a zero it takes the sign of the dividend alone, so a
negative zero in the divisor is taken for a positive one (`Action.binary_div_signs`).

* `Double.Class` tells zero, the other finite doubles, infinity and no number apart.
* `Double.signOf` is the sign of an unpacked double.  Negation turns it around
  (`Double.unpack_neg`), and that of a quotient is the quotient of the signs
  (`Double.isNegative_div`).
-/

namespace Boli.Double

open Float.Model (UnpackedFloat Format)
open Float.Model.UnpackedFloat

/-! ## Unpacked doubles -/

/-- The sign of an unpacked double.  No number counts as positive. -/
def signOf : UnpackedFloat → Sign
  | .infinity s | .zero s | .finite s _ _ _ => s
  | .notANumber => .positive

/-- The sign is the negative one. -/
def isMinus : Sign → Bool
  | .negative => true
  | .positive => false

theorem isMinus_neg (s : Sign) : isMinus (-s) = !isMinus s := by
  cases s <;> rfl

theorem isMinus_div (s t : Sign) : isMinus (s / t) = (isMinus s ^^ isMinus t) := by
  cases s <;> cases t <;> rfl

/-- Unpacking loses nothing of a double. -/
theorem eq_of_unpack_eq {x y : Float} (h : x.toModel.unpack = y.toModel.unpack) : x = y := by
  rw [← Float.toBits_inj, ← UInt64.toBitVec_inj]
  exact (unpack_inj_of_valid x.toModel.valid y.toModel.valid).1 h

/-- The sign of the packed parts is the sign of the unpacked double. -/
theorem unpack_packComponents_neg (s : Sign) (e : BitVec Format.binary64.exponentBits)
    (m : BitVec Format.binary64.mantissaBitsWithoutImplicit) :
    unpack .binary64 (packComponents .binary64 (-s) e m) =
      (unpack .binary64 (packComponents .binary64 s e m)).neg := by
  simp only [unpack, unpackExponent_packComponents, unpackMantissa_packComponents,
    unpackSign_packComponents, Sign.ofBitVec_toBitVec]
  split
  · split <;> rfl
  · split
    · split <;> rfl
    · rfl

/-- Packing does not depend on the sign in any other way than by keeping it. -/
theorem unpack_pack_neg (f : UnpackedFloat) :
    unpack .binary64 (f.neg.pack .binary64) = (unpack .binary64 (f.pack .binary64)).neg := by
  cases f with
  | notANumber => simp only [neg, pack, unpack_packedNaN]
  | infinity s => exact unpack_packComponents_neg s _ _
  | zero s => exact unpack_packComponents_neg s _ _
  | finite s m e hm =>
    simp only [neg, pack]
    split
    · exact unpack_packComponents_neg s _ _
    · split <;> exact unpack_packComponents_neg s _ _

/-- Negation turns the sign of the unpacked double around. -/
theorem unpack_neg (x : Float) : (-x).toModel.unpack = x.toModel.unpack.neg := by
  have hneg := unpack_pack_neg x.toModel.unpack
  have hself : x.toModel.unpack.pack .binary64 = x.toModel.toBits.toBitVec :=
    pack_unpack_of_valid x.toModel.valid
  rw [hself] at hneg
  exact hneg

/-- Negation sets the sign of a double that has none. -/
theorem neg_ofOrdinal {n : Nat} (h : n ≤ infinite) : -ofOrdinal false n = ofOrdinal true n := by
  have hfalse := toNat_toBits_ofOrdinal false h
  have htrue := toNat_toBits_ofOrdinal true h
  simp only [Bool.false_eq_true, ↓reduceIte] at hfalse htrue
  have hlt : n < signBit := by
    unfold infinite signBit binade at *
    omega
  apply eq_of_unpack_eq
  rw [unpack_neg]
  change (unpack .binary64 (ofOrdinal false n).toBits.toBitVec).neg =
    unpack .binary64 (ofOrdinal true n).toBits.toBitVec
  generalize (ofOrdinal false n).toBits = b at *
  generalize (ofOrdinal true n).toBits = b' at *
  have hsign : -Sign.ofBitVec (@unpackSign .binary64 b.toBitVec) =
      Sign.ofBitVec (@unpackSign .binary64 b'.toBitVec) := by
    rw [Sign.ofBitVec, if_pos ((unpackSign_eq_iff b).2 (by omega)), Sign.ofBitVec,
      if_neg fun hs => absurd ((unpackSign_eq_iff b').1 hs) (by omega)]
    rfl
  have hexponent : @unpackExponent .binary64 b.toBitVec = @unpackExponent .binary64 b'.toBitVec := by
    rw [← BitVec.toNat_inj, toNat_unpackExponent, toNat_unpackExponent, hfalse, htrue,
      Nat.add_mod_left]
  have hmantissa : @unpackMantissa .binary64 b.toBitVec = @unpackMantissa .binary64 b'.toBitVec := by
    rw [← BitVec.toNat_inj, toNat_unpackMantissa, toNat_unpackMantissa, hfalse, htrue]
    unfold signBit
    rw [Nat.mul_add_mod_self_right]
  rw [← @packComponents_unpackSign_unpackExponent_unpackMantissa .binary64 b.toBitVec,
    ← unpack_packComponents_neg, hsign, hexponent, hmantissa,
    packComponents_unpackSign_unpackExponent_unpackMantissa]

/-- Parts that do not stand for no number are unpacked with their sign. -/
theorem signOf_unpack_packComponents (s : Sign) {e : BitVec Format.binary64.exponentBits}
    {m : BitVec Format.binary64.mantissaBitsWithoutImplicit} (h : e = -1#_ → m = 0#_) :
    unpack .binary64 (packComponents .binary64 s e m) ≠ .notANumber ∧
      signOf (unpack .binary64 (packComponents .binary64 s e m)) = s := by
  simp only [unpack, unpackExponent_packComponents, unpackMantissa_packComponents,
    unpackSign_packComponents, Sign.ofBitVec_toBitVec]
  split
  · next he =>
    rw [if_pos (h he)]
    exact ⟨by simp, rfl⟩
  · split
    · split <;> exact ⟨by simp, rfl⟩
    · exact ⟨by simp, rfl⟩

/-- What is packed is a number if it was one, and has the same sign. -/
theorem signOf_unpack_pack {f : UnpackedFloat} (h : f ≠ .notANumber) :
    unpack .binary64 (f.pack .binary64) ≠ .notANumber ∧
      signOf (unpack .binary64 (f.pack .binary64)) = signOf f := by
  cases f with
  | notANumber => exact absurd rfl h
  | infinity s => exact signOf_unpack_packComponents s fun _ => rfl
  | zero s => exact signOf_unpack_packComponents s fun _ => rfl
  | finite s m e hm =>
    simp only [pack]
    split
    · exact signOf_unpack_packComponents s fun _ => rfl
    · next hexponent =>
      split
      · refine signOf_unpack_packComponents s fun he => ?_
        -- an exponent that is in range is not the one of infinity
        have hnat : (e + Format.binary64.exponentBias +
            Format.binary64.mantissaBitsWithoutImplicit).toNat % 2 ^ 11 = 2047 :=
          congrArg BitVec.toNat he
        have hlt : ¬2 ^ 11 ≤ (e + Format.binary64.exponentBias +
            Format.binary64.mantissaBitsWithoutImplicit).toNat + 1 := hexponent
        omega
      · exact signOf_unpack_packComponents s fun he => absurd he (by decide)

/-! ## Quotients -/

/-- Rounding goes the same way for both signs. -/
theorem roundWithAccuracy_neg (s : Sign) (m : Nat) (e : Int) (a : Accuracy) :
    roundWithAccuracy .binary64 (-s) m e a = (roundWithAccuracy .binary64 s m e a).neg := by
  simp only [roundWithAccuracy]
  split <;> rfl

/-- Rounding keeps the sign, and its result is a number. -/
theorem signOf_roundWithAccuracy (s : Sign) (m : Nat) (e : Int) (a : Accuracy) :
    roundWithAccuracy .binary64 s m e a ≠ .notANumber ∧
      signOf (roundWithAccuracy .binary64 s m e a) = s := by
  simp only [roundWithAccuracy]
  split <;> exact ⟨by simp, rfl⟩

theorem sign_neg_div (s t : Sign) : -s / t = -(s / t) := by
  cases s <;> cases t <;> rfl

theorem sign_div_neg (s t : Sign) : s / -t = -(s / t) := by
  cases s <;> cases t <;> rfl

/-- Turning the dividend around turns the quotient around, before it is packed. -/
theorem unpacked_neg_div (a b : UnpackedFloat) :
    div .binary64 a.neg b = (div .binary64 a b).neg := by
  cases a <;> cases b <;> simp only [neg, div, sign_neg_div, roundWithAccuracy_neg]

/-- So does turning the divisor around. -/
theorem unpacked_div_neg (a b : UnpackedFloat) :
    div .binary64 a b.neg = (div .binary64 a b).neg := by
  cases a <;> cases b <;> simp only [neg, div, sign_div_neg, roundWithAccuracy_neg]

/-- A quotient is computed on unpacked doubles and packed. -/
theorem unpack_div (x y : Float) : (x / y).toModel.unpack =
    unpack .binary64 ((div .binary64 x.toModel.unpack y.toModel.unpack).pack .binary64) :=
  rfl

theorem neg_div (x y : Float) : -x / y = -(x / y) := by
  apply eq_of_unpack_eq
  rw [unpack_div, unpack_neg, unpacked_neg_div, unpack_pack_neg, unpack_neg, unpack_div]

theorem div_neg (x y : Float) : x / -y = -(x / y) := by
  apply eq_of_unpack_eq
  rw [unpack_div, unpack_neg, unpacked_div_neg, unpack_pack_neg, unpack_neg, unpack_div]

/-! ## Classes -/

/-- What sort of number a double is. -/
inductive Class where
  /-- Zero of either sign. -/
  | zero
  /-- A finite number other than zero. -/
  | finite
  /-- Infinity of either sign. -/
  | infinite
  /-- No number. -/
  | undefined
deriving DecidableEq, Repr

/-- The class of a double. -/
def classOf (x : Float) : Class :=
  if x.isNaN then .undefined
  else if x.isInf then .infinite
  else if x == 0 then .zero
  else .finite

/-- The class of an unpacked double. -/
def unpackedClass : UnpackedFloat → Class
  | .infinity _ => .infinite
  | .zero _ => .zero
  | .finite .. => .finite
  | .notANumber => .undefined

/-- The class of a double can be told from its parts. -/
theorem classOf_eq (x : Float) : classOf x = unpackedClass x.toModel.unpack := by
  have hnan : x.isNaN = x.toModel.unpack.isNaN := rfl
  have hinf : x.isInf = x.toModel.unpack.isInf := rfl
  have hzero : (x == 0) = x.toModel.unpack.beq (.zero .positive) := rfl
  rw [classOf, hnan, hinf, hzero]
  cases x.toModel.unpack with
  | infinity s => rfl
  | notANumber => rfl
  | zero s => cases s <;> rfl
  | finite s m e hm => cases s <;> rfl

theorem isNegative_eq (x : Float) : isNegative x = isMinus (signOf x.toModel.unpack) := by
  by_cases hnan : x.isNaN
  · obtain rfl : x = Float.nan := by simpa using hnan
    decide
  · have hsign : isNegative x =
        isMinus (Sign.ofBitVec (@unpackSign .binary64 x.toBits.toBitVec)) := by
      rw [Bool.eq_iff_iff, isNegative, decide_eq_true_iff, ← Nat.not_lt, ← unpackSign_eq_iff,
        Sign.ofBitVec]
      split <;> simp [isMinus, *]
    rw [hsign]
    change ¬(unpack .binary64 x.toBits.toBitVec).isNaN at hnan
    change _ = isMinus (signOf (unpack .binary64 x.toBits.toBitVec))
    revert hnan
    fun_cases unpack .binary64 x.toBits.toBitVec with
    | case2 => exact fun hnan => absurd rfl hnan
    | case1 | case3 | case4 | case5 => exact fun _ => rfl

theorem classOf_neg (x : Float) : classOf (-x) = classOf x := by
  rw [classOf_eq, classOf_eq, unpack_neg]
  cases x.toModel.unpack <;> rfl

/-- Negation turns the sign around of all doubles but no number. -/
theorem isNegative_neg {x : Float} (h : classOf x ≠ .undefined) :
    isNegative (-x) = !isNegative x := by
  rw [classOf_eq] at h
  rw [isNegative_eq, isNegative_eq, unpack_neg]
  revert h
  cases x.toModel.unpack with
  | notANumber => exact fun h => absurd rfl h
  | infinity s | zero s | finite s => exact fun _ => isMinus_neg s

theorem unpackedClass_eq_undefined_iff (f : UnpackedFloat) :
    unpackedClass f = .undefined ↔ f = .notANumber := by
  cases f <;> simp [unpackedClass]

/-- Packing a quotient neither makes it a number nor takes that away. -/
theorem classOf_div_eq_iff (x y : Float) : classOf (x / y) = .undefined ↔
    div .binary64 x.toModel.unpack y.toModel.unpack = .notANumber := by
  rw [classOf_eq, unpackedClass_eq_undefined_iff, unpack_div]
  constructor
  · intro h
    by_contra hdiv
    exact (signOf_unpack_pack hdiv).1 h
  · intro h
    rw [h]
    exact unpack_packedNaN

/-- When a quotient of two doubles is no number. -/
theorem classOf_div_eq_undefined_iff (x y : Float) : classOf (x / y) = .undefined ↔
    classOf x = .undefined ∨ classOf y = .undefined ∨
      (classOf x = .zero ∧ classOf y = .zero) ∨ (classOf x = .infinite ∧ classOf y = .infinite) := by
  rw [classOf_div_eq_iff, classOf_eq, classOf_eq]
  cases x.toModel.unpack <;> cases y.toModel.unpack <;>
    simp [unpackedClass, div, signOf_roundWithAccuracy]

/-- A quotient that is a number has the quotient of the signs. -/
theorem signOf_div {a b : UnpackedFloat} (h : div .binary64 a b ≠ .notANumber) :
    signOf (div .binary64 a b) = signOf a / signOf b := by
  cases a with
  | notANumber => exact absurd rfl h
  | infinity s =>
    cases b with
    | notANumber | infinity => exact absurd rfl h
    | zero | finite => rfl
  | zero s =>
    cases b with
    | notANumber | zero => exact absurd rfl h
    | infinity | finite => rfl
  | finite s m e hm =>
    cases b with
    | notANumber => exact absurd rfl h
    | infinity | zero => rfl
    | finite => exact (signOf_roundWithAccuracy ..).2

/-- The sign of a quotient is negative if the operands have different signs. -/
theorem isNegative_div {x y : Float} (h : classOf (x / y) ≠ .undefined) :
    isNegative (x / y) = (isNegative x ^^ isNegative y) := by
  rw [Ne, classOf_div_eq_iff] at h
  rw [isNegative_eq, isNegative_eq, isNegative_eq, unpack_div, (signOf_unpack_pack h).2,
    signOf_div h, isMinus_div]

/-! ## Division in scripts -/

theorem classOf_eq_zero_iff (x : Float) : classOf x = .zero ↔ x == 0 := by
  have hzero : (x == 0) = x.toModel.unpack.beq (.zero .positive) := rfl
  rw [classOf_eq, hzero]
  cases x.toModel.unpack with
  | infinity s => cases s <;> decide
  | notANumber => decide
  | zero s => cases s <;> decide
  | finite s m e hm => cases s <;> simp [unpackedClass, UnpackedFloat.beq, UnpackedFloat.compare]

theorem classOf_eq_undefined_iff (x : Float) : classOf x = .undefined ↔ x.isNaN := by
  have hnan : x.isNaN = x.toModel.unpack.isNaN := rfl
  rw [classOf_eq, unpackedClass_eq_undefined_iff, hnan, Float.Model.UnpackedFloat.isNaN_iff]

/-- By anything but a zero, scripts divide as doubles are divided. -/
theorem divide?_of_ne_zero (x : Float) {y : Float} (h : classOf y ≠ .zero) :
    divide? x y = some (x / y) := by
  rw [Ne, classOf_eq_zero_iff] at h
  rw [divide?, if_neg h, quotient?, if_neg h]

/-- By a zero, scripts take the sign of the dividend. -/
theorem divide?_of_zero (x : Float) {y : Float} (h : classOf y = .zero) :
    divide? x y = some (if classOf x = .zero ∨ classOf x = .undefined then nan
      else infinity (isNegative x)) := by
  rw [classOf_eq_zero_iff] at h
  simp only [divide?, if_pos h, Bool.or_eq_true, classOf_eq_zero_iff, classOf_eq_undefined_iff]

theorem classOf_nan : classOf nan = .undefined := by decide

theorem neg_nan : -nan = nan := by decide

theorem classOf_infinity (negative : Bool) : classOf (infinity negative) = .infinite := by
  cases negative <;> decide

theorem isNegative_infinity (negative : Bool) : isNegative (infinity negative) = negative := by
  cases negative <;> decide

theorem neg_infinity (negative : Bool) : -infinity negative = infinity !negative := by
  cases negative <;> decide

/-- The sign and the class of `q` are those of `x` divided by `y`, except that a zero in the divisor
counts as positive. -/
structure Divides (x y q : Float) : Prop where
  undefined : classOf q = .undefined ↔
    classOf x = .undefined ∨ classOf y = .undefined ∨
      (classOf x = .zero ∧ classOf y = .zero) ∨ (classOf x = .infinite ∧ classOf y = .infinite)
  infinite : classOf y = .zero → classOf x = .finite ∨ classOf x = .infinite →
    classOf q = .infinite
  sign : classOf q ≠ .undefined → (isNegative q = (isNegative x ^^ isNegative y) ↔
    ¬(classOf y = .zero ∧ isNegative y))
  sign_of_zero : classOf q ≠ .undefined → classOf y = .zero → isNegative q = isNegative x

theorem divides_div (x : Float) {y : Float} (h : classOf y ≠ .zero) : Divides x y (x / y) where
  undefined := classOf_div_eq_undefined_iff x y
  infinite hzero := absurd hzero h
  sign hq := iff_of_true (isNegative_div hq) fun hzero => h hzero.1
  sign_of_zero _ hzero := absurd hzero h

/-- A division by zero goes as if the zero were positive. -/
theorem divides_zero {x y : Float} (h : classOf y = .zero) :
    Divides x y (if classOf x = .zero ∨ classOf x = .undefined then nan
      else infinity (isNegative x)) := by
  split
  · next hx =>
    refine ⟨iff_of_true classOf_nan ?_, fun _ hx' => ?_, fun hq => absurd classOf_nan hq,
      fun hq => absurd classOf_nan hq⟩
    · rcases hx with hx | hx
      · exact .inr (.inr (.inl ⟨hx, h⟩))
      · exact .inl hx
    · rcases hx with hx | hx <;> simp [hx] at hx'
  · next hx =>
    rw [not_or] at hx
    refine ⟨?_, fun _ _ => classOf_infinity _, fun _ => ?_, fun _ _ => isNegative_infinity _⟩
    · simp [classOf_infinity, h, hx]
    · rw [isNegative_infinity]
      cases isNegative y <;> simp [h]

/-- Every two doubles have a quotient in scripts, and it is turned around by turning the dividend
around.  Turning the divisor around does the same, unless it is zero. -/
theorem exists_divide?_eq (x y : Float) : ∃ q, divide? x y = some q ∧ Divides x y q ∧
    divide? (-x) y = some (-q) ∧
    divide? x (-y) = some (if classOf y = .zero then q else -q) := by
  by_cases hy : classOf y = .zero
  · refine ⟨_, divide?_of_zero x hy, divides_zero hy, ?_, ?_⟩
    · rw [divide?_of_zero _ hy, classOf_neg]
      split
      · rw [neg_nan]
      · next hx =>
        rw [isNegative_neg fun h => hx (.inr h), neg_infinity]
    · rw [divide?_of_zero x ((classOf_neg y).trans hy), if_pos hy]
  · refine ⟨_, divide?_of_ne_zero x hy, divides_div x hy, ?_, ?_⟩
    · rw [divide?_of_ne_zero _ hy, neg_div]
    · rw [divide?_of_ne_zero x fun h => hy ((classOf_neg y).symm.trans h), if_neg hy, div_neg]

end Boli.Double

namespace Boli.Action

open Double

/-- Scripts divide the numbers that values stand for. -/
theorem binary_div {l r : Value} {x y q : Float} (hl : l.numeric? = some x)
    (hr : r.numeric? = some y) (hq : divide? x y = some q) (line : Line) (m : Machine) :
    binary .div l r line m = .ok (.number q) m := by
  cases l with
  | boolean | number =>
    cases r with
    | boolean | number =>
      cases hl
      cases hr
      change (ofHost .divisionByZero (divide? _ _) >>= fun z => pure (Value.number z)) m = _
      rw [hq]
      rfl
    | null | text | list | function | foreign => cases hr
  | null | text | list | function | foreign => cases hl

theorem unary_sub {v : Value} {x : Float} (h : v.numeric? = some x) (line : Line) (m : Machine) :
    unary .sub v line m = .ok (.number (-x)) m := by
  cases v with
  | boolean | number =>
    cases h
    rfl
  | null | text | list | function | foreign => cases h

/-- Two numbers or booleans have a quotient, whose sign and class are those of a quotient of doubles
but for a negative zero in the divisor.  Turning the dividend around turns the quotient around, and
so does turning the divisor around, unless it is zero. -/
theorem binary_div_signs {l r : Value} {x y : Float} (hl : l.numeric? = some x)
    (hr : r.numeric? = some y) (line : Line) (m : Machine) :
    ∃ q, binary .div l r line m = .ok (.number q) m ∧ Divides x y q ∧
      (classOf (-q) = classOf q ∧ (classOf q ≠ .undefined → isNegative (-q) = !isNegative q)) ∧
      (do let l' ← unary .sub l line; binary .div l' r line) m = .ok (.number (-q)) m ∧
      (do let r' ← unary .sub r line; binary .div l r' line) m =
        .ok (.number (if classOf y = .zero then q else -q)) m := by
  obtain ⟨q, hq, hdivides, hleft, hright⟩ := exists_divide?_eq x y
  refine ⟨q, binary_div hl hr hq line m, hdivides, ⟨classOf_neg q, isNegative_neg⟩, ?_, ?_⟩
  · rw [bind_of_ok (unary_sub hl line m), binary_div rfl hr hleft]
  · rw [bind_of_ok (unary_sub hr line m), binary_div hl rfl hright]

/-- Minus three divided by truth is negative. -/
theorem binary_div_signs_negative :
    (Value.number (-3)).numeric? = some (-3) ∧ (Value.boolean true).numeric? = some 1 ∧
    ∃ q, binary .div (.number (-3)) (.boolean true) none (.fresh .unavailable {}) =
      .ok (.number q) (.fresh .unavailable {}) ∧ isNegative q = true := by
  obtain ⟨q, hq, hdivides, -⟩ := @binary_div_signs (.number (-3)) (.boolean true) (-3) 1 rfl rfl
    none (.fresh .unavailable {})
  have hclass : classOf q ≠ .undefined := by
    rw [Ne, hdivides.undefined]
    decide
  have hsign := (hdivides.sign hclass).2 (by decide)
  exact ⟨rfl, rfl, q, hq, hsign.trans (by decide)⟩

/-- One divided by minus zero is positive, although the signs of the operands differ. -/
theorem binary_div_negative_zero :
    (do let zero ← unary .sub (.number 0) none; binary .div (.number 1) zero none)
      (.fresh .unavailable {}) = .ok (.number (infinity false)) (.fresh .unavailable {}) ∧
    isNegative (infinity false) = false ∧ isNegative 1 = false ∧ isNegative (-0) = true := by
  have hquotient : divide? 1 (-0) = some (infinity false) := by decide
  refine ⟨?_, by decide, by decide, by decide⟩
  rw [bind_of_ok (unary_sub rfl none _), binary_div rfl rfl hquotient]

end Boli.Action
