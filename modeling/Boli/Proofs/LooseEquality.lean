import Mathlib
import Boli.Store.Display

/-!
# Loose equality

Values that are neither numbers nor booleans are equal to themselves and to nothing of their own
kind.  As soon as one side is a number or a boolean, both sides count as numbers, and a text counts
as the number that it holds.  `Value.Agrees` says so in two rules, and `Value.looselyEquals_iff`
that the function follows them.

Equality is symmetric, and reflexive but for the value that is no number.  It is transitive with one
gap: two different texts may hold the same number.
-/

namespace Boli

namespace Value

/-- The number that a value counts as beside a number: its own, or the one that a text holds. -/
def amount? : Value → Option Float
  | text s => Numeral.ofText? s
  | v => v.numeric?

/-- The two values are equal: they are the same and no numbers, or they count as equal numbers and
one of them is a number or a boolean. -/
inductive Agrees : Value → Value → Prop where
  | same (h : v.numeric? = none) : Agrees v v
  | amount (h : v.numeric?.isSome ∨ w.numeric?.isSome) (hv : v.amount? = some x)
    (hw : w.amount? = some y) (hxy : x == y) : Agrees v w

variable {a b c v w : Value} {x y : Float}

/-- What is a number or a boolean counts as that number. -/
theorem amount?_of_isSome (h : v.numeric?.isSome) : v.amount? = v.numeric? := by
  cases v with
  | boolean | number => rfl
  | null | text | list | function | foreign => cases h

/-- Only a number, a boolean or a text counts as a number. -/
theorem type?_of_amount? (h : v.amount? = some x) (hv : v.numeric? = none) :
    v.type? = some .text := by
  cases v with
  | text => rfl
  | boolean | number => cases hv
  | null | list | function | foreign => cases h

/-- With a number on one side, equality is that of the amounts. -/
theorem agrees_iff_amount (h : v.numeric?.isSome ∨ w.numeric?.isSome) :
    v.Agrees w ↔ ∃ x y, v.amount? = some x ∧ w.amount? = some y ∧ x == y := by
  constructor
  · rintro (hnone | ⟨-, hv, hw, hxy⟩)
    · simp [hnone] at h
    · exact ⟨_, _, hv, hw, hxy⟩
  · rintro ⟨x, y, hv, hw, hxy⟩
    exact .amount h hv hw hxy

/-- Without a number on either side, equality is that of the values. -/
theorem agrees_iff_eq (hv : v.numeric? = none) (hw : w.numeric? = none) :
    v.Agrees w ↔ v = w := by
  constructor
  · rintro (_ | ⟨hsome, -, -, -⟩)
    · rfl
    · simp [hv, hw] at hsome
  · rintro rfl
    exact .same hv

/-- The amount of a text beside a number. -/
theorem any_ofText?_iff {s : String} (f : Float → Bool) :
    (Numeral.ofText? s).any f ↔ ∃ x, (text s).amount? = some x ∧ f x := by
  rw [Option.any_eq_true, amount?]

/-- The function follows the two rules. -/
theorem looselyEquals_iff (v w : Value) : v.looselyEquals w ↔ v.Agrees w := by
  by_cases hnumeric : v.numeric?.isSome ∨ w.numeric?.isSome
  · rw [agrees_iff_amount hnumeric]
    cases v with
    | text s =>
      obtain ⟨y, hy⟩ := Option.isSome_iff_exists.1 (hnumeric.resolve_left (by simp [numeric?]))
      have hw : w.amount? = some y := (amount?_of_isSome (by simp [hy])).trans hy
      have heq : (text s).looselyEquals w = (Numeral.ofText? s).any (· == y) := by
        cases w <;> simp_all [looselyEquals, numeric?]
      simp [heq, any_ofText?_iff, hw]
    | null | list | function | foreign =>
      have hw : w.numeric?.isSome := hnumeric.resolve_left (by simp [numeric?])
      cases w <;> simp_all [looselyEquals, numeric?, amount?, isSameObject]
    | boolean | number =>
      cases w with
      | text t => simp [looselyEquals, numeric?, any_ofText?_iff, amount?]
      | _ => simp [looselyEquals, numeric?, amount?, isSameObject]
  · simp only [not_or, Bool.not_eq_true, Option.isSome_eq_false_iff, Option.isNone_iff_eq_none]
      at hnumeric
    rw [agrees_iff_eq hnumeric.1 hnumeric.2]
    cases v <;> cases w <;> simp_all [looselyEquals, numeric?, isSameObject]

namespace Agrees

theorem symm (h : v.Agrees w) : w.Agrees v := by
  cases h with
  | same h => exact .same h
  | amount h hv hw hxy => exact .amount h.symm hw hv (BEq.symm hxy)

/-- Amounts that are equal to the same amount are equal. -/
theorem trans_amount (hab : a.Agrees b) (hbc : b.Agrees c)
    (h : a.numeric?.isSome ∨ b.numeric?.isSome) (h' : b.numeric?.isSome ∨ c.numeric?.isSome)
    (hac : a.numeric?.isSome ∨ c.numeric?.isSome) : a.Agrees c := by
  obtain ⟨x, y, ha, hb, hxy⟩ := (agrees_iff_amount h).1 hab
  obtain ⟨y', z, hb', hc, hyz⟩ := (agrees_iff_amount h').1 hbc
  obtain rfl : y = y' := Option.some.inj (hb.symm.trans hb')
  exact .amount hac ha hc (BEq.trans hxy hyz)

/-- A value that is no number agrees with a number only if it is a text. -/
theorem type?_left (h : v.Agrees w) (hv : v.numeric? = none) (hw : w.numeric?.isSome) :
    v.type? = some .text := by
  obtain ⟨x, _, hx, _⟩ := (agrees_iff_amount (.inr hw)).1 h
  exact type?_of_amount? hx hv

/-- Equality is transitive, unless it leads from a text through a number to a text. -/
theorem trans (hab : a.Agrees b) (hbc : b.Agrees c)
    (hgap : ¬(a.type? = some .text ∧ c.type? = some .text ∧ b.numeric?.isSome)) : a.Agrees c := by
  cases hb : b.numeric? with
  | some y =>
    -- both steps compare amounts, and one of the outer values is a number itself
    have hb' : b.numeric?.isSome := by simp [hb]
    refine hab.trans_amount hbc (.inr hb') (.inl hb') ?_
    by_contra hnone
    simp only [not_or, Bool.not_eq_true, Option.isSome_eq_false_iff, Option.isNone_iff_eq_none]
      at hnone
    exact hgap ⟨hab.type?_left hnone.1 hb', hbc.symm.type?_left hnone.2 hb', hb'⟩
  | none =>
    -- a step between two values that are no numbers goes nowhere
    cases ha : a.numeric? with
    | none =>
      obtain rfl := (agrees_iff_eq ha hb).1 hab
      exact hbc
    | some x =>
      cases hc : c.numeric? with
      | none =>
        obtain rfl := (agrees_iff_eq hb hc).1 hbc
        exact hab
      | some z =>
        exact hab.trans_amount hbc (.inl (by simp [ha])) (.inr (by simp [hc])) (.inl (by simp [ha]))

/-- A value agrees with itself unless it is no number. -/
theorem refl_iff (v : Value) : v.Agrees v ↔ ∀ x, v = number x → x.isNaN = false := by
  cases hv : v.numeric? with
  | none =>
    refine iff_of_true (.same hv) fun x hx => ?_
    rw [hx] at hv
    cases hv
  | some x =>
    have hamount : v.amount? = some x := (amount?_of_isSome (by simp [hv])).trans hv
    rw [agrees_iff_amount (.inl (by simp [hv])), hamount]
    cases v with
    | number y =>
      obtain rfl : y = x := Option.some.inj hv
      simp
    | boolean b =>
      obtain rfl : (if b then 1 else 0) = x := Option.some.inj hv
      have hne : (1 : Float) ≠ Float.nan ∧ (0 : Float) ≠ Float.nan := by decide
      cases b <;> simp [hne]
    | null | text | list | function | foreign => cases hv

end Agrees

/-- Values are equal if they are values of the language and agree. -/
theorem looselyEquals?_eq_true_iff :
    v.looselyEquals? w = some true ↔ (v.type?.isSome ∧ w.type?.isSome) ∧ v.Agrees w := by
  rw [← looselyEquals_iff, looselyEquals?]
  simp

/-- The order of the values does not matter, even where there is no answer. -/
theorem looselyEquals?_comm (v w : Value) : v.looselyEquals? w = w.looselyEquals? v := by
  have hcomm : v.looselyEquals w = w.looselyEquals v := by
    rw [Bool.eq_iff_iff, looselyEquals_iff, looselyEquals_iff]
    exact ⟨Agrees.symm, Agrees.symm⟩
  rw [looselyEquals?, looselyEquals?, hcomm, Bool.and_comm]

/-- Loose equality is an equivalence with one gap.  It does not depend on the order of the two
values, a value of the language equals itself unless it is no number, and what two values have in
common they pass on, unless two texts are compared by way of a number or a boolean. -/
theorem looselyEquals?_equivalence (a b c : Value) :
    a.looselyEquals? b = b.looselyEquals? a ∧
    (a.type?.isSome → (a.looselyEquals? a = some true ↔ ∀ x, a = number x → x.isNaN = false)) ∧
    (a.looselyEquals? b = some true → b.looselyEquals? c = some true →
      ¬(a.type? = some .text ∧ c.type? = some .text ∧
        (b.type? = some .number ∨ b.type? = some .boolean)) →
      a.looselyEquals? c = some true) := by
  refine ⟨looselyEquals?_comm a b, fun ha => ?_, fun hab hbc hgap => ?_⟩
  · rw [looselyEquals?_eq_true_iff, Agrees.refl_iff]
    simp [ha]
  · obtain ⟨⟨ha, _⟩, hab⟩ := looselyEquals?_eq_true_iff.1 hab
    obtain ⟨⟨_, hc⟩, hbc⟩ := looselyEquals?_eq_true_iff.1 hbc
    refine looselyEquals?_eq_true_iff.2 ⟨⟨ha, hc⟩, hab.trans hbc ?_⟩
    rintro ⟨hta, htc, hb⟩
    refine hgap ⟨hta, htc, ?_⟩
    cases b with
    | number => exact .inl rfl
    | boolean => exact .inr rfl
    | null | text | list | function | foreign => cases hb

/-- Truth equals one and the text of one, but two texts of one differ. -/
theorem looselyEquals?_equivalence_gap :
    (boolean true).looselyEquals? (text " 1 ") = some true ∧
      (number 1).looselyEquals? (text " 1 ") = some true ∧
      (text " 1 ").looselyEquals? (text "1.0") = some false := by
  obtain ⟨-, -, htrans⟩ := looselyEquals?_equivalence (boolean true) (number 1) (text " 1 ")
  have hone : (boolean true).looselyEquals? (number 1) = some true := by decide
  have htext : (number 1).looselyEquals? (text " 1 ") = some true := by decide +kernel
  exact ⟨htrans hone htext (by decide), htext, by decide +kernel⟩

end Value

end Boli
