import Boli.Proofs.Frame
import Boli.Proofs.NumberTexts
import Boli.Proofs.Ordinals
import Boli.Proofs.Rescanning

/-!
# Printed numbers that read back

A script prints a number as a text.  Where that text has no exponent, it holds the same number
again, both as a text value and as a literal of a program.  An exponent is read in neither place.
A whole number never has one, however large it is, and a fraction has one exactly if it is nearer
to zero than a ten-thousandth (`Numeral.exists_display?_eq`).
-/

namespace Boli

open Boli.Text

/-! ## Blanks -/

namespace Text

theorem isBlank_of_isDigit {c : Char} (h : isDigit c) : isBlank c = false := by
  simp only [isDigit, digit?, Option.isSome_map] at h
  obtain ⟨origin, horigin⟩ := Option.isSome_iff_exists.1 h
  have hmem := List.mem_of_find?_eq_some horigin
  have hrun := List.find?_some horigin
  simp only [Bool.and_eq_true, decide_eq_true_eq] at hrun
  have hall : ∀ o ∈ zeros, ∀ k < 10, isBlankCode (o + k) = false := by decide
  have hblank := hall origin hmem (c.toNat - origin) (by omega)
  rwa [Nat.add_sub_cancel' hrun.1] at hblank

/-- Nothing is trimmed off a text without blanks. -/
theorem trim_of_forall {cs : List Char} (h : ∀ c ∈ cs, isBlank c = false) : trim cs = cs := by
  have hleft : ∀ {ds : List Char}, (∀ c ∈ ds, isBlank c = false) → trimLeft ds = ds := by
    intro ds hds
    cases ds with
    | nil => rfl
    | cons c ds => exact trimLeft_of_head ds (hds c List.mem_cons_self)
  rw [trim, hleft h, hleft fun c hc => h c (List.mem_reverse.1 hc), List.reverse_reverse]

/-- No other characters than blanks are trimmed off. -/
theorem mem_trim {c : Char} {cs : List Char} (hc : c ∈ cs) (h : isBlank c = false) :
    c ∈ trim cs := by
  have hleft : ∀ {ds : List Char}, c ∈ ds → c ∈ trimLeft ds := by
    intro ds hds
    rw [← List.takeWhile_append_dropWhile (p := isBlank) (l := ds), List.mem_append] at hds
    refine hds.resolve_left fun hmem => ?_
    rw [List.mem_takeWhile_imp hmem] at h
    cases h
  rw [trim, List.mem_reverse]
  exact hleft (List.mem_reverse.2 (hleft hc))

end Text

/-! ## Text values -/

namespace Numeral

/-- A text with a sign in front of it or without one. -/
def signed (negative : Bool) (cs : List Char) : List Char :=
  if negative then '-' :: cs else cs

/-- A sign in front of a number is read as the sign of the double. -/
theorem readSigned?_signed {cs : List Char} {d : Decimal} (h : readUnsigned? cs = some d)
    (negative : Bool) :
    readSigned? (signed negative cs) = some (Double.ofOrdinal negative d.ordinal) := by
  cases negative with
  | true =>
    change (readUnsigned? cs).map _ = _
    rw [h]
    rfl
  | false =>
    change readSigned? cs = _
    have hhead : ∀ c ∈ cs, c ≠ '-' ∧ c ≠ '+' := by
      intro c hc
      rcases isDigit_or_eq_point h c hc with hdigit | rfl
      · constructor <;> rintro rfl <;> exact absurd hdigit (by decide)
      · decide
    unfold readSigned?
    split
    · next ds => exact absurd rfl (hhead '-' List.mem_cons_self).1
    · next ds => exact absurd rfl (hhead '+' List.mem_cons_self).2
    · rw [h]
      rfl

/-- A text that spells a double holds it, with either sign. -/
theorem ofText?_signed {cs : List Char} {n : Nat} (h : Spells cs n) (negative : Bool) :
    ofText? (String.ofList (signed negative cs)) = some (Double.ofOrdinal negative n) := by
  obtain ⟨_, d, hread, rfl⟩ := h
  have hblank : ∀ c ∈ signed negative cs, isBlank c = false := by
    intro c hc
    have hcases : c = '-' ∨ c ∈ cs := by
      cases negative with
      | true => exact List.mem_cons.1 hc
      | false => exact .inr hc
    rcases hcases with rfl | hc
    · decide
    · rcases isDigit_or_eq_point hread c hc with hdigit | rfl
      · exact isBlank_of_isDigit hdigit
      · decide
  rw [ofText?, String.toList_ofList, trim_of_forall hblank, readSigned?_signed hread]

/-- A text with a letter in it holds no number. -/
theorem ofText?_eq_none {cs : List Char} (h : 'e' ∈ cs) : ofText? (String.ofList cs) = none := by
  have hread : ∀ {ds : List Char}, 'e' ∈ ds → readUnsigned? ds = none := by
    intro ds hds
    rw [Option.eq_none_iff_forall_ne_some]
    intro d hd
    rcases isDigit_or_eq_point hd 'e' hds with hdigit | hpoint
    · exact absurd hdigit (by decide)
    · exact absurd hpoint (by decide)
  have hmem : 'e' ∈ trim cs := mem_trim h (by decide)
  rw [ofText?, String.toList_ofList]
  unfold readSigned?
  split
  · next ds heq =>
    rw [heq] at hmem
    rw [hread ((List.mem_cons.1 hmem).resolve_left (by decide))]
    rfl
  · next ds heq =>
    rw [heq] at hmem
    rw [hread ((List.mem_cons.1 hmem).resolve_left (by decide))]
    rfl
  · rw [hread hmem]
    rfl

end Numeral

/-! ## Literals -/

/-- A number is made of digits and points. -/
theorem Lexeme.isNumber_chars {cs : List Char} (h : isNumber cs) :
    ∀ c ∈ cs, isDigit c ∨ c = '.' := by
  obtain ⟨d, hd⟩ := Option.isSome_iff_exists.1 (Numeral.isSome_readUnsigned? h)
  exact Numeral.isDigit_or_eq_point hd

/-- No gap begins with a character that is neither blank nor a slash. -/
theorem Lexeme.read_ne_gap {before : Option Char} {c : Char} {cs : List Char} {more : Nat}
    (h : c ∉ ['/', '\n', '\r', ' ', '\t']) : read before c cs ≠ ⟨.gap, more⟩ := by
  simp only [List.mem_cons, List.not_mem_nil, or_false, not_or] at h
  rw [read]
  split
  · simp
  · split
    · simp
    · rw [readPlain]
      split
      · simp
      · split
        · split <;> simp
        · split
          · simp
          · rw [if_neg h.1, readMark]
            split
            · simp
            · rw [if_neg]
              · simp
              · simp [isSpace, h]

namespace Token

/-- A number is one token. -/
theorem ofText_of_isNumber {cs : List Char} (h : Lexeme.isNumber cs) :
    ∃ q, ofText (String.ofList cs) = .ok [⟨.number, String.ofList cs, .first⟩, endAt q] := by
  cases cs with
  | nil => cases h
  | cons c cs =>
    have hread := @Lexeme.read_number none c cs [] h (Or.inl rfl)
    have hrest := scan_inside cs (some c) (Position.first.after c) []
    rw [List.append_nil] at hread hrest
    refine ⟨(Position.first.after c).afterAll cs, ?_⟩
    rw [ofText, String.toList_ofList, scan, hread]
    simp only [hrest]
    rfl

/-- Where a token begins, there are two tokens at least, with the mark of the end. -/
theorem length_of_scan {before : Option Char} {p : Position} {c : Char} {cs : List Char}
    {tokens : List Token} (hc : c ∉ ['/', '\n', '\r', ' ', '\t'])
    (h : scan 0 before p (c :: cs) = .ok tokens) : 2 ≤ tokens.length := by
  rw [scan] at h
  split at h
  · cases h
  · next more hread => exact absurd hread (Lexeme.read_ne_gap hc)
  · next kind value more hread =>
    cases hrest : scan more (some c) (p.after c) cs with
    | error e =>
      rw [hrest] at h
      cases h
    | ok rest =>
      rw [hrest] at h
      cases h
      obtain ⟨q, hq⟩ := getLast?_of_scan hrest
      cases rest with
      | nil => cases hq
      | cons t ts => simp

/-- A scan goes on behind the characters of a lexeme. -/
theorem exists_scan_drop {more : Nat} {cs : List Char} (h : more ≤ cs.length) (before : Option Char)
    (p : Position) : ∃ before' p', scan more before p cs = scan 0 before' p' (cs.drop more) := by
  have hskip := scan_inside (cs.take more) before p (cs.drop more)
  rw [List.length_take_of_le h, List.take_append_drop] at hskip
  exact ⟨_, _, hskip⟩

/-- A number ends before an exponent. -/
theorem numberMore_le_length {c : Char} (hc : isDigit c) (cs rest : List Char) :
    Lexeme.numberMore (cs ++ 'e' :: rest) ≤ cs.length := by
  have hnumber := Lexeme.isNumber_chars (Lexeme.isNumber_take (cs ++ 'e' :: rest) hc)
  by_contra hlt
  obtain ⟨k, hk⟩ := Nat.exists_eq_add_of_lt (Nat.not_le.1 hlt)
  have hmem : 'e' ∈ (cs ++ 'e' :: rest).take (Lexeme.numberMore (cs ++ 'e' :: rest)) := by
    rw [hk, Nat.add_assoc, List.take_length_add_append, List.take_succ_cons]
    simp
  exact absurd (hnumber 'e' (List.mem_cons_of_mem c hmem)) (by decide)

/-- Behind the number in front of an exponent, another token begins. -/
theorem length_of_hasExponent {cs : List Char} (h : Numeral.HasExponent cs) {tokens : List Token}
    (hscan : ofText (String.ofList cs) = .ok tokens) : 3 ≤ tokens.length := by
  obtain ⟨mantissa, rest, rfl, hmantissa⟩ := h
  cases mantissa with
  | nil => cases hmantissa
  | cons c cs =>
    obtain ⟨hc, -⟩ := Lexeme.numberMore_spaced hmantissa (Or.inl rfl)
    rw [ofText, String.toList_ofList, List.cons_append, scan,
      Lexeme.read_head _ fun letter hletter => Lexeme.not_isLetter_of_isDigit hletter hc,
      Lexeme.readPlain, if_pos hc] at hscan
    have hmore := numberMore_le_length hc cs rest
    generalize Lexeme.numberMore (cs ++ 'e' :: rest) = more at hscan hmore
    obtain ⟨d, ds, hrest, hd⟩ : ∃ d ds, cs.drop more ++ 'e' :: rest = d :: ds ∧
        (d ∈ c :: cs ∨ d = 'e') := by
      cases hdrop : cs.drop more with
      | nil => exact ⟨'e', rest, rfl, .inr rfl⟩
      | cons d ds =>
        refine ⟨d, ds ++ 'e' :: rest, rfl, .inl (List.mem_cons_of_mem c ?_)⟩
        exact List.mem_of_mem_drop (hdrop ▸ List.mem_cons_self)
    obtain ⟨before, p, hinside⟩ := exists_scan_drop
      (hmore.trans (by simp : cs.length ≤ (cs ++ 'e' :: rest).length)) (some c)
      (Position.first.after c)
    rw [List.drop_append_of_le_length hmore, hrest] at hinside
    simp only [hinside] at hscan
    cases htokens : scan 0 before p (d :: ds) with
    | error e =>
      rw [htokens] at hscan
      cases hscan
    | ok ts =>
      rw [htokens] at hscan
      cases hscan
      refine Nat.succ_le_succ (length_of_scan ?_ htokens)
      rcases hd with hd | rfl
      · rcases Lexeme.isNumber_chars hmantissa d hd with hdigit | rfl
        · simp only [List.mem_cons, List.not_mem_nil, or_false]
          rintro (rfl | rfl | rfl | rfl | rfl) <;> exact absurd hdigit (by decide)
        · decide
      · decide

end Token

/-! ## The printed text -/

theorem Double.units_eq_zero_iff {n : Nat} : units n = 0 ↔ n = 0 := by
  refine ⟨fun h => ?_, fun h => h ▸ units_zero⟩
  by_contra hne
  have hlt := units_strictMono (Nat.pos_of_ne_zero hne)
  omega

namespace Numeral

/-- A double that is zero or at least a ten-thousandth away from it. -/
def Plain (x : Float) : Prop :=
  Double.magnitude x = 0 ∨ Decimal.ordinal ⟨1, -4⟩ ≤ Double.magnitude x

instance (x : Float) : Decidable (Plain x) :=
  inferInstanceAs (Decidable (_ ∨ _))

theorem ordinal_zero (e : Int) : Decimal.ordinal ⟨0, e⟩ = 0 := by
  rw [Decimal.ordinal, Decimal.num, Nat.zero_mul, Nat.zero_mul]
  have hzero := Double.nearest_units (Decimal.den_pos ⟨0, e⟩) (Nat.zero_le Double.infinite)
  rwa [Double.units_zero, Nat.zero_mul] at hzero

/-- A decimal that is not read as zero has a digit that is not zero. -/
theorem coefficient_ne_zero {d : Decimal} (h : d.ordinal ≠ 0) : d.coefficient ≠ 0 := by
  intro hzero
  obtain ⟨c, e⟩ := d
  cases hzero
  exact h (ordinal_zero e)

/-- A decimal with its first digit at `place` or further left is at least that power of ten. -/
theorem ordinal_le_of_le_leading {d : Decimal} {place : Int} (h : d.coefficient ≠ 0)
    (hplace : place ≤ leading d) : Decimal.ordinal ⟨1, place⟩ ≤ d.ordinal := by
  have hlength : 0 < (Nat.toDigits 10 d.coefficient).length := Nat.length_toDigits_pos
  refine Decimal.le_ordinal (k := (Nat.toDigits 10 d.coefficient).length - 1) ?_ ?_
  · by_contra hlt
    cases hk : (Nat.toDigits 10 d.coefficient).length - 1 with
    | zero =>
      rw [hk, Nat.pow_zero] at hlt
      omega
    | succ k =>
      rw [hk] at hlt
      have hle := (Nat.length_toDigits_le_iff (b := 10) (by decide) k.succ_pos).2 (Nat.not_le.1 hlt)
      omega
  · rw [leading] at hplace
    omega

/-- A decimal with its first digit further right is at most that power of ten. -/
theorem ordinal_le_of_leading_lt {d : Decimal} {place : Int} (hplace : leading d < place) :
    d.ordinal ≤ Decimal.ordinal ⟨1, place⟩ := by
  refine Decimal.ordinal_le (k := (Nat.toDigits 10 d.coefficient).length) ?_ ?_
  · exact ((Nat.length_toDigits_le_iff (b := 10) (by decide) Nat.length_toDigits_pos).1 le_rfl).le
  · rw [leading] at hplace
    omega

/-- The ten-thousandth and the ten quadrillions, between which texts go without an exponent, as
doubles. -/
theorem layout_bounds :
    -4 ≤ leading (Decimal.shortest (Decimal.ordinal ⟨1, -4⟩)) ∧
      Double.units (Decimal.ordinal ⟨1, -4⟩) < Double.unitsInOne ∧
      1075 * Double.binade ≤ Decimal.ordinal ⟨1, 16⟩ := by
  decide +kernel

section Shortest

variable {n : Nat} (hpos : n ≠ 0) (hfinite : n < Double.infinite)
include hpos hfinite

theorem coefficient_shortest_ne_zero : (Decimal.shortest n).coefficient ≠ 0 :=
  coefficient_ne_zero (by rwa [Decimal.ordinal_shortest hfinite.le])

/-- The first digit tells how far the double is from zero. -/
theorem le_leading_shortest_iff :
    -4 ≤ leading (Decimal.shortest n) ↔ Decimal.ordinal ⟨1, -4⟩ ≤ n := by
  have hordinal := Decimal.ordinal_shortest hfinite.le
  constructor
  · intro hplace
    have hle := ordinal_le_of_le_leading (coefficient_shortest_ne_zero hpos hfinite) hplace
    rwa [hordinal] at hle
  · intro hle
    by_contra hlt
    have hge := ordinal_le_of_leading_lt (Int.not_le.1 hlt)
    rw [hordinal] at hge
    have heq : n = Decimal.ordinal ⟨1, -4⟩ := Nat.le_antisymm hge hle
    rw [heq] at hlt
    exact hlt layout_bounds.1

/-- From ten quadrillions on, every double is whole. -/
theorem leading_shortest_lt (hwhole : Double.units n % Double.unitsInOne ≠ 0) :
    leading (Decimal.shortest n) < 16 := by
  by_contra hle
  have hge := ordinal_le_of_le_leading (coefficient_shortest_ne_zero hpos hfinite)
    (Int.not_lt.1 hle)
  rw [Decimal.ordinal_shortest hfinite.le] at hge
  have hlarge : 1075 * Double.binade ≤ n := layout_bounds.2.2.trans hge
  have hshift : Double.unitBits ≤ n / Double.binade - 1 := by
    unfold Double.unitBits Double.binade at *
    omega
  refine hwhole (Nat.mod_eq_zero_of_dvd (Dvd.dvd.mul_left ?_ _))
  unfold Double.unitsInOne
  generalize Double.unitBits = k at hshift ⊢
  exact Nat.pow_dvd_pow 2 hshift

/-- The shortest text of a fraction has a point if the double is far enough from zero, and an
exponent otherwise. -/
theorem layout_shortest (hwhole : Double.units n % Double.unitsInOne ≠ 0) :
    (Decimal.ordinal ⟨1, -4⟩ ≤ n → Spells (layout (Decimal.shortest n)) n) ∧
      (¬Decimal.ordinal ⟨1, -4⟩ ≤ n → HasExponent (layout (Decimal.shortest n))) := by
  have hcoefficient := coefficient_shortest_ne_zero hpos hfinite
  have hiff := le_leading_shortest_iff hpos hfinite
  have hlayout : layout (Decimal.shortest n) =
      if -4 ≤ leading (Decimal.shortest n) ∧ leading (Decimal.shortest n) < 16 then
        positional (significant (Decimal.shortest n).coefficient) (leading (Decimal.shortest n))
      else
        scientific (significant (Decimal.shortest n).coefficient) (leading (Decimal.shortest n)) := rfl
  rw [hlayout]
  constructor
  · intro hle
    rw [if_pos ⟨hiff.2 hle, leading_shortest_lt hpos hfinite hwhole⟩]
    have hspells := spells_positional hcoefficient
    rwa [Decimal.ordinal_shortest hfinite.le] at hspells
  · intro hlt
    rw [if_neg fun hplace => hlt (hiff.1 hplace.1)]
    exact hasExponent_scientific (significant_ne_nil hcoefficient) (all_significant _) _

end Shortest

/-- A whole number that is not zero is at least a ten-thousandth. -/
theorem le_of_whole {n : Nat} (hpos : n ≠ 0) (hwhole : Double.units n % Double.unitsInOne = 0) :
    Decimal.ordinal ⟨1, -4⟩ ≤ n := by
  by_contra hlt
  have hunits := Double.units_strictMono (Nat.not_le.1 hlt)
  have hone := layout_bounds.2.1
  have hzero : Double.units n = 0 := by
    rwa [Nat.mod_eq_of_lt (hunits.trans hone)] at hwhole
  exact hpos (Double.units_eq_zero_iff.1 hzero)

/-- A whole number that is not zero has a part in front of the point. -/
theorem units_div_ne_zero {n : Nat} (hwhole : Double.units n % Double.unitsInOne = 0) :
    (Double.units n / Double.unitsInOne != 0) = (n != 0) := by
  rw [Bool.eq_iff_iff, bne_iff_ne, bne_iff_ne, Ne, Ne, not_iff_not, ← @Double.units_eq_zero_iff n]
  refine ⟨fun hk => ?_, fun hunits => by rw [hunits, Nat.zero_div]⟩
  rw [← Nat.div_mul_cancel (Nat.dvd_of_mod_eq_zero hwhole), hk, Nat.zero_mul]

/-- The text of a negative integer, with no sign in front of zero. -/
theorem toString_neg (k : Nat) : toString (-(k : Int)) =
    String.ofList (signed (k != 0) (Nat.toDigits 10 k)) := by
  cases k with
  | zero => rfl
  | succ k =>
    change "-" ++ toString (k + 1) = _
    rw [Nat.toString_eq_ofList_toDigits]
    apply String.toList_injective
    simp [signed]

/-- The text of a whole double is that of an integer. -/
theorem toString_wholePart {x : Float} {k : Nat}
    (hk : Double.units (Double.magnitude x) / Double.unitsInOne = k) :
    toString (Double.wholePart x) =
      String.ofList (signed (Double.isNegative x && k != 0) (Nat.toDigits 10 k)) := by
  rw [Double.wholePart, ← Int.natCast_ediv, hk]
  cases Double.isNegative x with
  | true => exact toString_neg k
  | false => exact Nat.toString_eq_ofList_toDigits

/-- The digits of a whole double spell it. -/
theorem spells_units {n : Nat} (hn : n ≤ Double.infinite)
    (hwhole : Double.units n % Double.unitsInOne = 0) :
    Spells (Nat.toDigits 10 (Double.units n / Double.unitsInOne)) n := by
  have hspells := spells_whole (Double.units n / Double.unitsInOne)
  have hunits := Nat.div_mul_cancel (Nat.dvd_of_mod_eq_zero hwhole)
  have hordinal : Decimal.ordinal ⟨Double.units n / Double.unitsInOne, 0⟩ = n := by
    rw [Decimal.ordinal, Decimal.num, Decimal.den]
    change Double.nearest (_ * 1 * _) 1 = n
    rw [Nat.mul_one, hunits, ← Nat.mul_one (Double.units n)]
    exact Double.nearest_units Nat.one_pos hn
  rwa [hordinal] at hspells

/-- The text that a script prints for a finite double: its sign, and digits with a point or an
exponent. -/
theorem exists_display?_eq {x : Float} (hx : Double.magnitude x < Double.infinite) :
    ∃ cs, display? x = some (String.ofList
        (signed (Double.isNegative x && Double.magnitude x != 0) cs)) ∧
      if Plain x then Spells cs (Double.magnitude x) else HasExponent cs := by
  have hnan : x.isNaN = false := by
    rw [Bool.eq_false_iff, Ne, Double.isNaN_iff]
    omega
  have hinf : x.isInf = false := by
    rw [Bool.eq_false_iff, Ne, Double.isInf_iff]
    omega
  rw [display?, hnan, hinf]
  simp only [Bool.false_eq_true, ↓reduceIte]
  split
  · next hwhole =>
    rw [Double.toInt?_of_isWhole hwhole]
    simp only [Double.isWhole, Bool.and_eq_true, beq_iff_eq] at hwhole
    refine ⟨Nat.toDigits 10 (Double.units (Double.magnitude x) / Double.unitsInOne), ?_, ?_⟩
    · rw [Option.map_some, toString_wholePart rfl, units_div_ne_zero hwhole.2]
    · have hplain : Plain x := by
        by_cases hzero : Double.magnitude x = 0
        · exact .inl hzero
        · exact .inr (le_of_whole hzero hwhole.2)
      rw [if_pos hplain]
      exact spells_units hx.le hwhole.2
  · next hwhole =>
    have hfraction : Double.units (Double.magnitude x) % Double.unitsInOne ≠ 0 := by
      intro hzero
      simp [Double.isWhole, hx, hzero] at hwhole
    have hne : Double.magnitude x ≠ 0 := by
      intro hzero
      rw [hzero, Double.units_zero, Nat.zero_mod] at hfraction
      exact hfraction rfl
    refine ⟨layout (Decimal.shortest (Double.magnitude x)), ?_, ?_⟩
    · rw [written, hnan, writtenMagnitude, if_neg hne, if_neg hx.ne]
      simp [signed, hne]
    · obtain ⟨hspells, hexponent⟩ := layout_shortest hne hx hfraction
      split
      · next hplain => exact hspells (hplain.resolve_left hne)
      · next hplain => exact hexponent fun hle => hplain (.inr hle)

/-- A double is equal to the one with its ordinal and its sign, and the sign of zero does not
count. -/
theorem ofOrdinal_beq {x : Float} (hx : x.isNaN = false) :
    (Double.ofOrdinal (Double.isNegative x && Double.magnitude x != 0) (Double.magnitude x) ==
      x) := by
  have hordinal := Double.ofOrdinal_magnitude x
  by_cases hzero : Double.magnitude x = 0
  · rw [hzero] at hordinal ⊢
    rw [bne_self_eq_false, Bool.and_false]
    cases hnegative : Double.isNegative x with
    | true =>
      rw [hnegative] at hordinal
      rw [← hordinal]
      decide
    | false =>
      rw [hnegative] at hordinal
      rw [← hordinal]
      decide
  · rw [bne_iff_ne.2 hzero, Bool.and_true, hordinal, Float.beq_self_iff]
    simpa [Float.isNaN_eq_decide_eq_nan] using hx

/-! ## Reading back -/

section Texts

variable {x : Float} {cs : List Char} (hx : x.isNaN = false)
  (hcs : if Plain x then Spells cs (Double.magnitude x) else HasExponent cs)
include hx hcs

/-- The printed text, as a text value, holds the double again if the double is plain. -/
theorem exists_ofText?_iff :
    (∃ y, ofText? (String.ofList (signed (Double.isNegative x && Double.magnitude x != 0) cs)) =
      some y ∧ y == x) ↔ Plain x := by
  split at hcs
  · next hplain =>
    exact iff_of_true ⟨_, ofText?_signed hcs _, ofOrdinal_beq hx⟩ hplain
  · next hplain =>
    refine iff_of_false ?_ hplain
    rintro ⟨y, hy, -⟩
    obtain ⟨mantissa, rest, rfl, -⟩ := hcs
    have hletter : 'e' ∈ signed (Double.isNegative x && Double.magnitude x != 0)
        (mantissa ++ 'e' :: rest) := by
      rw [signed]
      split <;> simp
    rw [ofText?_eq_none hletter] at hy
    cases hy

/-- The printed text, as a literal, is the double again if the double is plain. -/
theorem exists_ofText_iff (hsign : (Double.isNegative x && Double.magnitude x != 0) = false) :
    (∃ t q y, Token.ofText (String.ofList cs) = .ok [t, Token.endAt q] ∧ t.kind = .number ∧
      ofLexeme? t.value = some y ∧ y == x) ↔ Plain x := by
  split at hcs
  · next hplain =>
    obtain ⟨hnumber, d, hd, hordinal⟩ := hcs
    obtain ⟨q, hq⟩ := Token.ofText_of_isNumber hnumber
    refine iff_of_true ⟨_, q, Double.ofOrdinal false (Double.magnitude x), hq, rfl, ?_, ?_⟩ hplain
    · rw [ofLexeme?, String.toList_ofList, hd, ← hordinal]
      rfl
    · have hbeq := ofOrdinal_beq hx
      rwa [hsign] at hbeq
  · next hplain =>
    refine iff_of_false ?_ hplain
    rintro ⟨t, q, y, hq, -⟩
    exact absurd (Token.length_of_hasExponent hcs hq) (by simp)

end Texts

/-- Adding a number to an empty text gives the text that is printed for it. -/
theorem add_empty_text {x : Float} {s : String} (h : display? x = some s) (line : Line)
    (m : Machine) : Action.binary .add (.text "") (.number x) line m = .ok (.text s) m := by
  have hdisplay : Action.display (.number x) m = .ok s m := by
    simp only [Action.display, Action.get_bind, Store.display, Store.displayWithin, h]
    rfl
  have hempty : Action.display (.text "") m = .ok "" m := by
    simp only [Action.display, Action.get_bind, Store.display, Store.displayWithin]
    rfl
  change (Action.display (.text "") >>= fun s => Action.display (.number x) >>= fun t =>
    pure (Value.text (s ++ t))) m = _
  rw [Action.bind_of_ok hempty, Action.bind_of_ok hdisplay, String.empty_append]
  rfl

/-- The text of a finite double holds the double again exactly if the double is plain.  The same
goes for a literal with that text, if the double is not negative, and for the comparison that a
script makes between a number and its text. -/
theorem display?_reads_back {x : Float} (hnan : x.isNaN = false) (hinf : x.isInf = false) :
    ∃ s, display? x = some s ∧
      ((∃ y, ofText? s = some y ∧ y == x) ↔ Plain x) ∧
      (0 ≤ x → ((∃ t q y, Token.ofText s = .ok [t, Token.endAt q] ∧ t.kind = .number ∧
        ofLexeme? t.value = some y ∧ y == x) ↔ Plain x)) ∧
      ∀ line m, (do
        let text ← Action.binary .add (.text "") (.number x) line
        Action.binary .eq (.number x) text line) m = .ok (.boolean (Plain x)) m := by
  have hfinite : Double.magnitude x < Double.infinite := by
    have hle := Bool.eq_false_iff.1 hnan
    have hne := Bool.eq_false_iff.1 hinf
    rw [Ne, Double.isNaN_iff] at hle
    rw [Ne, Double.isInf_iff] at hne
    omega
  obtain ⟨cs, hdisplay, hcs⟩ := exists_display?_eq hfinite
  have hread := exists_ofText?_iff hnan hcs
  refine ⟨_, hdisplay, hread, fun hle => ?_, fun line m => ?_⟩
  · have hsign : (Double.isNegative x && Double.magnitude x != 0) = false := by
      cases hnegative : Double.isNegative x with
      | false => rfl
      | true => simp [Double.magnitude_eq_zero_of_nonneg hle hnegative]
    rw [hsign]
    exact exists_ofText_iff hnan hcs hsign
  · rw [Action.bind_of_ok (add_empty_text hdisplay line m)]
    generalize signed _ cs = text at hread
    have hequal : (ofText? (String.ofList text)).any (x == ·) = decide (Plain x) := by
      rw [Bool.eq_iff_iff, decide_eq_true_iff, ← hread, Option.any_eq_true]
      exact ⟨fun ⟨y, hy, heq⟩ => ⟨y, hy, BEq.symm heq⟩, fun ⟨y, hy, heq⟩ => ⟨y, hy, BEq.symm heq⟩⟩
    change EStateM.Result.ok (Value.boolean ((ofText? (String.ofList text)).any (x == ·))) m = _
    rw [hequal]

/-- A thousandth below zero and a quarter are read back, and a hundred-thousandth is not. -/
theorem display?_reads_back_fractions :
    (∃ s, display? (-0.001) = some s ∧ ∃ y, ofText? s = some y ∧ y == (-0.001 : Float)) ∧
    (∃ s, display? 0.25 = some s ∧ ∃ t q y, Token.ofText s = .ok [t, Token.endAt q] ∧
      t.kind = .number ∧ ofLexeme? t.value = some y ∧ y == (0.25 : Float)) ∧
    ∃ s, display? 0.00001 = some s ∧ ¬ ∃ y, ofText? s = some y ∧ y == (0.00001 : Float) := by
  obtain ⟨s, hs, htext, -⟩ := @display?_reads_back (-0.001) (by decide +kernel) (by decide +kernel)
  obtain ⟨t, ht, -, htoken, -⟩ := @display?_reads_back 0.25 (by decide +kernel) (by decide +kernel)
  obtain ⟨u, hu, hnone, -⟩ := @display?_reads_back 0.00001 (by decide +kernel) (by decide +kernel)
  exact ⟨⟨s, hs, htext.2 (by decide +kernel)⟩,
    ⟨t, ht, (htoken (by decide +kernel)).2 (by decide +kernel)⟩,
    ⟨u, hu, fun h => absurd (hnone.1 h) (by decide +kernel)⟩⟩

/-- A hundred-thousandth is printed with an exponent.  As a text that is no number, and as a literal
it is four tokens. -/
theorem display?_hundred_thousandth :
    (0.00001 : Float).isNaN = false ∧ (0.00001 : Float).isInf = false ∧
    display? 0.00001 = some "1e-05" ∧ ofText? "1e-05" = none ∧
    (Token.ofText "1e-05").map (List.map Token.kind) =
      .ok [.number, .identifier, .symbol .minus, .number, .eof] := by
  decide +kernel

end Numeral

end Boli
