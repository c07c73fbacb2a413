import Mathlib
import Boli.Token.Scan
import Boli.Number.Numeral

/-!
# What the tokens of a text look like

A token of a source text fits its kind: an identifier is a word that is no keyword, a keyword is
spelled by its word in some mixture of cases, and a number is made of digits with at most one point
between them (`Kind.admits`).  The mark of the end stands behind all tokens and nowhere else.
-/

namespace Boli

open Boli.Text

namespace Lexeme

/-- The characters are a word. -/
def isWord : List Char → Bool
  | [] => false
  | c :: cs => startsWord c && cs.all continuesWord

/-- The characters are a number: digits, or digits on both sides of a point. -/
def isNumber (cs : List Char) : Bool :=
  !(cs.takeWhile isDigit).isEmpty &&
    match cs.dropWhile isDigit with
    | [] => true
    | '.' :: fraction => !fraction.isEmpty && fraction.all isDigit
    | _ => false

end Lexeme

/-- A token of the kind may stand for the characters. -/
def Kind.admits : Kind → List Char → Bool
  | .number, cs => Lexeme.isNumber cs
  | .identifier, cs => Lexeme.isWord cs && Keyword.ofWord? cs = none
  | .keyword word, cs => Lexeme.isWord cs && Keyword.ofWord? cs = some word
  | .symbol sign, cs => cs = sign.spelling.toList
  | .start, _ | .finish, _ | .text, _ => true
  | .eof, _ | .other _, _ => false

/-- The text of a token fits its kind. -/
def Token.Fits (t : Token) : Prop := t.kind.admits t.value.toList

namespace Lexeme

/-- Digits end at the point. -/
theorem takeWhile_append_point {whole : List Char} (h : whole.all isDigit) (cs : List Char) :
    (whole ++ '.' :: cs).takeWhile isDigit = whole := by
  rw [List.takeWhile_append_of_pos (by simpa using h), List.takeWhile_cons_of_neg (by decide),
    List.append_nil]

theorem dropWhile_append_point {whole : List Char} (h : whole.all isDigit) (cs : List Char) :
    (whole ++ '.' :: cs).dropWhile isDigit = '.' :: cs := by
  rw [List.dropWhile_append_of_pos (by simpa using h), List.dropWhile_cons_of_neg (by decide)]

theorem isNumber_whole {whole : List Char} (hne : whole ≠ []) (h : whole.all isDigit) :
    isNumber whole := by
  have hdigits : ∀ c ∈ whole, isDigit c := by simpa using h
  have htake : whole.takeWhile isDigit = whole := List.takeWhile_eq_self_iff.2 hdigits
  have hdrop : whole.dropWhile isDigit = [] := List.dropWhile_eq_nil_iff.2 hdigits
  simp [isNumber, htake, hdrop, hne]

/-- Digits on both sides of a point are a number. -/
theorem isNumber_fraction {whole fraction : List Char} (hne : whole ≠ []) (h : whole.all isDigit)
    (hne' : fraction ≠ []) (h' : fraction.all isDigit) : isNumber (whole ++ '.' :: fraction) := by
  rw [isNumber, takeWhile_append_point h, dropWhile_append_point h]
  simp only [Bool.and_eq_true, Bool.not_eq_true', List.isEmpty_eq_false_iff]
  exact ⟨hne, hne', h'⟩

/-- The characters that a number takes are a number. -/
theorem isNumber_take {c : Char} (cs : List Char) (hc : isDigit c) :
    isNumber (c :: cs.take (numberMore cs)) := by
  obtain ⟨whole, rest, hwhole, hsplit⟩ :
      ∃ whole rest, cs.takeWhile isDigit = whole ∧ cs = whole ++ rest :=
    ⟨_, cs.dropWhile isDigit, rfl, List.takeWhile_append_dropWhile.symm⟩
  have hdigits : (c :: whole).all isDigit := by
    rw [List.all_cons, hc, ← hwhole, List.all_takeWhile]
    rfl
  subst hsplit
  rw [numberMore, hwhole]
  simp only [List.drop_left]
  split
  · next fraction =>
    split
    · rw [List.take_left]
      exact isNumber_whole nofun hdigits
    · next n hn =>
      have htake : fraction.take (n + 1) = fraction.takeWhile isDigit := by
        rw [← Nat.succ_eq_add_one, ← hn]
        exact (List.prefix_iff_eq_take.1 (List.takeWhile_prefix _)).symm
      rw [Nat.add_assoc, List.take_length_add_append, Nat.add_comm 1, List.take_succ_cons, htake,
        ← List.cons_append]
      refine isNumber_fraction nofun hdigits ?_ List.all_takeWhile
      intro hnil
      rw [hnil] at hn
      cases hn
  · rw [List.take_left]
    exact isNumber_whole nofun hdigits

/-- A sign that is read is spelled as its symbol. -/
theorem symbol_admits_of_readMark {c : Char} {cs : List Char} {kind : Kind} {value : List Char}
    {more : Nat} (h : readMark c cs = ⟨.token kind value, more⟩) : kind.admits value := by
  rw [readMark] at h
  split at h
  · cases h
    exact decide_eq_true rfl
  · split at h <;> cases h

theorem admits_of_readSlash {cs : List Char} {kind : Kind} {value : List Char} {more : Nat}
    (h : readSlash cs = ⟨.token kind value, more⟩) : kind.admits value := by
  unfold readSlash at h
  split at h
  · split at h <;> cases h
  · cases h
  · exact symbol_admits_of_readMark h

/-- A word is a keyword or a name. -/
theorem wordKind_admits {word : List Char} (h : isWord word) : (wordKind word).admits word := by
  rw [wordKind]
  split
  · next hword => simp [Kind.admits, h, hword]
  · next hword => simp [Kind.admits, h, hword]

/-- Numbers, quoted texts, words and signs fit their kinds. -/
theorem admits_of_readPlain {c : Char} {cs : List Char} {kind : Kind} {value : List Char}
    {more : Nat} (h : readPlain c cs = ⟨.token kind value, more⟩) : kind.admits value := by
  rw [readPlain] at h
  split at h
  · next hc =>
    cases h
    exact isNumber_take cs hc
  · split at h
    · split at h <;> cases h
      rfl
    · split at h
      · next hc =>
        cases h
        refine wordKind_admits ?_
        simp [isWord, hc]
      · split at h
        · exact admits_of_readSlash h
        · exact symbol_admits_of_readMark h

/-- Every token that is read fits its kind. -/
theorem admits_of_read {before : Option Char} {c : Char} {cs : List Char} {kind : Kind}
    {value : List Char} {more : Nat} (h : read before c cs = ⟨.token kind value, more⟩) :
    kind.admits value := by
  rw [read] at h
  split at h
  · cases h
    rfl
  · split at h
    · cases h
      rfl
    · exact admits_of_readPlain h

end Lexeme

namespace Token

/-- The tokens of a text fit their kinds, and the mark of its end follows them. -/
theorem fits_of_scan {inside : Nat} {before : Option Char} {p : Position} {cs : List Char}
    {tokens : List Token} (h : scan inside before p cs = .ok tokens) :
    ∃ ts q, tokens = ts ++ [endAt q] ∧ ∀ t ∈ ts, t.Fits := by
  induction cs generalizing inside before p tokens with
  | nil =>
    cases h
    exact ⟨[], p, rfl, nofun⟩
  | cons c cs ih =>
    cases inside with
    | succ inside => exact ih h
    | zero =>
      rw [scan] at h
      split at h
      · cases h
      · exact ih h
      · next kind value more hread =>
        obtain ⟨rest, hrest, rfl⟩ : ∃ rest, scan more (some c) (p.after c) cs = .ok rest ∧
            ⟨kind, String.ofList value, p⟩ :: rest = tokens := by
          cases hrest : scan more (some c) (p.after c) cs with
          | error e =>
            rw [hrest] at h
            cases h
          | ok rest =>
            rw [hrest] at h
            cases h
            exact ⟨rest, rfl, rfl⟩
        obtain ⟨ts, q, rfl, hts⟩ := ih hrest
        refine ⟨⟨kind, String.ofList value, p⟩ :: ts, q, rfl, ?_⟩
        intro t ht
        rcases List.mem_cons.1 ht with rfl | ht
        · rw [Fits, String.toList_ofList]
          exact Lexeme.admits_of_read hread
        · exact hts t ht

/-- No text fits the mark of the end. -/
theorem Fits.kind_ne_eof {t : Token} (h : t.Fits) : t.kind ≠ .eof := by
  intro heq
  rw [Fits, heq] at h
  cases h

end Token

namespace Numeral

/-- Digits with a point between them are a numeral. -/
theorem isSome_readUnsigned? {cs : List Char} (h : Lexeme.isNumber cs) :
    (readUnsigned? cs).isSome := by
  simp only [Lexeme.isNumber, Bool.and_eq_true, Bool.not_eq_true'] at h
  obtain ⟨hwhole, hrest⟩ := h
  have hshape : cs.dropWhile isDigit = [] ∨
      ∃ fraction, cs.dropWhile isDigit = '.' :: fraction ∧ fraction.all isDigit = true := by
    split at hrest
    · next hdrop => exact .inl hdrop
    · next fraction hdrop => exact .inr ⟨fraction, hdrop, (Bool.and_eq_true_iff.mp hrest).2⟩
    · cases hrest
  unfold readUnsigned?
  rcases hshape with hdrop | ⟨fraction, hdrop, hdigits⟩
  · rw [hdrop]
    simp [hwhole]
  · rw [hdrop]
    simp [hwhole, hdigits]

/-- A number of a program text is a numeral. -/
theorem isSome_ofLexeme? {lexeme : String} (h : Lexeme.isNumber lexeme.toList) :
    (ofLexeme? lexeme).isSome := by
  obtain ⟨d, hd⟩ := Option.isSome_iff_exists.1 (isSome_readUnsigned? h)
  simp [ofLexeme?, hd]

end Numeral

end Boli
