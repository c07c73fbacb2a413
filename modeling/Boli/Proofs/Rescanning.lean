import Boli.Proofs.Rereading

/-!
# Spaced words are scanned one by one

A text that is made of words with a space between them has these words as its tokens.  A space ends
every word, since no lexeme but a marker goes across one.

What looks like a marker has to be kept out.  A name may be the first word of one, but then the next
word of the marker would be a name as well, and no two names stand side by side (`Flows`).
-/

namespace Boli

open Boli.Text

/-- The text ends here, or a space follows. -/
def Spaced (rest : List Char) : Prop := rest = [] ∨ ∃ cs, rest = ' ' :: cs

/-- The character in front of a word. -/
def Gap (before : Option Char) : Prop := before = none ∨ before = some ' '

/-- The word can be written. -/
def Word.Writable (w : Word) : Prop :=
  match w.kind with
  | .start => w.value = "chala suru karu"
  | .finish => w.value = "bas re ata"
  | kind => kind.admits w.value.toList

namespace Lexeme

/-! ## Characters -/

/-- The digits lie outside of the ASCII letters. -/
theorem isDigit_bounds {c : Char} (h : isDigit c) : c.toNat < 58 ∨ 0x660 ≤ c.toNat := by
  simp only [isDigit, digit?, Option.isSome_map] at h
  obtain ⟨origin, horigin⟩ := Option.isSome_iff_exists.1 h
  have hmem := List.mem_of_find?_eq_some horigin
  have hrun := List.find?_some horigin
  have hall : ∀ o ∈ zeros, o = 0x30 ∨ 0x660 ≤ o := by decide
  simp only [Bool.and_eq_true, decide_eq_true_eq] at hrun
  rcases hall origin hmem with rfl | hle
  · omega
  · omega

/-- A letter of a marker is an ASCII letter, the long s or the Kelvin sign. -/
theorem isLetter_cases {letter c : Char} (hletter : letter.isAlpha) (h : isLetter letter c) :
    c.isAlpha ∨ c = '\u017f' ∨ c = '\u212a' := by
  simp only [isLetter, Bool.or_eq_true, Bool.and_eq_true, beq_iff_eq] at h
  rcases h with (h | ⟨_, h⟩) | ⟨_, h⟩
  · left
    by_cases hupper : c.isUpper
    · rw [Char.isAlpha, hupper, Bool.true_or]
    · have hlower : c.toLower = c := by
        rw [Char.toLower, dif_neg (by simpa [Char.isUpper] using hupper)]
      rw [← hlower, h]
      exact hletter
  · exact .inr (.inl h)
  · exact .inr (.inr h)

/-- Any other character is no letter of a marker. -/
theorem isLetter_eq_false {letter c : Char} (hletter : letter.isAlpha)
    (hc : c.isAlpha = false ∧ c ≠ '\u017f' ∧ c ≠ '\u212a') : isLetter letter c = false := by
  rw [Bool.eq_false_iff]
  intro h
  rcases isLetter_cases hletter h with h | h | h
  · rw [hc.1] at h
    cases h
  · exact hc.2.1 h
  · exact hc.2.2 h

theorem isAlpha_bounds {c : Char} (h : c.isAlpha) : 65 ≤ c.toNat ∧ c.toNat < 123 := by
  simp only [Char.isAlpha, Char.isUpper, Char.isLower, Bool.or_eq_true, Bool.and_eq_true,
    decide_eq_true_eq, UInt32.le_iff_toNat_le, ge_iff_le] at h
  change 65 ≤ c.toNat ∧ c.toNat ≤ 90 ∨ 97 ≤ c.toNat ∧ c.toNat ≤ 122 at h
  omega

/-- A digit is no letter of a marker. -/
theorem not_isLetter_of_isDigit {letter c : Char} (hletter : letter.isAlpha) (h : isDigit c) :
    isLetter letter c = false := by
  rw [Bool.eq_false_iff]
  intro hc
  rcases isLetter_cases hletter hc with hc | rfl | rfl
  · have hdigit := isDigit_bounds h
    have halpha := isAlpha_bounds hc
    omega
  · exact absurd h (by decide)
  · exact absurd h (by decide)

theorem isAlpha_of_toLower {c : Char} (h : c.toLower.isAlpha) : c.isAlpha := by
  by_cases hupper : c.isUpper
  · rw [Char.isAlpha, hupper, Bool.true_or]
  · rwa [Char.toLower, dif_neg (by simpa [Char.isUpper] using hupper)] at h

theorem continuesWord_of_startsWord {c : Char} (h : startsWord c) : continuesWord c := by
  simp only [startsWord, continuesWord, Char.isAlphanum, Bool.or_eq_true] at h ⊢
  rcases h with h | h
  · exact .inl (.inl h)
  · exact .inr h

theorem isDigit_of_startsWord {c : Char} (h : startsWord c) : isDigit c = false := by
  rw [Bool.eq_false_iff]
  intro hdigit
  simp only [startsWord, Bool.or_eq_true, beq_iff_eq] at h
  rcases h with h | rfl
  · have hbounds := isDigit_bounds hdigit
    have halpha := isAlpha_bounds h
    omega
  · exact absurd hdigit (by decide)

/-- In a word, a letter of a marker is that letter, small or capital. -/
theorem toLower_of_isLetter {letter c : Char} (hc : continuesWord c) (h : isLetter letter c) :
    c.toLower = letter := by
  simp only [isLetter, Bool.or_eq_true, Bool.and_eq_true, beq_iff_eq] at h
  rcases h with (h | ⟨_, rfl⟩) | ⟨_, rfl⟩
  · exact h
  · exact absurd hc (by decide)
  · exact absurd hc (by decide)

/-- A word has no spaces in it. -/
theorem isSpace_of_continuesWord {c : Char} (h : continuesWord c) : isSpace c = false := by
  rw [Bool.eq_false_iff]
  intro hc
  simp only [isSpace, Bool.or_eq_true, beq_iff_eq] at hc
  rcases hc with rfl | rfl
  · exact absurd h (by decide)
  · exact absurd h (by decide)

/-! ## Markers -/

/-- What follows a word of a marker at the head of a spaced word: all that follows the spaced word,
or some part of it. -/
theorem afterWord?_eq_some {letters word rest r : List Char} (hletters : letters.all Char.isAlpha)
    (hword : word.all continuesWord) (hrest : Spaced rest)
    (h : afterWord? letters (word ++ rest) = some r) :
    word.map Char.toLower = letters ∧ r = rest ∨ ∃ c cs, r = c :: cs ∧ continuesWord c := by
  induction letters generalizing word with
  | nil =>
    cases h
    cases word with
    | nil => exact .inl ⟨rfl, rfl⟩
    | cons c cs =>
      rw [List.all_cons, Bool.and_eq_true] at hword
      exact .inr ⟨c, cs ++ rest, rfl, hword.1⟩
  | cons letter letters ih =>
    rw [List.all_cons, Bool.and_eq_true] at hletters
    cases word with
    | nil =>
      rcases hrest with rfl | ⟨cs, rfl⟩
      · cases h
      · rw [List.nil_append, afterWord?] at h
        split at h
        · next hspace =>
          rcases isLetter_cases hletters.1 hspace with hspace | hspace | hspace <;>
            exact absurd hspace (by decide)
        · cases h
    | cons c cs =>
      rw [List.all_cons, Bool.and_eq_true] at hword
      rw [List.cons_append, afterWord?] at h
      split at h
      · next hletter =>
        rcases ih hletters.2 hword.2 h with ⟨hmap, hr⟩ | hr
        · exact .inl ⟨by rw [List.map_cons, toLower_of_isLetter hword.1 hletter, hmap], hr⟩
        · exact .inr hr
      · cases h

/-- A word is the first of no marker, if the words behind it do not go on like that marker. -/
theorem afterWords?_word {first second word rest : List Char} {others : List (List Char)}
    (hfirst : first.all Char.isAlpha) (hword : word.all continuesWord) (hrest : Spaced rest)
    (hnext : word.map Char.toLower = first →
      ∀ cs, rest = ' ' :: cs → afterWords? (second :: others) (cs.dropWhile isSpace) = none) :
    afterWords? (first :: second :: others) (word ++ rest) = none := by
  rw [afterWords?]
  · split
    · next c cs hafter =>
      split
      · next hspace =>
        rcases afterWord?_eq_some hfirst hword hrest hafter with ⟨hmap, hr⟩ | ⟨d, ds, hr, hd⟩
        · rcases hrest with rfl | ⟨cs', rfl⟩
          · cases hr
          · cases hr
            exact hnext hmap _ rfl
        · cases hr
          rw [isSpace_of_continuesWord hd] at hspace
          cases hspace
      · rfl
    · rfl
  · nofun

/-- Nothing that starts with another character is a marker. -/
theorem afterWords?_head {letter c : Char} {letters cs : List Char} {others : List (List Char)}
    (h : isLetter letter c = false) :
    afterWords? ((letter :: letters) :: others) (c :: cs) = none := by
  have hword : afterWord? (letter :: letters) (c :: cs) = none := by
    rw [afterWord?, h]
    rfl
  cases others with
  | nil => exact hword
  | cons word words =>
    rw [afterWords?, hword]
    nofun

theorem marker?_none {words : List (List Char)} {before : Option Char} {cs : List Char}
    (h : afterWords? words cs = none) : marker? words before cs = none := by
  rw [marker?, h]
  split <;> rfl

/-! ## Literals -/

/-- A space ends what it does not belong to. -/
theorem takeWhile_spaced {f : Char → Bool} {cs rest : List Char} (hcs : cs.all f)
    (hrest : Spaced rest) (hf : f ' ' = false) : (cs ++ rest).takeWhile f = cs := by
  rw [List.takeWhile_append_of_pos (by simpa using hcs)]
  rcases hrest with rfl | ⟨ds, rfl⟩
  · exact List.append_nil cs
  · rw [List.takeWhile_cons_of_neg (by simp [hf]), List.append_nil]

/-- A number reaches up to its end. -/
theorem numberMore_spaced {c : Char} {cs rest : List Char} (h : isNumber (c :: cs))
    (hrest : Spaced rest) : isDigit c ∧ numberMore (cs ++ rest) = cs.length := by
  simp only [isNumber, Bool.and_eq_true, Bool.not_eq_true', List.isEmpty_eq_false_iff] at h
  obtain ⟨hhead, htail⟩ := h
  have hc : isDigit c := by
    by_contra hc
    exact hhead (List.takeWhile_cons_of_neg hc)
  rw [List.dropWhile_cons_of_pos hc] at htail
  refine ⟨hc, ?_⟩
  have hdigits : (cs.takeWhile isDigit).all isDigit := List.all_takeWhile
  have hsplit : cs.takeWhile isDigit ++ cs.dropWhile isDigit = cs := List.takeWhile_append_dropWhile
  generalize cs.takeWhile isDigit = whole at hdigits hsplit
  split at htail
  · next hnil =>
    rw [hnil, List.append_nil] at hsplit
    subst hsplit
    rw [numberMore, takeWhile_spaced hdigits hrest (by decide)]
    simp only [List.drop_left]
    rcases hrest with rfl | ⟨ds, rfl⟩ <;> rfl
  · next fraction hpoint =>
    rw [hpoint] at hsplit
    subst hsplit
    simp only [Bool.and_eq_true, Bool.not_eq_true', List.isEmpty_eq_false_iff] at htail
    have hwhole : (whole ++ '.' :: fraction ++ rest).takeWhile isDigit = whole := by
      rw [List.append_assoc, List.cons_append, takeWhile_append_point hdigits]
    rw [numberMore, hwhole, List.append_assoc]
    simp only [List.drop_left, List.cons_append]
    rw [takeWhile_spaced htail.2 hrest (by decide)]
    cases fraction with
    | nil => exact absurd rfl htail.1
    | cons d ds => simp [Nat.add_assoc, Nat.add_comm]
  · cases htail

/-- What is escaped is read back. -/
theorem quotedBody?_escaped (cs rest : List Char) :
    quotedBody? '"' (cs.flatMap Word.escape ++ '"' :: rest) =
      some (cs, (cs.flatMap Word.escape).length + 1) := by
  induction cs with
  | nil => rfl
  | cons c cs ih =>
    rw [List.flatMap_cons, List.append_assoc]
    by_cases hquote : c = '"'
    · subst hquote
      simp [Word.escape, quotedBody?, ih, unescape]
    by_cases hbackslash : c = '\\'
    · subst hbackslash
      simp [Word.escape, quotedBody?, ih, unescape]
    by_cases hfeed : c = '\n'
    · subst hfeed
      simp [Word.escape, quotedBody?, ih, unescape]
    have hescape : Word.escape c = [c] := by simp [Word.escape, hquote, hbackslash, hfeed]
    rw [hescape, List.singleton_append, quotedBody?]
    · simp [hquote, hbackslash, hfeed, ih]
    · intro d ds hd
      exact absurd hd hbackslash

/-! ## The lexeme of a word -/

theorem startWords_eq : startWords = [['c', 'h', 'a', 'l', 'a'], ['s', 'u', 'r', 'u'],
    ['k', 'a', 'r', 'u']] := by
  decide

theorem finishWords_eq : finishWords = [['b', 'a', 's'], ['r', 'e'], ['a', 't', 'a']] := by
  decide

/-- What is no marker is read as an ordinary lexeme. -/
theorem read_plain {before : Option Char} {c : Char} {cs : List Char}
    (hstart : afterWords? startWords (c :: cs) = none)
    (hfinish : afterWords? finishWords (c :: cs) = none) : read before c cs = readPlain c cs := by
  rw [read, marker?_none hstart]
  simp only
  rw [marker?_none hfinish]

/-- A lexeme whose first character is no letter is no marker. -/
theorem read_head {before : Option Char} {c : Char} (cs : List Char)
    (hc : ∀ letter : Char, letter.isAlpha → isLetter letter c = false) :
    read before c cs = readPlain c cs := by
  refine read_plain ?_ ?_
  · rw [startWords_eq]
    exact afterWords?_head (hc 'c' (by decide))
  · rw [finishWords_eq]
    exact afterWords?_head (hc 'b' (by decide))

/-- A number in front of a space is read as it is. -/
theorem read_number {before : Option Char} {c : Char} {cs rest : List Char}
    (h : isNumber (c :: cs)) (hrest : Spaced rest) :
    read before c (cs ++ rest) = ⟨.token .number (c :: cs), cs.length⟩ := by
  obtain ⟨hc, hmore⟩ := numberMore_spaced h hrest
  rw [read_head _ fun letter hletter => not_isLetter_of_isDigit hletter hc, readPlain, if_pos hc,
    hmore]
  simp only [List.take_left]

/-- A quoted text is read up to the quote that closes it. -/
theorem read_text {before : Option Char} (cs rest : List Char) :
    read before '"' (cs.flatMap Word.escape ++ '"' :: rest) =
      ⟨.token .text cs, (cs.flatMap Word.escape).length + 1⟩ := by
  have hquote : ∀ letter : Char, letter.isAlpha → isLetter letter '"' = false :=
    fun _ hletter => isLetter_eq_false hletter (by decide)
  rw [read_head _ hquote, readPlain, if_neg (by decide), if_pos (.inl rfl), quotedBody?_escaped]

/-- No sign goes on behind a space. -/
theorem read_symbol {before : Option Char} {rest : List Char} (sign : Symbol)
    (hrest : Spaced rest) :
    ∃ c cs, sign.spelling.toList = c :: cs ∧
      read before c (cs ++ rest) = ⟨.token (.symbol sign) (c :: cs), cs.length⟩ := by
  obtain ⟨c, cs, hspelling, hhead⟩ : ∃ c cs, sign.spelling.toList = c :: cs ∧
      (c.isAlpha = false ∧ c ≠ '\u017f' ∧ c ≠ '\u212a') := by
    cases sign <;> exact ⟨_, _, rfl, by decide⟩
  refine ⟨c, cs, hspelling, ?_⟩
  rw [read_head]
  · rcases hrest with rfl | ⟨ds, rfl⟩
    · cases sign <;> cases hspelling <;> rfl
    · cases sign <;> cases hspelling <;> rfl
  · exact fun _ hletter => isLetter_eq_false hletter hhead

/-- A word in front of a space is a keyword or a name. -/
theorem read_name {before : Option Char} {c : Char} {cs rest : List Char}
    (h : isWord (c :: cs)) (hrest : Spaced rest)
    (hstart : afterWords? startWords (c :: (cs ++ rest)) = none)
    (hfinish : afterWords? finishWords (c :: (cs ++ rest)) = none) :
    read before c (cs ++ rest) = ⟨.token (wordKind (c :: cs)) (c :: cs), cs.length⟩ := by
  simp only [isWord, Bool.and_eq_true] at h
  have hquote : ¬(c = '"' ∨ c = '\'') := by
    rintro (rfl | rfl)
    · exact absurd h.1 (by decide)
    · exact absurd h.1 (by decide)
  rw [read_plain hstart hfinish, readPlain, if_neg (by simp [isDigit_of_startsWord h.1]),
    if_neg hquote, if_pos h.1, takeWhile_spaced h.2 hrest (by decide)]
  rfl

theorem any_isWordCharacter_of_gap {before : Option Char} (h : Gap before) :
    before.any isWordCharacter = false := by
  rcases h with rfl | rfl
  · rfl
  · decide

theorem any_isWordCharacter_of_spaced {rest : List Char} (h : Spaced rest) :
    rest.head?.any isWordCharacter = false := by
  rcases h with rfl | ⟨cs, rfl⟩
  · rfl
  · show isWordCharacter ' ' = false
    decide

/-- The words of a marker between gaps are a marker. -/
theorem marker?_of_afterWords? {words : List (List Char)} {before : Option Char}
    {cs rest : List Char} (hbefore : before.any isWordCharacter = false) (hrest : Spaced rest)
    (h : afterWords? words (cs ++ rest) = some rest) :
    marker? words before (cs ++ rest) = some cs.length := by
  rw [marker?, hbefore, h]
  simp [any_isWordCharacter_of_spaced hrest]

/-- The marker at the start of a program is read across its spaces. -/
theorem read_start {before : Option Char} {rest : List Char}
    (hbefore : before.any isWordCharacter = false) (hrest : Spaced rest) :
    read before 'c' ("hala suru karu".toList ++ rest) =
      ⟨.token .start "chala suru karu".toList, 14⟩ := by
  have hafter : afterWords? startWords ("chala suru karu".toList ++ rest) = some rest := rfl
  have hmarker : marker? startWords before ('c' :: ("hala suru karu".toList ++ rest)) = some 15 :=
    marker?_of_afterWords? hbefore hrest hafter
  rw [read, hmarker]
  rfl

/-- So is the marker at its end. -/
theorem read_finish {before : Option Char} {rest : List Char}
    (hbefore : before.any isWordCharacter = false) (hrest : Spaced rest) :
    read before 'b' ("as re ata".toList ++ rest) = ⟨.token .finish "bas re ata".toList, 9⟩ := by
  have hafter : afterWords? finishWords ("bas re ata".toList ++ rest) = some rest := rfl
  have hmarker : marker? finishWords before ('b' :: ("as re ata".toList ++ rest)) = some 10 :=
    marker?_of_afterWords? hbefore hrest hafter
  have hnone : marker? startWords before ('b' :: ("as re ata".toList ++ rest)) = none := by
    refine marker?_none ?_
    rw [startWords_eq]
    exact afterWords?_head (by decide)
  rw [read, hnone, hmarker]
  rfl

/-- A keyword is not spelled by letters that are those of no keyword. -/
theorem toLower_ne_of_keyword {cs letters : List Char} {word : Keyword}
    (h : Keyword.ofWord? cs = some word)
    (hletters : (Keyword.all.find? fun k => k.spelling.toList.map Char.toLower == letters) = none) :
    cs.map Char.toLower ≠ letters := by
  rintro rfl
  rw [Keyword.ofWord?, hletters] at h
  cases h

/-- The text does not go on like a marker whose first word has been read. -/
def Unmarked (cs : List Char) : Prop :=
  afterWords? [['s', 'u', 'r', 'u'], ['k', 'a', 'r', 'u']] (cs.dropWhile isSpace) = none ∧
    afterWords? [['r', 'e'], ['a', 't', 'a']] (cs.dropWhile isSpace) = none

/-- A marker goes on with a space or with one of two letters. -/
theorem unmarked_of_head {c : Char} {cs : List Char} (hspace : isSpace c = false)
    (hs : isLetter 's' c = false) (hr : isLetter 'r' c = false) : Unmarked (c :: cs) := by
  rw [Unmarked, List.dropWhile_cons_of_neg (by simp [hspace])]
  exact ⟨afterWords?_head hs, afterWords?_head hr⟩

theorem isWord_cons {cs : List Char} (h : isWord cs) :
    ∃ d ds, cs = d :: ds ∧ continuesWord d ∧ cs.all continuesWord := by
  cases cs with
  | nil => cases h
  | cons d ds =>
    simp only [isWord, Bool.and_eq_true] at h
    have hd := continuesWord_of_startsWord h.1
    exact ⟨d, ds, rfl, hd, by rw [List.all_cons, hd, h.2]; rfl⟩

/-- Only a name goes on like a marker. -/
theorem unmarked_of_writable {w : Word} {rest : List Char} (hw : w.Writable)
    (hkind : w.kind ≠ .identifier) (hrest : Spaced rest) : Unmarked (w.chars ++ rest) := by
  obtain ⟨kind, value⟩ := w
  cases kind with
  | start =>
    obtain rfl : value = "chala suru karu" := hw
    exact unmarked_of_head (by decide) (by decide) (by decide)
  | finish =>
    obtain rfl : value = "bas re ata" := hw
    exact unmarked_of_head (by decide) (by decide) (by decide)
  | number =>
    have hnumber : isNumber value.toList := hw
    show Unmarked (value.toList ++ rest)
    cases hvalue : value.toList with
    | nil =>
      rw [hvalue] at hnumber
      cases hnumber
    | cons c cs =>
      rw [hvalue] at hnumber
      have hc := (numberMore_spaced hnumber hrest).1
      refine unmarked_of_head ?_ (not_isLetter_of_isDigit (by decide) hc)
        (not_isLetter_of_isDigit (by decide) hc)
      rw [Bool.eq_false_iff]
      intro hspace
      simp only [isSpace, Bool.or_eq_true, beq_iff_eq] at hspace
      rcases hspace with rfl | rfl <;> exact absurd hc (by decide)
  | text => exact unmarked_of_head (by decide) (by decide) (by decide)
  | identifier => exact absurd rfl hkind
  | keyword word =>
    have hword : isWord value.toList ∧ Keyword.ofWord? value.toList = some word := by
      simpa [Word.Writable, Kind.admits] using hw
    obtain ⟨d, ds, hvalue, hd, hall⟩ := isWord_cons hword.1
    show Unmarked (value.toList ++ rest)
    have hdrop : (value.toList ++ rest).dropWhile isSpace = value.toList ++ rest := by
      rw [hvalue, List.cons_append,
        List.dropWhile_cons_of_neg (by simp [isSpace_of_continuesWord hd])]
    rw [Unmarked, hdrop]
    constructor
    · refine afterWords?_word (by decide) hall hrest fun hmap => ?_
      exact absurd hmap (toLower_ne_of_keyword hword.2 (by decide))
    · refine afterWords?_word (by decide) hall hrest fun hmap => ?_
      exact absurd hmap (toLower_ne_of_keyword hword.2 (by decide))
  | symbol sign =>
    have hvalue : value.toList = sign.spelling.toList := by
      simpa [Word.Writable, Kind.admits] using hw
    show Unmarked (value.toList ++ rest)
    rw [hvalue]
    cases sign <;> exact unmarked_of_head (by decide) (by decide) (by decide)
  | eof => cases hw
  | other code => cases hw

/-- A word is read unless it turns out to be the first of a marker. -/
theorem read_spelled {before : Option Char} {word rest : List Char} (h : isWord word)
    (hrest : Spaced rest)
    (hstart : word.map Char.toLower = ['c', 'h', 'a', 'l', 'a'] →
      ∀ cs, rest = ' ' :: cs → Unmarked cs)
    (hfinish : word.map Char.toLower = ['b', 'a', 's'] → ∀ cs, rest = ' ' :: cs → Unmarked cs) :
    ∃ c cs, word = c :: cs ∧
      read before c (cs ++ rest) = ⟨.token (wordKind word) word, cs.length⟩ := by
  obtain ⟨c, cs, rfl, _, hall⟩ := isWord_cons h
  refine ⟨c, cs, rfl, read_name h hrest ?_ ?_⟩
  · rw [startWords_eq]
    exact afterWords?_word (by decide) hall hrest fun hmap ds hds => (hstart hmap ds hds).1
  · rw [finishWords_eq]
    exact afterWords?_word (by decide) hall hrest fun hmap ds hds => (hfinish hmap ds hds).2

/-- A writable word is read as what it is. -/
theorem read_word {w : Word} {before : Option Char} {rest : List Char} (hw : w.Writable)
    (hbefore : before.any isWordCharacter = false) (hrest : Spaced rest)
    (hnext : w.kind = .identifier → ∀ cs, rest = ' ' :: cs → Unmarked cs) :
    ∃ c cs, w.chars = c :: cs ∧
      read before c (cs ++ rest) = ⟨.token w.kind w.value.toList, cs.length⟩ := by
  obtain ⟨kind, value⟩ := w
  cases kind with
  | start =>
    obtain rfl : value = "chala suru karu" := hw
    exact ⟨_, _, rfl, read_start hbefore hrest⟩
  | finish =>
    obtain rfl : value = "bas re ata" := hw
    exact ⟨_, _, rfl, read_finish hbefore hrest⟩
  | number =>
    have hnumber : isNumber value.toList := hw
    cases hvalue : value.toList with
    | nil =>
      rw [hvalue] at hnumber
      cases hnumber
    | cons c cs =>
      rw [hvalue] at hnumber
      exact ⟨c, cs, hvalue, read_number hnumber hrest⟩
  | text =>
    refine ⟨_, _, rfl, ?_⟩
    rw [List.append_assoc, List.singleton_append, read_text, List.length_append]
    rfl
  | identifier =>
    have hword : isWord value.toList ∧ Keyword.ofWord? value.toList = none := by
      simpa [Word.Writable, Kind.admits] using hw
    have hkind : wordKind value.toList = .identifier := by rw [wordKind, hword.2]
    obtain ⟨c, cs, hvalue, hread⟩ :=
      read_spelled hword.1 hrest (fun _ => hnext rfl) (fun _ => hnext rfl)
    exact ⟨c, cs, hvalue, by rw [hread, hkind]⟩
  | keyword word =>
    have hword : isWord value.toList ∧ Keyword.ofWord? value.toList = some word := by
      simpa [Word.Writable, Kind.admits] using hw
    have hkind : wordKind value.toList = .keyword word := by rw [wordKind, hword.2]
    obtain ⟨c, cs, hvalue, hread⟩ := read_spelled hword.1 hrest
      (fun hmap => absurd hmap (toLower_ne_of_keyword hword.2 (by decide)))
      (fun hmap => absurd hmap (toLower_ne_of_keyword hword.2 (by decide)))
    exact ⟨c, cs, hvalue, by rw [hread, hkind]⟩
  | symbol sign =>
    have hvalue : value.toList = sign.spelling.toList := by
      simpa [Word.Writable, Kind.admits] using hw
    obtain ⟨c, cs, hspelling, hread⟩ := read_symbol sign hrest
    exact ⟨c, cs, hvalue.trans hspelling, by rw [hread, hvalue, hspelling]⟩
  | eof => cases hw
  | other code => cases hw

theorem read_space {before : Option Char} (cs : List Char) : read before ' ' cs = ⟨.gap, 0⟩ := by
  rw [read_head]
  · rfl
  · exact fun _ hletter => isLetter_eq_false hletter (by decide)

end Lexeme

/-! ## The tokens of spaced words -/

/-- The words can be written side by side, behind a name or not.  No two names stand side by
side. -/
def Word.Flows : Bool → List Word → Prop
  | _, [] => True
  | named, w :: ws =>
    w.Writable ∧ (named → w.kind ≠ .identifier) ∧ Flows (w.kind = .identifier) ws

namespace Token

/-- A word is followed by the end, or by a space and the other words. -/
theorem spaced_cons (w : Word) (ws : List Word) :
    ∃ rest, Word.spaced (w :: ws) = w.chars ++ rest ∧ Spaced rest ∧
      (rest = [] ∧ ws = [] ∨ rest = ' ' :: Word.spaced ws ∧ ws ≠ []) := by
  cases ws with
  | nil => exact ⟨[], (List.append_nil _).symm, .inl rfl, .inl ⟨rfl, rfl⟩⟩
  | cons v vs => exact ⟨_, rfl, .inr ⟨_, rfl⟩, .inr ⟨rfl, nofun⟩⟩

/-- What follows a name does not go on like a marker. -/
theorem unmarked_of_flows {ws : List Word} (h : Word.Flows true ws) (hne : ws ≠ []) :
    Lexeme.Unmarked (Word.spaced ws) := by
  cases ws with
  | nil => exact absurd rfl hne
  | cons w ws =>
    obtain ⟨rest, hspaced, hrest, _⟩ := spaced_cons w ws
    rw [hspaced]
    exact Lexeme.unmarked_of_writable h.1 (h.2.1 rfl) hrest

/-- Words that can be written side by side are the tokens of their text. -/
theorem scan_spaced {ws : List Word} {named : Bool} (h : Word.Flows named ws) :
    ∀ {before p}, Gap before →
      ∃ ts q, scan 0 before p (Word.spaced ws) = .ok (ts ++ [endAt q]) ∧
      ts.map Token.word = ws := by
  induction ws generalizing named with
  | nil =>
    intro before p _
    exact ⟨[], p, rfl, rfl⟩
  | cons w ws ih =>
    intro before p hbefore
    obtain ⟨hw, _, hws⟩ := h
    obtain ⟨rest, hspaced, hrest, hcases⟩ := spaced_cons w ws
    have hnext : w.kind = .identifier → ∀ cs, rest = ' ' :: cs → Lexeme.Unmarked cs := by
      intro hkind cs hcs
      rcases hcases with ⟨rfl, _⟩ | ⟨rfl, hne⟩
      · cases hcs
      · cases hcs
        exact unmarked_of_flows (by simpa [hkind] using hws) hne
    obtain ⟨c, cs, hchars, hread⟩ :=
      Lexeme.read_word hw (Lexeme.any_isWordCharacter_of_gap hbefore) hrest hnext
    have hscan : scan 0 before p (Word.spaced (w :: ws)) =
        (scan 0 (cs.getLast?.or (some c)) ((p.after c).afterAll cs) rest).map
          (⟨w.kind, w.value, p⟩ :: ·) := by
      rw [hspaced, hchars, List.cons_append, scan, hread]
      simp only [scan_inside, String.ofList_toList]
    rw [hscan]
    rcases hcases with ⟨rfl, rfl⟩ | ⟨rfl, _⟩
    · exact ⟨[⟨w.kind, w.value, p⟩], _, rfl, rfl⟩
    · obtain ⟨ts, q, hts, hmap⟩ := ih hws (p := ((p.after c).afterAll cs).after ' ') (.inr rfl)
      refine ⟨⟨w.kind, w.value, p⟩ :: ts, q, ?_, by rw [List.map_cons, hmap]; rfl⟩
      rw [scan, Lexeme.read_space]
      simp only [hts]
      rfl

end Token

end Boli
