import Boli.Proofs.Seams
import Boli.Proofs.Shifting

/-!
# Line ends

What a line end means to the tokens of a text, which is very little.

* Two texts with a line feed between them have the tokens of the first one and then those of the
  second one, which stand further down (`Token.ofText_append_feed`).
* With a carriage return in front of every line feed, a text has the same tokens at the same places
  (`Token.ofText_withReturns`).

For the second fact, a lexeme is compared with the one at the same place of the text with carriage
returns.  Only a comment holds line feeds, so any other lexeme takes the same characters.  A comment
up to the end of its line takes the carriage return along, and then the line feed stands alone
(`Stretch`).
-/

namespace Boli

namespace Text

/-- The characters that stand for a character when lines end with a carriage return and a line
feed. -/
def returned (c : Char) : List Char := if c = '\n' then ['\r', '\n'] else [c]

/-- The text with a carriage return in front of every line feed. -/
def withReturns (cs : List Char) : List Char := cs.flatMap returned

theorem withReturns_feed (cs : List Char) :
    withReturns ('\n' :: cs) = '\r' :: '\n' :: withReturns cs :=
  rfl

theorem withReturns_cons {c : Char} (hc : c ≠ '\n') (cs : List Char) :
    withReturns (c :: cs) = c :: withReturns cs := by
  rw [withReturns, List.flatMap_cons, returned, if_neg hc]
  rfl

theorem withReturns_append (cs ds : List Char) :
    withReturns (cs ++ ds) = withReturns cs ++ withReturns ds :=
  List.flatMap_append

/-- A character more in the text is one or two characters more with carriage returns. -/
theorem length_withReturns_take (c : Char) (cs : List Char) (n : Nat) :
    (withReturns ((c :: cs).take (n + 1))).length =
      (withReturns (cs.take n)).length + (returned c).length := by
  rw [List.take_succ_cons, withReturns, List.flatMap_cons, List.length_append, Nat.add_comm]
  rfl

/-- Without line feeds the text stays as it is. -/
theorem withReturns_eq_self {cs : List Char} (h : '\n' ∉ cs) : withReturns cs = cs := by
  induction cs with
  | nil => rfl
  | cons c cs ih =>
    rw [List.mem_cons, not_or] at h
    rw [withReturns_cons (Ne.symm h.1), ih h.2]

/-- A character that is no carriage return comes first in both texts or in none. -/
theorem exists_cons_of_withReturns {cs ds : List Char} {d : Char} (hd : d ≠ '\r')
    (h : withReturns cs = d :: ds) : ∃ es, cs = d :: es := by
  cases cs with
  | nil => cases h
  | cons c cs =>
    by_cases hc : c = '\n'
    · subst hc
      exact absurd (List.cons.inj h).1.symm hd
    · rw [withReturns_cons hc] at h
      exact ⟨cs, by rw [(List.cons.inj h).1]⟩

end Text

open Boli.Text

/-! ## Texts with a line feed between them -/

/-- Of what stands in front of a lexeme, it only matters whether it could belong to a word. -/
theorem Lexeme.read_congr {before before' : Option Char}
    (h : before.any isWordCharacter = before'.any isWordCharacter) (c : Char) (cs : List Char) :
    read before c cs = read before' c cs := by
  simp only [read, marker?, h]

namespace Token

/-- A scan depends on what stands in front of it only by whether a word could end there. -/
theorem scan_congr {before before' : Option Char}
    (h : before.any isWordCharacter = before'.any isWordCharacter) (inside : Nat) (p : Position)
    (cs : List Char) : scan inside before p cs = scan inside before' p cs := by
  cases cs with
  | nil => rfl
  | cons c cs =>
    cases inside with
    | zero => simp only [scan, Lexeme.read_congr h]
    | succ inside => rfl

/-- The line behind a text and a line feed. -/
theorem afterAll_first_feed (cs : List Char) :
    (Position.first.afterAll cs).after '\n' = Position.first.shifted (cs.count '\n' + 1) := by
  rw [Position.after, if_pos rfl, Position.line_afterAll, Position.shifted, Int.add_assoc]
  rfl

/-- Behind a text that has tokens and a line feed, another text has its own outcome. -/
theorem ofText_append_feed_eq {first : String} {ts : List Token} {q : Position}
    (h : ofText first = .ok (ts ++ [endAt q])) (second : String) :
    ofText (first ++ "\n" ++ second) =
      (outcomeShifted (first.toList.count '\n' + 1) (ofText second)).map (ts ++ ·) := by
  have hchars : (first ++ "\n" ++ second).toList = first.toList ++ '\n' :: second.toList := by
    simp only [String.toList_append, List.append_assoc]
    rfl
  have hbefore : (some '\n').any isWordCharacter = none.any isWordCharacter := by decide
  rw [ofText, hchars, scan_append_feed_of_ok h, afterAll_first_feed, scan_outcomeShifted,
    scan_congr hbefore]
  rfl

/-- A line feed is a seam.  If a text has tokens, then with a line feed and another text behind it,
it has tokens if the other text has, and these are the tokens of both.  The second ones stand as many
lines further down as there are line feeds in front of them.  If the other text has no tokens, the
same is wrong with both of them, just as much further down. -/
theorem ofText_append_feed {first : String} {tokens : List Token} (h : ofText first = .ok tokens)
    (second : String) :
    ∃ ts q, tokens = ts ++ [endAt q] ∧ (∀ t ∈ ts, t.kind ≠ .eof) ∧
      ((∃ all, ofText (first ++ "\n" ++ second) = .ok all) ↔ ∃ us, ofText second = .ok us) ∧
      (∀ us, ofText second = .ok us → ofText (first ++ "\n" ++ second) =
        .ok (ts ++ us.map (shifted (first.toList.count '\n' + 1)))) ∧
      ∀ e, ofText second = .error e → ofText (first ++ "\n" ++ second) =
        .error (e.shifted (first.toList.count '\n' + 1)) := by
  obtain ⟨ts, q, rfl, hfits⟩ := fits_of_scan h
  have heq := ofText_append_feed_eq h second
  refine ⟨ts, q, rfl, fun t ht => (hfits t ht).kind_ne_eof, ?_, fun us hus => ?_, fun e he => ?_⟩
  · rw [heq]
    cases ofText second with
    | ok us => exact iff_of_true ⟨_, rfl⟩ ⟨us, rfl⟩
    | error e => exact iff_of_false (fun ⟨_, hall⟩ => nomatch hall) fun ⟨_, hus⟩ => nomatch hus
  · rw [heq, hus]
    rfl
  · rw [heq, he]
    rfl

/-- A text with much in it that a line end has to close: an escaped backslash in front of a quote, a
number in front of a point, and a line comment with a quote and an open comment in it. -/
def unclosedLine : String := "\"\\\\\" /*\n*/ 1. // \"/*"

/-- The tokens of that text. -/
def unclosedLineTokens : List Token :=
  [⟨.text, "\\", ⟨1, 1⟩⟩, ⟨.number, "1", ⟨2, 4⟩⟩, ⟨.symbol .dot, ".", ⟨2, 5⟩⟩, endAt ⟨2, 13⟩]

/-- The digit behind the line feed does not continue the number, and what is wrong on the second line
behind it is reported on the fourth line of the whole text. -/
theorem ofText_append_feed_unclosedLine :
    ofText unclosedLine = .ok unclosedLineTokens ∧
      ofText (unclosedLine ++ "\n" ++ "5") =
        .ok (unclosedLineTokens.dropLast ++ [⟨.number, "5", ⟨3, 1⟩⟩, endAt ⟨3, 2⟩]) ∧
      ofText (unclosedLine ++ "\n" ++ "5*/\n ?") = .error ⟨.unexpected '?', ⟨4, 2⟩⟩ := by
  have htokens : ofText unclosedLine = .ok unclosedLineTokens := by decide +kernel
  have hdigit : ofText "5" = .ok [⟨.number, "5", ⟨1, 1⟩⟩, endAt ⟨1, 2⟩] := by decide +kernel
  have herror : ofText "5*/\n ?" = .error ⟨.unexpected '?', ⟨2, 2⟩⟩ := by decide +kernel
  obtain ⟨ts, q, hts, _, _, hok, _⟩ := ofText_append_feed htokens "5"
  obtain ⟨_, _, _, _, _, _, hfail⟩ := ofText_append_feed htokens "5*/\n ?"
  refine ⟨htokens, ?_, hfail _ herror⟩
  rw [hok _ hdigit, hts, List.dropLast_concat]
  rfl

end Token

/-! ## Texts with carriage returns -/

/-- In the text with carriage returns, `n` characters stand for the first `m` characters of `cs`.
They may also take the carriage return of a line end that follows. -/
def Stretch (cs : List Char) (m n : Nat) : Prop :=
  n = (withReturns (cs.take m)).length ∨
    n = (withReturns (cs.take m)).length + 1 ∧ ∃ rest, cs.drop m = '\n' :: rest

namespace Stretch

variable {c : Char} {cs : List Char} {m n : Nat}

theorem zero (cs : List Char) : Stretch cs 0 0 := .inl rfl

/-- Where there is no line feed, the same characters stand for each other. -/
theorem of_not_mem {body : List Char} (h : '\n' ∉ body) (rest : List Char) :
    Stretch (body ++ rest) body.length body.length := by
  left
  rw [List.take_left, withReturns_eq_self h]

/-- No carriage return is taken where the text does not go on with a line feed. -/
theorem eq_zero (h : Stretch (c :: cs) 0 n) (hc : c ≠ '\n') : n = 0 := by
  rcases h with h | ⟨_, rest, hrest⟩
  · exact h
  · exact absurd (List.cons.inj hrest).1 hc

theorem le_one (h : Stretch cs 0 n) : n = 0 ∨ n = 1 := by
  rcases h with h | ⟨h, _⟩
  · exact .inl h
  · exact .inr h

theorem cons (h : Stretch cs m n) (hc : c ≠ '\n') : Stretch (c :: cs) (m + 1) (n + 1) := by
  rw [Stretch, List.take_succ_cons, withReturns_cons hc, List.length_cons]
  rcases h with rfl | ⟨rfl, hrest⟩
  · exact .inl rfl
  · exact .inr ⟨rfl, hrest⟩

/-- The characters behind the first one stand for each other as well. -/
theorem uncons (h : Stretch (c :: cs) (m + 1) n) :
    ∃ k, n = k + (returned c).length ∧ Stretch cs m k := by
  rw [Stretch, length_withReturns_take] at h
  rcases h with rfl | ⟨rfl, hrest⟩
  · exact ⟨_, rfl, .inl rfl⟩
  · exact ⟨_, Nat.add_right_comm _ _ _, .inr ⟨rfl, hrest⟩⟩

end Stretch

namespace Lexeme

/-! ## Lexemes without line feeds -/

theorem isLetter_return {letter : Char} (h : letter.isAlpha) : isLetter letter '\r' = false :=
  isLetter_eq_false h (by decide)

/-- A word of a marker holds no line feed, so it is found in both texts. -/
theorem afterWord?_withReturns {word : List Char} (hword : word.all Char.isAlpha)
    (cs : List Char) : afterWord? word (withReturns cs) = (afterWord? word cs).map withReturns := by
  induction word generalizing cs with
  | nil => rfl
  | cons letter word ih =>
    rw [List.all_cons, Bool.and_eq_true] at hword
    cases cs with
    | nil => rfl
    | cons c cs =>
      by_cases hc : c = '\n'
      · subst hc
        rw [withReturns_feed, afterWord?, afterWord?, isLetter_return hword.1,
          isLetter_feed hword.1]
        rfl
      · rw [withReturns_cons hc, afterWord?, afterWord?]
        split
        · exact ih hword.2 cs
        · rfl

/-- A stretch without line ends stops at the same place of both texts. -/
theorem dropWhile_withReturns {f : Char → Bool} (hfeed : f '\n' = false) (hreturn : f '\r' = false)
    (cs : List Char) : (withReturns cs).dropWhile f = withReturns (cs.dropWhile f) := by
  induction cs with
  | nil => rfl
  | cons c cs ih =>
    by_cases hc : c = '\n'
    · subst hc
      rw [List.dropWhile_cons_of_neg (by simp [hfeed]), withReturns_feed,
        List.dropWhile_cons_of_neg (by simp [hreturn])]
    · rw [withReturns_cons hc, List.dropWhile_cons, List.dropWhile_cons]
      split
      · exact ih
      · exact (withReturns_cons hc cs).symm

theorem takeWhile_withReturns {f : Char → Bool} (hfeed : f '\n' = false) (hreturn : f '\r' = false)
    (cs : List Char) : (withReturns cs).takeWhile f = cs.takeWhile f := by
  induction cs with
  | nil => rfl
  | cons c cs ih =>
    by_cases hc : c = '\n'
    · subst hc
      rw [List.takeWhile_cons_of_neg (by simp [hfeed]), withReturns_feed,
        List.takeWhile_cons_of_neg (by simp [hreturn])]
    · rw [withReturns_cons hc, List.takeWhile_cons, List.takeWhile_cons, ih]

/-- No line end stands between the words of a marker, so they are found in both texts. -/
theorem afterWords?_withReturns {words : List (List Char)}
    (hwords : ∀ word ∈ words, word.all Char.isAlpha) (cs : List Char) :
    afterWords? words (withReturns cs) = (afterWords? words cs).map withReturns := by
  induction words generalizing cs with
  | nil => rfl
  | cons word words ih =>
    have hword := hwords word List.mem_cons_self
    cases words with
    | nil => exact afterWord?_withReturns hword cs
    | cons second words =>
      rw [afterWords?, afterWords?, afterWord?_withReturns hword]
      · rcases afterWord? word cs with _ | (_ | ⟨c, cs⟩)
        · rfl
        · rfl
        · by_cases hc : c = '\n'
          · subst hc
            rfl
          · simp only [Option.map_some, withReturns_cons hc]
            split
            · rw [dropWhile_withReturns (by decide) (by decide)]
              exact ih (fun w hw => hwords w (.tail _ hw)) _
            · rfl
      · simp
      · simp

/-- The words of a marker stand on one line. -/
theorem feed_not_mem_of_afterWords? {words : List (List Char)} {cs : List Char}
    (hwords : ∀ word ∈ words, word.all Char.isAlpha) (h : afterWords? words cs = some []) :
    '\n' ∉ cs := by
  intro hmem
  obtain ⟨front, rest, rfl⟩ := List.append_of_mem hmem
  rw [afterWords?_append_feed hwords] at h
  obtain ⟨r, _, hr⟩ := Option.map_eq_some_iff.1 h
  simp at hr

/-- Markers are the same in both texts. -/
theorem marker?_withReturns {word : List Char} {words : List (List Char)} {before : Option Char}
    (hwords : ∀ w ∈ word :: words, w.all Char.isAlpha) (hne : ∀ w ∈ word :: words, w ≠ [])
    (cs : List Char) :
    marker? (word :: words) before (withReturns cs) = marker? (word :: words) before cs := by
  rw [marker?, marker?, afterWords?_withReturns hwords]
  cases hrest : afterWords? (word :: words) cs with
  | none => rfl
  | some rest =>
    obtain ⟨front, rfl, hfront⟩ := exists_of_afterWords? hne hrest
    have hnil := hfront []
    rw [List.append_nil] at hnil
    have hlength : (withReturns (front ++ rest)).length - (withReturns rest).length =
        (front ++ rest).length - rest.length := by
      rw [withReturns_append, withReturns_eq_self (feed_not_mem_of_afterWords? hwords hnil),
        List.length_append, List.length_append, Nat.add_sub_cancel, Nat.add_sub_cancel]
    simp only [Option.map_some, hlength]
    cases rest with
    | nil => rfl
    | cons c rest =>
      by_cases hc : c = '\n'
      · subst hc
        rfl
      · rw [withReturns_cons hc]
        rfl

/-- So are numbers. -/
theorem numberMore_withReturns (cs : List Char) : numberMore (withReturns cs) = numberMore cs := by
  obtain ⟨whole, rest, hwhole, hsplit⟩ :
      ∃ whole rest, cs.takeWhile isDigit = whole ∧ cs = whole ++ rest :=
    ⟨_, cs.dropWhile isDigit, rfl, List.takeWhile_append_dropWhile.symm⟩
  have hfeed : '\n' ∉ whole := by
    intro hmem
    rw [← hwhole] at hmem
    exact absurd (List.mem_takeWhile_imp hmem) (by decide)
  rw [numberMore, numberMore, takeWhile_withReturns (by decide) (by decide), hwhole, hsplit,
    withReturns_append, withReturns_eq_self hfeed, List.drop_left, List.drop_left]
  cases rest with
  | nil => rfl
  | cons c rest =>
    by_cases hc : c = '\n'
    · subst hc
      rfl
    · rw [withReturns_cons hc]
      by_cases hpoint : c = '.'
      · subst hpoint
        simp only [takeWhile_withReturns (show isDigit '\n' = false by decide)
          (show isDigit '\r' = false by decide)]
      · simp [hpoint]

/-- A quoted text ends on its line, and a carriage return does not close it. -/
theorem quotedBody?_withReturns {quote : Char} (hfeed : quote ≠ '\n') (hreturn : quote ≠ '\r')
    (hslash : quote ≠ '\\') (cs : List Char) :
    quotedBody? quote (withReturns cs) = quotedBody? quote cs := by
  have hplain {c : Char} (hc : c ≠ '\\') (cs : List Char) : quotedBody? quote (c :: cs) =
      if c = quote then some ([], 1)
      else if c = '\n' ∨ c = '\\' then none
      else (quotedBody? quote cs).map fun r => (c :: r.1, r.2 + 1) := by
    rw [quotedBody?]
    exact fun _ _ heq => absurd heq hc
  have hend (cs : List Char) : quotedBody? quote ('\n' :: cs) = none := by
    rw [hplain (by decide), if_neg hfeed.symm, if_pos (.inl rfl)]
  fun_induction quotedBody? quote cs with
  | case1 => rfl
  | case2 cs =>
    rw [withReturns_cons (by decide), withReturns_feed, quotedBody?, if_neg (by decide), hend]
    rfl
  | case3 c cs hc ih =>
    rw [withReturns_cons (by decide), withReturns_cons hc, quotedBody?, if_neg hc, ih]
  | case4 cs => rw [withReturns_cons hfeed, hplain hslash, if_pos rfl]
  | case5 c cs hopen hc hnone =>
    rcases hnone with rfl | rfl
    · rw [withReturns_feed, hplain (by decide), if_neg hreturn.symm, if_neg (by decide), hend]
      rfl
    · cases cs with
      | nil =>
        rw [withReturns_eq_self (by decide), quotedBody?]
        · rw [if_neg hc, if_pos (.inr rfl)]
        · simp
      | cons d cs => exact (hopen d cs rfl rfl).elim
  | case6 c cs _ hc hnone ih =>
    rw [not_or] at hnone
    rw [withReturns_cons hnone.1, hplain hnone.2, if_neg hc, if_neg (not_or.2 hnone), ih]

/-- So are signs. -/
theorem readMark_withReturns (c : Char) (cs : List Char) :
    readMark c (withReturns cs) = readMark c cs := by
  cases cs with
  | nil => rfl
  | cons d cs =>
    by_cases hd : d = '\n'
    · subst hd
      have hsymbol : Symbol.ofChars? c (some '\r') = Symbol.ofChars? c (some '\n') := by
        unfold Symbol.ofChars?
        split <;> simp_all
      rw [withReturns_feed, readMark, readMark, List.head?_cons, List.head?_cons, hsymbol]
    · rw [withReturns_cons hd]
      rfl

/-! ## Comments -/

/-- A comment between marks takes the carriage returns inside of it along. -/
theorem commentBody?_withReturns (cs : List Char) :
    commentBody? (withReturns cs) =
      (commentBody? cs).map fun n => (withReturns (cs.take n)).length := by
  fun_induction commentBody? cs with
  | case1 cs => rfl
  | case2 c cs hopen ih =>
    by_cases hc : c = '\n'
    · subst hc
      have hfeed (cs : List Char) : commentBody? ('\r' :: '\n' :: cs) =
          (commentBody? cs).map (· + 2) := by
        rw [commentBody?, commentBody?, Option.map_map]
        · rfl
        · simp
        · simp
      rw [withReturns_feed, hfeed, ih, Option.map_map, Option.map_map]
      congr 1
    · rw [withReturns_cons hc, commentBody?, ih, Option.map_map, Option.map_map]
      · congr 1
        funext n
        show _ + 1 = (withReturns ((c :: cs).take (n + 1))).length
        rw [length_withReturns_take, returned, if_neg hc]
        rfl
      · intro ds hstar hds
        obtain ⟨es, rfl⟩ := exists_cons_of_withReturns (by decide) hds
        exact hopen es hstar rfl
  | case3 => rfl

/-- A comment up to the end of its line takes the carriage return along. -/
theorem stretch_line (cs : List Char) :
    Stretch cs (cs.takeWhile (· ≠ '\n')).length
      ((withReturns cs).takeWhile (· ≠ '\n')).length := by
  induction cs with
  | nil => exact .zero []
  | cons c cs ih =>
    by_cases hc : c = '\n'
    · subst hc
      exact .inr ⟨rfl, cs, rfl⟩
    · rw [withReturns_cons hc, List.takeWhile_cons_of_pos (by simpa using hc),
        List.takeWhile_cons_of_pos (by simpa using hc)]
      exact ih.cons hc

theorem read_slash (before : Option Char) (cs : List Char) : read before '/' cs = readSlash cs :=
  read_head cs fun _ hletter => isLetter_eq_false hletter (by decide)

/-- The text goes on with a comment behind a slash. -/
def OpensComment (c : Char) (cs : List Char) : Prop :=
  c = '/' ∧ ∃ rest, cs = '*' :: rest ∨ cs = '/' :: rest

/-- A comment is a gap in both texts, and it ends at the same place. -/
theorem read_comment_withReturns {c : Char} {cs : List Char} (h : OpensComment c cs)
    (before : Option Char) :
    (read before c (withReturns cs)).lexeme = (read before c cs).lexeme ∧
      Stretch cs (read before c cs).more (read before c (withReturns cs)).more := by
  obtain ⟨rfl, rest, rfl | rfl⟩ := h
  · rw [read_slash, read_slash, withReturns_cons (by decide), readSlash, readSlash,
      commentBody?_withReturns]
    cases commentBody? rest with
    | none => exact ⟨rfl, .zero _⟩
    | some n =>
      have hbody : Stretch rest n (withReturns (rest.take n)).length := .inl rfl
      exact ⟨rfl, hbody.cons (by decide)⟩
  · rw [read_slash, read_slash, withReturns_cons (by decide), readSlash, readSlash]
    have hline := (stretch_line rest).cons (c := '/') (by decide)
    rw [Nat.add_comm _ 1, Nat.add_comm _ 1] at hline
    exact ⟨rfl, hline⟩

/-! ## The lexeme at the same place -/

/-- A token stands on one line. -/
theorem feed_not_mem_of_token {before : Option Char} {c : Char} {cs : List Char} {kind : Kind}
    {value : List Char} {more : Nat} (h : read before c cs = ⟨.token kind value, more⟩) :
    '\n' ∉ cs.take more := by
  intro hmem
  obtain ⟨front, rest, hsplit⟩ := List.append_of_mem hmem
  have hcs : cs = front ++ '\n' :: (rest ++ cs.drop more) := by
    rw [← List.cons_append, ← List.append_assoc, ← hsplit, List.take_append_drop]
  have hopen : (read before c front).StaysOpen (rest ++ cs.drop more) := by
    intro _ hfault
    obtain ⟨inside, behind, hfront, _, hdescribes⟩ := read_covers before c front
    rw [hfault] at hdescribes
    obtain ⟨body, hbody, _⟩ := hdescribes
    rw [List.cons_append, ← hfront] at hbody
    obtain ⟨rfl, rfl⟩ := List.cons.inj hbody
    rw [hcs, read_slash, List.cons_append, readSlash] at h
    split at h <;> cases h
  have hlength : front.length < more := by
    have hle := List.length_take_le more cs
    rw [hsplit, List.length_append, List.length_cons] at hle
    omega
  -- the token would end in front of the line feed
  have hmore := more_le_length before c front
  rw [hcs, read_append_feed hopen] at h
  rw [h] at hmore
  exact absurd hlength (Nat.not_lt.2 hmore)

theorem take_withReturns {cs : List Char} {n : Nat} (h : '\n' ∉ cs.take n) :
    (withReturns cs).take n = cs.take n := by
  induction cs generalizing n with
  | nil => rfl
  | cons c cs ih =>
    cases n with
    | zero => rfl
    | succ n =>
      rw [List.take_succ_cons, List.mem_cons, not_or] at h
      rw [withReturns_cons (Ne.symm h.1), List.take_succ_cons, List.take_succ_cons, ih h.2]

/-- A marker is spelled by the same characters. -/
theorem take_marker_withReturns {words : List (List Char)} {word : List Char}
    {before : Option Char} {cs : List Char} {n : Nat}
    (hwords : ∀ w ∈ word :: words, w.all Char.isAlpha) (hne : ∀ w ∈ word :: words, w ≠ [])
    (h : marker? (word :: words) before cs = some n) : (withReturns cs).take n = cs.take n := by
  obtain ⟨c, front, rest, rfl, rfl, hfront⟩ := exists_of_marker? hne h
  refine take_withReturns ?_
  rw [List.take_succ_cons, List.take_left]
  exact feed_not_mem_of_afterWords? hwords hfront

/-- Whatever is neither a marker nor a comment is read from the same characters. -/
theorem readPlain_withReturns {c : Char} {cs : List Char} (h : ¬OpensComment c cs) :
    readPlain c (withReturns cs) = readPlain c cs := by
  rw [readPlain, readPlain]
  split
  · next hdigit =>
    have hread : read none c cs = ⟨.token .number (c :: cs.take (numberMore cs)), numberMore cs⟩ := by
      rw [read_head cs fun _ hletter => not_isLetter_of_isDigit hletter hdigit, readPlain,
        if_pos hdigit]
    rw [numberMore_withReturns]
    simp only [take_withReturns (feed_not_mem_of_token hread)]
  · split
    · next hquote =>
      rw [quotedBody?_withReturns]
      · rcases hquote with rfl | rfl <;> decide
      · rcases hquote with rfl | rfl <;> decide
      · rcases hquote with rfl | rfl <;> decide
    · split
      · rw [takeWhile_withReturns (by decide) (by decide)]
      · split
        · next hslash =>
          rw [readSlash, readSlash, readMark_withReturns]
          · intro rest hrest
            exact h ⟨hslash, rest, .inl hrest⟩
          · intro rest hrest
            exact h ⟨hslash, rest, .inr hrest⟩
          · intro rest hrest
            obtain ⟨es, hes⟩ := exists_cons_of_withReturns (by decide) hrest
            exact h ⟨hslash, es, .inl hes⟩
          · intro rest hrest
            obtain ⟨es, hes⟩ := exists_cons_of_withReturns (by decide) hrest
            exact h ⟨hslash, es, .inr hes⟩
        · exact readMark_withReturns c cs

/-- Any lexeme but a comment is the same in both texts. -/
theorem read_eq_withReturns {c : Char} {cs : List Char} (hc : c ≠ '\n') (h : ¬OpensComment c cs)
    (before : Option Char) : read before c (withReturns cs) = read before c cs := by
  have hstart : marker? startWords before (withReturns (c :: cs)) =
      marker? startWords before (c :: cs) := marker?_withReturns (by decide) (by decide) (c :: cs)
  have hfinish : marker? finishWords before (withReturns (c :: cs)) =
      marker? finishWords before (c :: cs) := marker?_withReturns (by decide) (by decide) (c :: cs)
  rw [read, read, ← withReturns_cons hc, hstart, hfinish, readPlain_withReturns h]
  split
  · next n hn => rw [take_marker_withReturns (by decide) (by decide) hn]
  · split
    · next n hn => rw [take_marker_withReturns (by decide) (by decide) hn]
    · rfl

/-- A sign of more than one character is a token. -/
theorem readMark_more (c : Char) (cs : List Char) :
    (readMark c cs).more = 0 ∨ ∃ kind value, (readMark c cs).lexeme = .token kind value := by
  rw [readMark]
  split
  · exact .inr ⟨_, _, rfl⟩
  · split <;> exact .inl rfl

/-- A lexeme that is no comment has one character, or it is a token. -/
theorem read_more {c : Char} {cs : List Char} (h : ¬OpensComment c cs) (before : Option Char) :
    (read before c cs).more = 0 ∨ ∃ kind value, (read before c cs).lexeme = .token kind value := by
  rw [read]
  split
  · exact .inr ⟨_, _, rfl⟩
  · split
    · exact .inr ⟨_, _, rfl⟩
    · rw [readPlain]
      split
      · exact .inr ⟨_, _, rfl⟩
      · split
        · split
          · exact .inr ⟨_, _, rfl⟩
          · exact .inl rfl
        · split
          · exact .inr ⟨_, _, rfl⟩
          · split
            · next hslash =>
              rw [readSlash]
              · exact readMark_more '/' cs
              · exact fun rest hrest => h ⟨hslash, rest, .inl hrest⟩
              · exact fun rest hrest => h ⟨hslash, rest, .inr hrest⟩
            · exact readMark_more c cs

/-- The lexeme at the same place of the text with carriage returns. -/
theorem read_withReturns {c : Char} (hc : c ≠ '\n') (before : Option Char) (cs : List Char) :
    (read before c (withReturns cs)).lexeme = (read before c cs).lexeme ∧
      Stretch cs (read before c cs).more (read before c (withReturns cs)).more := by
  by_cases hcomment : OpensComment c cs
  · exact read_comment_withReturns hcomment before
  · rw [read_eq_withReturns hc hcomment]
    refine ⟨rfl, ?_⟩
    rcases read_more hcomment before with hmore | ⟨kind, value, hlexeme⟩
    · rw [hmore]
      exact .zero cs
    · have hread : read before c cs = ⟨.token kind value, (read before c cs).more⟩ := by
        rw [← hlexeme]
      have hlength : (cs.take (read before c cs).more).length = (read before c cs).more :=
        List.length_take_of_le (more_le_length before c cs)
      have hstretch := Stretch.of_not_mem (feed_not_mem_of_token hread)
        (cs.drop (read before c cs).more)
      rwa [List.take_append_drop, hlength] at hstretch

/-- A carriage return is a gap. -/
theorem read_return (before : Option Char) (cs : List Char) :
    read before '\r' cs = ⟨.gap, 0⟩ := by
  rw [read_head]
  · rfl
  · exact fun _ hletter => isLetter_return hletter

end Lexeme

namespace Token

/-- A scan of the text with carriage returns finds the same tokens.  It may be one carriage return
ahead. -/
theorem scan_withReturns {cs : List Char} {inside n : Nat} (h : Stretch cs inside n)
    (before : Option Char) (p : Position) :
    scan n before p (withReturns cs) = scan inside before p cs := by
  induction cs generalizing inside n before p with
  | nil => rfl
  | cons c cs ih =>
    cases inside with
    | succ inside =>
      obtain ⟨k, rfl, hk⟩ := h.uncons
      by_cases hc : c = '\n'
      · subst hc
        exact ih hk (some '\n') (p.after '\n')
      · rw [withReturns_cons hc, returned, if_neg hc]
        exact ih hk (some c) (p.after c)
    | zero =>
      by_cases hc : c = '\n'
      · subst hc
        have hfeed (before : Option Char) : scan 0 before (p.after '\r') ('\n' :: withReturns cs) =
            scan 0 (some '\n') (p.after '\n') cs := by
          rw [scan_feed]
          exact ih (.zero cs) (some '\n') (p.after '\n')
        rw [withReturns_feed, scan_feed]
        rcases h.le_one with rfl | rfl
        · rw [scan_of_gap (Lexeme.read_return before _), hfeed]
        · exact hfeed (some '\r')
      · obtain rfl := h.eq_zero hc
        obtain ⟨hlexeme, hmore⟩ := Lexeme.read_withReturns hc before cs
        rw [withReturns_cons hc]
        obtain ⟨⟨lexeme, more⟩, hread⟩ : ∃ e, Lexeme.read before c cs = e := ⟨_, rfl⟩
        obtain ⟨⟨lexeme', more'⟩, hread'⟩ : ∃ e, Lexeme.read before c (withReturns cs) = e :=
          ⟨_, rfl⟩
        rw [hread, hread'] at hlexeme hmore
        obtain rfl : lexeme' = lexeme := hlexeme
        cases lexeme' with
        | fault cause => rw [scan_of_fault hread, scan_of_fault hread']
        | gap => rw [scan_of_gap hread, scan_of_gap hread', ih hmore]
        | token kind value => rw [scan_of_token hread, scan_of_token hread', ih hmore]

/-- It does not matter to the tokens of a text, nor to what is wrong with it, whether its lines end
with a line feed or with a carriage return and a line feed. -/
theorem ofText_withReturns (text : String) :
    ofText (String.ofList (withReturns text.toList)) = ofText text := by
  rw [ofText, ofText, String.toList_ofList]
  exact scan_withReturns (.zero _) none .first

end Token

end Boli
