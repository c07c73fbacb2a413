import Boli.Proofs.Extents
import Boli.Proofs.Rescanning

/-!
# A line feed is a seam of a text

No lexeme but a comment reaches across a line feed, and none looks beyond it.  So what stands in
front of a line feed has the tokens that it has alone, and what stands behind has its own
(`Token.scan_append_feed`).

There is one exception.  A comment that is open at the line feed may be closed behind it.
-/

namespace Boli

open Boli.Text

/-- If the extent is an open comment, nothing closes it in `rest`. -/
def Extent.StaysOpen (e : Extent) (rest : List Char) : Prop :=
  ['*', '/'] <:+: rest → e.lexeme ≠ .fault .unterminatedComment

namespace Lexeme

/-! ## Markers -/

theorem isLetter_feed {letter : Char} (h : letter.isAlpha) : isLetter letter '\n' = false :=
  isLetter_eq_false h (by decide)

/-- A word of a marker is found in front of the line feed or not at all. -/
theorem afterWord?_append_feed {word : List Char} (hword : word.all Char.isAlpha)
    (cs rest : List Char) :
    afterWord? word (cs ++ '\n' :: rest) = (afterWord? word cs).map (· ++ '\n' :: rest) := by
  induction word generalizing cs with
  | nil => rfl
  | cons letter word ih =>
    rw [List.all_cons, Bool.and_eq_true] at hword
    cases cs with
    | nil =>
      rw [List.nil_append, afterWord?, afterWord?, isLetter_feed hword.1]
      rfl
    | cons c cs =>
      rw [List.cons_append, afterWord?, afterWord?]
      split
      · exact ih hword.2 cs
      · rfl

/-- A stretch without line feeds stops at the line feed. -/
theorem dropWhile_append_feed {f : Char → Bool} (hf : f '\n' = false) (cs rest : List Char) :
    (cs ++ '\n' :: rest).dropWhile f = cs.dropWhile f ++ '\n' :: rest := by
  induction cs with
  | nil => exact List.dropWhile_cons_of_neg (by simp [hf])
  | cons c cs ih =>
    rw [List.cons_append, List.dropWhile_cons, List.dropWhile_cons]
    split
    · exact ih
    · rfl

theorem takeWhile_append_feed {f : Char → Bool} (hf : f '\n' = false) (cs rest : List Char) :
    (cs ++ '\n' :: rest).takeWhile f = cs.takeWhile f := by
  induction cs with
  | nil => exact List.takeWhile_cons_of_neg (by simp [hf])
  | cons c cs ih => rw [List.cons_append, List.takeWhile_cons, List.takeWhile_cons, ih]

/-- No marker goes across a line feed. -/
theorem afterWords?_append_feed {words : List (List Char)}
    (hwords : ∀ word ∈ words, word.all Char.isAlpha) (cs rest : List Char) :
    afterWords? words (cs ++ '\n' :: rest) = (afterWords? words cs).map (· ++ '\n' :: rest) := by
  induction words generalizing cs with
  | nil => rfl
  | cons word words ih =>
    have hword := hwords word List.mem_cons_self
    cases words with
    | nil => exact afterWord?_append_feed hword cs rest
    | cons second words =>
      rw [afterWords?, afterWords?, afterWord?_append_feed hword]
      · rcases afterWord? word cs with _ | (_ | ⟨c, cs⟩)
        · rfl
        · rfl
        · simp only [Option.map_some, List.cons_append]
          split
          · rw [dropWhile_append_feed (by decide)]
            exact ih (fun w hw => hwords w (.tail _ hw)) _
          · rfl
      · simp
      · simp

/-- A line feed ends a marker as the end of the text does. -/
theorem marker?_append_feed {words : List (List Char)} {before : Option Char}
    (hwords : ∀ word ∈ words, word.all Char.isAlpha) (cs rest : List Char) :
    marker? words before (cs ++ '\n' :: rest) = marker? words before cs := by
  rw [marker?, marker?, afterWords?_append_feed hwords]
  cases afterWords? words cs with
  | none => rfl
  | some r =>
    have hlength : (cs ++ '\n' :: rest).length - (r ++ '\n' :: rest).length =
        cs.length - r.length := by
      rw [List.length_append, List.length_append, Nat.add_sub_add_right]
    simp only [Option.map_some, hlength]
    cases r with
    | nil => rfl
    | cons c r => rfl

/-! ## Numbers, texts and comments -/

/-- A line feed ends a number as the end of the text does. -/
theorem numberMore_append_feed (cs rest : List Char) :
    numberMore (cs ++ '\n' :: rest) = numberMore cs := by
  have hle := (List.takeWhile_prefix (l := cs) isDigit).length_le
  rw [numberMore, numberMore, takeWhile_append_feed (by decide), List.drop_append_of_le_length hle]
  cases cs.drop (cs.takeWhile isDigit).length with
  | nil => rfl
  | cons c fraction =>
    by_cases hpoint : c = '.'
    · subst hpoint
      simp only [List.cons_append, takeWhile_append_feed (show isDigit '\n' = false by decide)]
    · simp [hpoint]

/-- A quoted text that is not closed in front of the line feed is not closed. -/
theorem quotedBody?_append_feed {quote : Char} (hquote : quote ≠ '\n') (hslash : quote ≠ '\\')
    (cs rest : List Char) : quotedBody? quote (cs ++ '\n' :: rest) = quotedBody? quote cs := by
  fun_induction quotedBody? quote cs with
  | case1 =>
    rw [List.nil_append, quotedBody?]
    · rw [if_neg hquote.symm, if_pos (.inl rfl)]
    · exact fun _ _ heq => absurd heq (by decide)
  | case2 cs => rw [List.cons_append, List.cons_append, quotedBody?, if_pos rfl]
  | case3 c cs hc ih => rw [List.cons_append, List.cons_append, quotedBody?, if_neg hc, ih]
  | case4 cs =>
    rw [List.cons_append, quotedBody?]
    · exact if_pos rfl
    · exact fun _ _ heq => absurd heq hslash
  | case5 c cs hopen hc hend =>
    by_cases hbackslash : c = '\\'
    · subst hbackslash
      cases cs with
      | nil => rw [List.cons_append, List.nil_append, quotedBody?, if_pos rfl]
      | cons d cs => exact (hopen d cs rfl rfl).elim
    · rw [List.cons_append, quotedBody?]
      · rw [if_neg hc, if_pos hend]
      · exact fun _ _ heq => absurd heq hbackslash
  | case6 c cs _ hc hplain ih =>
    rw [List.cons_append, quotedBody?]
    · rw [if_neg hc, if_neg hplain, ih]
    · exact fun _ _ heq => absurd (.inr heq) hplain

theorem exists_cons_of_append_feed {cs rest ds : List Char} {d : Char} (hd : d ≠ '\n')
    (h : cs ++ '\n' :: rest = d :: ds) : ∃ es, cs = d :: es := by
  cases cs with
  | nil => exact absurd (List.cons.inj h).1.symm hd
  | cons c cs => exact ⟨cs, by rw [(List.cons.inj h).1]⟩

/-- An open comment stays open if nothing behind the line feed closes it. -/
theorem commentBody?_append_feed {cs : List Char} (rest : List Char)
    (h : ['*', '/'] <:+: rest → commentBody? cs ≠ none) :
    commentBody? (cs ++ '\n' :: rest) = commentBody? cs := by
  fun_induction commentBody? cs with
  | case1 cs => rfl
  | case2 c cs hopen ih =>
    rw [List.cons_append, commentBody?, ih]
    · simpa using h
    · intro ds hstar hds
      obtain ⟨es, hes⟩ := exists_cons_of_append_feed (by decide) hds
      exact hopen es hstar hes
  | case3 =>
    rw [List.nil_append, commentBody?_eq_none_iff, List.infix_cons_iff, not_or]
    exact ⟨by simp, fun hclosed => h hclosed rfl⟩

/-! ## The lexeme in front of a line feed -/

/-- No sign has a line feed in it. -/
theorem readMark_append_feed (c : Char) (cs rest : List Char) :
    readMark c (cs ++ '\n' :: rest) = readMark c cs := by
  cases cs with
  | nil =>
    have hsymbol : Symbol.ofChars? c (some '\n') = Symbol.ofChars? c none := by
      unfold Symbol.ofChars?
      split <;> simp_all
    rw [List.nil_append, readMark, readMark, List.head?_cons, hsymbol]
    rfl
  | cons d cs => rfl

/-- A slash starts the same comment, unless the comment is closed behind the line feed. -/
theorem readSlash_append_feed {cs rest : List Char} (h : (readSlash cs).StaysOpen rest) :
    readSlash (cs ++ '\n' :: rest) = readSlash cs := by
  fun_cases readSlash cs with
  | case1 cs n hn =>
    rw [List.cons_append, readSlash, commentBody?_append_feed rest (by simp [hn]), hn]
  | case2 cs hopen =>
    have hrest : ¬['*', '/'] <:+: rest := by
      intro hclosed
      refine h hclosed ?_
      rw [readSlash, hopen]
    rw [List.cons_append, readSlash, commentBody?_append_feed rest (absurd · hrest), hopen]
  | case3 cs => rw [List.cons_append, readSlash, takeWhile_append_feed (by decide)]
  | case4 cs hstar hslash =>
    rw [readSlash, readMark_append_feed]
    · intro ds hds
      obtain ⟨es, hes⟩ := exists_cons_of_append_feed (by decide) hds
      exact hstar es hes
    · intro ds hds
      obtain ⟨es, hes⟩ := exists_cons_of_append_feed (by decide) hds
      exact hslash es hes

/-- An ordinary lexeme is the same, unless it is a comment that is closed behind the line feed. -/
theorem readPlain_append_feed {c : Char} {cs rest : List Char}
    (h : (readPlain c cs).StaysOpen rest) :
    readPlain c (cs ++ '\n' :: rest) = readPlain c cs := by
  rw [readPlain] at h ⊢
  rw [readPlain]
  split
  · rw [numberMore_append_feed]
    simp only [List.take_append_of_le_length (numberMore_le cs)]
  · next hdigit =>
    split
    · next hquote =>
      rw [quotedBody?_append_feed]
      · rcases hquote with rfl | rfl <;> decide
      · rcases hquote with rfl | rfl <;> decide
    · next hquote =>
      split
      · rw [takeWhile_append_feed (by decide)]
      · next hword =>
        rw [if_neg hdigit, if_neg hquote, if_neg hword] at h
        split
        · next hslash =>
          rw [if_pos hslash] at h
          exact readSlash_append_feed h
        · exact readMark_append_feed c cs rest

/-- The characters of a marker stand in front of the line feed. -/
theorem take_marker_append_feed {words : List (List Char)} {word : List Char} {before : Option Char}
    {cs : List Char} {n : Nat} (hwords : ∀ w ∈ word :: words, w ≠ [])
    (h : marker? (word :: words) before cs = some n) (rest : List Char) :
    (cs ++ '\n' :: rest).take n = cs.take n := by
  obtain ⟨c, front, back, rfl, rfl, _⟩ := exists_of_marker? hwords h
  exact List.take_append_of_le_length (by simp)

/-- A lexeme does not look beyond a line feed, unless it is a comment that is open there. -/
theorem read_append_feed {before : Option Char} {c : Char} {cs rest : List Char}
    (h : (read before c cs).StaysOpen rest) :
    read before c (cs ++ '\n' :: rest) = read before c cs := by
  have hstart : marker? startWords before (c :: (cs ++ '\n' :: rest)) =
      marker? startWords before (c :: cs) := marker?_append_feed (by decide) (c :: cs) rest
  have hfinish : marker? finishWords before (c :: (cs ++ '\n' :: rest)) =
      marker? finishWords before (c :: cs) := marker?_append_feed (by decide) (c :: cs) rest
  rw [read] at h ⊢
  rw [read, hstart, hfinish]
  split
  · next n hn => rw [← List.cons_append, take_marker_append_feed (by decide) hn]
  · next hnone =>
    rw [hnone] at h
    split
    · next n hn => rw [← List.cons_append, take_marker_append_feed (by decide) hn]
    · next hnone' =>
      rw [hnone'] at h
      exact readPlain_append_feed h

theorem read_feed (before : Option Char) (cs : List Char) : read before '\n' cs = ⟨.gap, 0⟩ := by
  rw [read_head]
  · rfl
  · exact fun _ hletter => isLetter_feed hletter

/-- A lexeme does not reach beyond its text. -/
theorem more_le_length (before : Option Char) (c : Char) (cs : List Char) :
    (read before c cs).more ≤ cs.length := by
  obtain ⟨body, rest, rfl, hmore, _⟩ := read_covers before c cs
  rw [hmore, List.length_append]
  exact Nat.le_add_right _ _

end Lexeme

namespace Token

theorem scan_feed (before : Option Char) (p : Position) (cs : List Char) :
    scan 0 before p ('\n' :: cs) = scan 0 (some '\n') (p.after '\n') cs :=
  scan_of_gap (Lexeme.read_feed before cs) p

/-- There is at least the mark of the end. -/
theorem ne_nil_of_scan {inside : Nat} {before : Option Char} {p : Position} {cs : List Char}
    {tokens : List Token} (h : scan inside before p cs = .ok tokens) : tokens ≠ [] := by
  obtain ⟨q, hlast⟩ := getLast?_of_scan h
  rintro rfl
  cases hlast

/-- The tokens in front of a line feed and those behind it are the tokens of the whole text, unless
a comment goes from one part to the other. -/
theorem scan_append_feed {inside : Nat} {before : Option Char} {p : Position}
    {cs rest : List Char} (hinside : inside ≤ cs.length)
    (h : ['*', '/'] <:+: rest → ∃ tokens, scan inside before p cs = .ok tokens) :
    scan inside before p (cs ++ '\n' :: rest) =
      (scan inside before p cs).bind fun tokens =>
        (scan 0 (some '\n') ((p.afterAll cs).after '\n') rest).map (tokens.dropLast ++ ·) := by
  induction cs generalizing inside before p with
  | nil =>
    obtain rfl := Nat.le_zero.1 hinside
    rw [List.nil_append, scan_feed]
    show scan 0 _ (p.after '\n') rest = (scan 0 _ (p.after '\n') rest).map id
    cases scan 0 (some '\n') (p.after '\n') rest <;> rfl
  | cons c cs ih =>
    cases inside with
    | succ inside => exact ih (Nat.le_of_succ_le_succ hinside) h
    | zero =>
      obtain ⟨⟨lexeme, more⟩, hread⟩ : ∃ e, Lexeme.read before c cs = e := ⟨_, rfl⟩
      have hmore : more ≤ cs.length := by
        have hle := Lexeme.more_le_length before c cs
        rwa [hread] at hle
      have hread' : Lexeme.read before c (cs ++ '\n' :: rest) = ⟨lexeme, more⟩ := by
        rw [Lexeme.read_append_feed, hread]
        -- a comment that the rest could close would be a fault of the part in front
        rintro hclosed hfault
        obtain ⟨tokens, htokens⟩ := h hclosed
        rw [hread] at hfault
        obtain rfl : lexeme = _ := hfault
        rw [scan_of_fault hread] at htokens
        cases htokens
      rw [List.cons_append]
      cases lexeme with
      | fault cause =>
        rw [scan_of_fault hread', scan_of_fault hread]
        rfl
      | gap =>
        rw [scan_of_gap hread] at h ⊢
        rw [scan_of_gap hread']
        exact ih hmore h
      | token kind value =>
        rw [scan_of_token hread] at h ⊢
        rw [scan_of_token hread', ih hmore]
        · cases hts : scan more (some c) (p.after c) cs with
          | error e => rfl
          | ok ts =>
            show ((scan 0 _ _ rest).map _).map _ = (scan 0 _ _ rest).map _
            rw [List.dropLast_cons_of_ne_nil (ne_nil_of_scan hts)]
            show ((scan 0 _ (((p.after c).afterAll cs).after '\n') rest).map _).map _ =
              (scan 0 _ (((p.after c).afterAll cs).after '\n') rest).map _
            cases scan 0 (some '\n') (((p.after c).afterAll cs).after '\n') rest <;> rfl
        · intro hclosed
          obtain ⟨tokens, htokens⟩ := h hclosed
          obtain ⟨ts, hts, _⟩ := exists_of_map_eq_ok htokens
          exact ⟨ts, hts⟩

/-- A text that has tokens leaves no comment open. -/
theorem scan_append_feed_of_ok {before : Option Char} {p q : Position} {cs : List Char}
    {ts : List Token} (h : scan 0 before p cs = .ok (ts ++ [endAt q])) (rest : List Char) :
    scan 0 before p (cs ++ '\n' :: rest) =
      (scan 0 (some '\n') ((p.afterAll cs).after '\n') rest).map (ts ++ ·) := by
  rw [scan_append_feed (Nat.zero_le _) fun _ => ⟨_, h⟩, h]
  show (scan 0 _ _ rest).map _ = _
  rw [List.dropLast_concat]

end Token

end Boli
