import Boli.Proofs.Lexemes

/-!
# What a lexeme is made of

`Lexeme.read` says how far a lexeme reaches.  Here is what stands in that stretch: the characters of
a token, or one blank or comment.  A fault comes up only where the text goes on in a way that no
token does.

* `Means` relates the inside of a quoted text to its meaning.
* `Kind.Writes` says that some characters are a token of a kind with a value.
* `Separator` says that some characters are one blank or one whole comment.
* `LexFault.Offends` says what is wrong with a text.
* `Lexeme.read_covers` is the result, and `Token.scan_of_token` with its like is the step of a scan
  for each lexeme.
-/

namespace Boli

open Boli.Text

/-- Inside the given quotes, the first characters stand for the second.  There is no line feed, and
no quote but behind a backslash. -/
inductive Means (quote : Char) : List Char → List Char → Prop where
  | nothing : Means quote [] []
  | escaped : c ≠ '\n' → Means quote cs ds → Means quote ('\\' :: c :: cs) (Lexeme.unescape c :: ds)
  | plain : c ≠ quote → c ≠ '\\' → c ≠ '\n' → Means quote cs ds → Means quote (c :: cs) (c :: ds)

/-- A token of the kind that stands for `value` is written with the characters `cs`: with the value
itself, except that a text is quoted.  A marker is made of its words. -/
def Kind.Writes (kind : Kind) (value cs : List Char) : Prop :=
  match kind with
  | .text =>
    ∃ quote body, (quote = '"' ∨ quote = '\'') ∧ Means quote body value ∧
      cs = quote :: (body ++ [quote])
  | .start => cs = value ∧ Lexeme.afterWords? Lexeme.startWords cs = some []
  | .finish => cs = value ∧ Lexeme.afterWords? Lexeme.finishWords cs = some []
  | _ => cs = value

/-- The characters are one blank, or one comment that is complete when `rest` follows. -/
inductive Separator : List Char → List Char → Prop where
  | blank : c = ' ' ∨ c = '\t' ∨ c = '\r' ∨ c = '\n' → Separator [c] rest
  | line : '\n' ∉ body → (∀ c ∈ rest.head?, c = '\n') → Separator ('/' :: '/' :: body) rest
  | block : ¬['*', '/'] <:+: body ++ ['*'] → Separator ('/' :: '*' :: (body ++ ['*', '/'])) rest

/-- What is wrong with a text that no token starts. -/
def LexFault.Offends : LexFault → List Char → Prop
  | unterminatedComment, cs => ∃ body, cs = '/' :: '*' :: body ∧ ¬['*', '/'] <:+: body
  | unterminatedText, cs =>
    ∃ quote body, (quote = '"' ∨ quote = '\'') ∧ cs = quote :: body ∧
      ∀ inside meaning rest, Means quote inside meaning → body ≠ inside ++ quote :: rest
  | unexpected c, cs =>
    ∃ rest, cs = c :: rest ∧ isDigit c = false ∧ Lexeme.startsWord c = false ∧
      c ∉ ['"', '\'', ' ', '\t', '\r', '\n'] ∧ Symbol.ofChars? c rest.head? = none

/-- What a lexeme says of its characters, when `rest` follows them. -/
def Lexeme.Describes (cs rest : List Char) : Lexeme → Prop
  | token kind value => kind.Writes value cs
  | gap => Separator cs rest
  | fault cause => cause.Offends (cs ++ rest)

/-- The extent covers the head of the text `c :: cs`, and its lexeme says what stands there. -/
def Extent.Covers (e : Extent) (c : Char) (cs : List Char) : Prop :=
  ∃ body rest, cs = body ++ rest ∧ e.more = body.length ∧ e.lexeme.Describes (c :: body) rest

namespace Lexeme

/-! ## Markers -/

/-- What follows a word does not matter to the word. -/
theorem exists_of_afterWord? {word cs rest : List Char} (h : afterWord? word cs = some rest) :
    ∃ front, cs = front ++ rest ∧ ∀ other, afterWord? word (front ++ other) = some other := by
  induction word generalizing cs with
  | nil =>
    cases h
    exact ⟨[], rfl, fun _ => rfl⟩
  | cons letter word ih =>
    cases cs with
    | nil => cases h
    | cons c cs =>
      rw [afterWord?] at h
      split at h
      · next hc =>
        obtain ⟨front, rfl, hfront⟩ := ih h
        refine ⟨c :: front, rfl, fun other => ?_⟩
        rw [List.cons_append, afterWord?, if_pos hc, hfront]
      · cases h

/-- No marker is found in an empty text. -/
theorem afterWords?_nil {word : List Char} {words : List (List Char)} (h : word ≠ []) :
    afterWords? (word :: words) [] = none := by
  cases word with
  | nil => exact absurd rfl h
  | cons letter word => cases words <;> rfl

/-- What follows the words of a marker does not matter to the marker. -/
theorem exists_of_afterWords? {words : List (List Char)} {cs rest : List Char}
    (hwords : ∀ word ∈ words, word ≠ []) (h : afterWords? words cs = some rest) :
    ∃ front, cs = front ++ rest ∧ ∀ other, afterWords? words (front ++ other) = some other := by
  fun_induction afterWords? words cs with
  | case1 cs =>
    cases h
    exact ⟨[], rfl, fun _ => rfl⟩
  | case2 word cs => exact exists_of_afterWord? h
  | case3 cs word words hmore c rest' hword hc ih =>
    obtain ⟨front, rfl, hfront⟩ := exists_of_afterWord? hword
    obtain ⟨back, hback, hother⟩ := ih (fun w hw => hwords w (.tail _ hw)) h
    obtain ⟨second, words, rfl⟩ := List.exists_cons_of_ne_nil hmore
    have hd := List.head?_dropWhile_not isSpace rest'
    -- the next word is not empty, so the blanks in front of it end whatever follows
    cases back with
    | nil =>
      have hnil := hother []
      rw [List.append_nil, afterWords?_nil (hwords second (by simp))] at hnil
      cases hnil
    | cons d back =>
      rw [hback] at hd
      have hsplit : rest' = rest'.takeWhile isSpace ++ (d :: back ++ rest) := by
        rw [← hback, List.takeWhile_append_dropWhile]
      refine ⟨front ++ c :: (rest'.takeWhile isSpace ++ d :: back), ?_, fun other => ?_⟩
      · nth_rewrite 1 [hsplit]
        simp
      · simp only [List.append_assoc, List.cons_append, afterWords?, hfront, hc, if_true]
        rw [List.dropWhile_append_of_pos (fun _ => List.mem_takeWhile_imp),
          List.dropWhile_cons_of_neg (by simpa using hd)]
        exact hother other
  | case4 => cases h
  | case5 => cases h

/-- A marker stands at the head of its text. -/
theorem exists_of_marker? {word : List Char} {words : List (List Char)} {before : Option Char}
    {cs : List Char} {n : Nat} (hwords : ∀ w ∈ word :: words, w ≠ [])
    (h : marker? (word :: words) before cs = some n) :
    ∃ c front rest, cs = c :: (front ++ rest) ∧ n = front.length + 1 ∧
      afterWords? (word :: words) (c :: front) = some [] := by
  rw [marker?] at h
  split at h
  · cases h
  · split at h
    · next rest hrest =>
      split at h
      · cases h
      · cases h
        obtain ⟨front, rfl, hfront⟩ := exists_of_afterWords? hwords hrest
        have hnil := hfront []
        rw [List.append_nil] at hnil
        cases front with
        | nil =>
          rw [afterWords?_nil (hwords word (by simp))] at hnil
          cases hnil
        | cons c front =>
          refine ⟨c, front, rest, rfl, ?_, hnil⟩
          rw [List.length_append, Nat.add_sub_cancel, List.length_cons]
    · cases h

/-! ## Numbers, texts and comments -/

/-- A number does not reach beyond the text. -/
theorem numberMore_le (cs : List Char) : numberMore cs ≤ cs.length := by
  have hwhole := (List.takeWhile_prefix (l := cs) isDigit).length_le
  rw [numberMore]
  split
  · next fraction hpoint =>
    split
    · exact hwhole
    · next n hn =>
      have hfraction := (List.takeWhile_prefix (l := fraction) isDigit).length_le
      have hlength := congrArg List.length hpoint
      rw [List.length_drop, List.length_cons] at hlength
      omega
  · exact hwhole

/-- A quoted text reaches up to the first quote that is not behind a backslash. -/
theorem means_of_quotedBody? {quote : Char} {cs body : List Char} {n : Nat}
    (h : quotedBody? quote cs = some (body, n)) :
    ∃ inside rest, cs = inside ++ quote :: rest ∧ inside.length + 1 = n ∧
      Means quote inside body := by
  fun_induction quotedBody? quote cs generalizing body n with
  | case1 => cases h
  | case2 => cases h
  | case3 c cs hc ih =>
    obtain ⟨⟨body, n⟩, hbody, heq⟩ := Option.map_eq_some_iff.1 h
    cases heq
    obtain ⟨inside, rest, rfl, rfl, hinside⟩ := ih hbody
    exact ⟨'\\' :: c :: inside, rest, rfl, rfl, .escaped hc hinside⟩
  | case4 cs =>
    cases h
    exact ⟨[], cs, rfl, rfl, .nothing⟩
  | case5 => cases h
  | case6 c cs _ hquote hc ih =>
    obtain ⟨⟨body, n⟩, hbody, heq⟩ := Option.map_eq_some_iff.1 h
    cases heq
    obtain ⟨inside, rest, rfl, rfl, hinside⟩ := ih hbody
    rw [not_or] at hc
    exact ⟨c :: inside, rest, rfl, rfl, .plain hquote hc.2 hc.1 hinside⟩

/-- A quoted text is read up to its quote, whatever follows. -/
theorem quotedBody?_of_means {quote : Char} {inside body : List Char} (hquote : quote ≠ '\\')
    (h : Means quote inside body) (rest : List Char) :
    quotedBody? quote (inside ++ quote :: rest) = some (body, inside.length + 1) := by
  induction h with
  | nothing =>
    rw [List.nil_append, quotedBody?]
    · exact if_pos rfl
    · exact fun _ _ heq => absurd heq hquote
  | escaped hc _ ih =>
    rw [List.cons_append, List.cons_append, quotedBody?, if_neg hc, ih]
    rfl
  | plain hc hbackslash hfeed _ ih =>
    rw [List.cons_append, quotedBody?]
    · rw [if_neg hc, if_neg (not_or.2 ⟨hfeed, hbackslash⟩), ih]
      rfl
    · exact fun _ _ heq => absurd heq hbackslash

/-- A comment reaches up to the first mark that closes it. -/
theorem closed_of_commentBody? {cs : List Char} {n : Nat} (h : commentBody? cs = some n) :
    ∃ body rest, cs = body ++ '*' :: '/' :: rest ∧ body.length + 2 = n ∧
      ¬['*', '/'] <:+: body ++ ['*'] := by
  fun_induction commentBody? cs generalizing n with
  | case1 rest =>
    cases h
    exact ⟨[], rest, rfl, rfl, by decide⟩
  | case2 c cs hopen ih =>
    obtain ⟨n, hn, rfl⟩ := Option.map_eq_some_iff.1 h
    obtain ⟨body, rest, rfl, rfl, hbody⟩ := ih hn
    refine ⟨c :: body, rest, rfl, rfl, ?_⟩
    rw [List.cons_append, List.infix_cons_iff, not_or]
    refine ⟨fun hstart => ?_, hbody⟩
    obtain ⟨rfl, ds, hds⟩ := List.cons_prefix_cons.1 hstart
    cases body with
    | nil => cases hds
    | cons d body =>
      cases hds
      exact hopen _ rfl rfl
  | case3 => cases h

/-- A comment is open if no mark closes it. -/
theorem commentBody?_eq_none_iff {cs : List Char} :
    commentBody? cs = none ↔ ¬['*', '/'] <:+: cs := by
  fun_induction commentBody? cs with
  | case1 rest =>
    refine iff_of_false (by simp) (not_not.2 ⟨[], rest, rfl⟩)
  | case2 c cs hopen ih =>
    rw [Option.map_eq_none_iff, ih, List.infix_cons_iff, not_or, iff_and_self]
    intro _ hstart
    obtain ⟨rfl, ds, rfl⟩ := List.cons_prefix_cons.1 hstart
    exact hopen ds rfl rfl
  | case3 => exact iff_of_true rfl (by decide)

/-! ## Symbols, blanks and the rest -/

/-- A symbol takes one or two characters. -/
theorem spelling_of_ofChars? {c : Char} {next : Option Char} {symbol : Symbol}
    (h : Symbol.ofChars? c next = some symbol) :
    symbol.spelling.toList = [c] ∨ ∃ d, next = some d ∧ symbol.spelling.toList = [c, d] := by
  unfold Symbol.ofChars? at h
  split at h
  iterate 4
    · cases h
      exact .inr ⟨'=', rfl, rfl⟩
  all_goals cases h
  all_goals exact .inl rfl

/-- A sign, a blank or a character that starts nothing. -/
theorem readMark_covers {c : Char} {cs : List Char} (hdigit : ¬isDigit c)
    (hquote : ¬(c = '"' ∨ c = '\'')) (hword : ¬startsWord c) : (readMark c cs).Covers c cs := by
  rw [readMark]
  split
  · next symbol hsymbol =>
    rcases spelling_of_ofChars? hsymbol with hone | ⟨d, hd, htwo⟩
    · refine ⟨[], cs, rfl, ?_, hone.symm⟩
      rw [← String.length_toList, hone]
      rfl
    · obtain ⟨cs, rfl⟩ := List.head?_eq_some_iff.1 hd
      refine ⟨[d], cs, rfl, ?_, htwo.symm⟩
      rw [← String.length_toList, htwo]
      rfl
  · next hsymbol =>
    split
    · next hblank =>
      refine ⟨[], cs, rfl, rfl, .blank ?_⟩
      simp only [isSpace, Bool.or_eq_true, beq_iff_eq] at hblank
      tauto
    · next hblank =>
      refine ⟨[], cs, rfl, rfl, cs, rfl, by simpa using hdigit, by simpa using hword, ?_, hsymbol⟩
      simp only [isSpace, Bool.or_eq_true, beq_iff_eq] at hblank
      simp only [List.mem_cons, List.not_mem_nil, or_false]
      tauto

/-- A comment, or the sign of division. -/
theorem readSlash_covers (cs : List Char) : (readSlash cs).Covers '/' cs := by
  unfold readSlash
  split
  · next rest =>
    split
    · next n hn =>
      obtain ⟨body, rest, rfl, rfl, hbody⟩ := closed_of_commentBody? hn
      refine ⟨'*' :: (body ++ ['*', '/']), rest, by simp, by simp, .block hbody⟩
    · next hopen => exact ⟨[], _, rfl, rfl, rest, rfl, commentBody?_eq_none_iff.1 hopen⟩
  · next rest =>
    refine ⟨'/' :: rest.takeWhile (· ≠ '\n'), rest.dropWhile (· ≠ '\n'), ?_, ?_, .line ?_ ?_⟩
    · rw [List.cons_append, List.takeWhile_append_dropWhile]
    · exact Nat.add_comm _ _
    · intro hfeed
      simpa using List.mem_takeWhile_imp hfeed
    · intro c hc
      have hhead := List.head?_dropWhile_not (· ≠ '\n') rest
      rw [Option.mem_def.1 hc] at hhead
      simpa using hhead
  · exact readMark_covers (by decide) (by decide) (by decide)

/-- The first character tells which lexeme it is. -/
theorem readPlain_covers (c : Char) (cs : List Char) : (readPlain c cs).Covers c cs := by
  rw [readPlain]
  split
  · refine ⟨cs.take (numberMore cs), cs.drop (numberMore cs), ?_, ?_, rfl⟩
    · exact (List.take_append_drop _ _).symm
    · rw [List.length_take_of_le (numberMore_le cs)]
  · next hdigit =>
    split
    · next hquote =>
      split
      · next body n hbody =>
        obtain ⟨inside, rest, rfl, rfl, hinside⟩ := means_of_quotedBody? hbody
        exact ⟨inside ++ [c], rest, by simp, by simp, c, inside, hquote, hinside, rfl⟩
      · next hopen =>
        refine ⟨[], cs, rfl, rfl, c, cs, hquote, rfl, ?_⟩
        rintro inside meaning rest hinside rfl
        rw [quotedBody?_of_means (by rcases hquote with rfl | rfl <;> decide) hinside] at hopen
        cases hopen
    · next hquote =>
      split
      · refine ⟨cs.takeWhile continuesWord, cs.dropWhile continuesWord, ?_, rfl, ?_⟩
        · exact List.takeWhile_append_dropWhile.symm
        · show (wordKind _).Writes _ _
          rw [wordKind]
          split <;> rfl
      · next hword =>
        split
        · next hslash =>
          subst hslash
          exact readSlash_covers cs
        · exact readMark_covers hdigit hquote hword

/-- A marker covers its words and the spaces between them. -/
theorem covers_of_marker? {word : List Char} {words : List (List Char)} {before : Option Char}
    {c : Char} {cs : List Char} {n : Nat} (hwords : ∀ w ∈ word :: words, w ≠ [])
    (h : marker? (word :: words) before (c :: cs) = some n) {kind : Kind}
    (hkind : ∀ front, afterWords? (word :: words) front = some [] → kind.Writes front front) :
    Extent.Covers ⟨.token kind ((c :: cs).take n), n - 1⟩ c cs := by
  obtain ⟨c', front, rest, hcs, rfl, hfront⟩ := exists_of_marker? hwords h
  obtain ⟨rfl, rfl⟩ := List.cons.inj hcs
  refine ⟨front, rest, rfl, rfl, ?_⟩
  show kind.Writes _ _
  rw [List.take_succ_cons, List.take_left]
  exact hkind _ hfront

/-- The lexeme that is read covers the head of the text. -/
theorem read_covers (before : Option Char) (c : Char) (cs : List Char) :
    (read before c cs).Covers c cs := by
  rw [read]
  split
  · next n hn => exact covers_of_marker? (by decide) hn fun _ hfront => ⟨rfl, hfront⟩
  · split
    · next n hn => exact covers_of_marker? (by decide) hn fun _ hfront => ⟨rfl, hfront⟩
    · exact readPlain_covers c cs

end Lexeme

namespace Token

/-! ## One step of a scan -/

variable {before : Option Char} {c : Char} {cs : List Char} {more : Nat}

/-- A fault ends the scan. -/
theorem scan_of_fault {cause : LexFault} (h : Lexeme.read before c cs = ⟨.fault cause, more⟩)
    (p : Position) : scan 0 before p (c :: cs) = .error ⟨cause, p⟩ := by
  rw [scan, h]

/-- A gap is passed without a token. -/
theorem scan_of_gap (h : Lexeme.read before c cs = ⟨.gap, more⟩) (p : Position) :
    scan 0 before p (c :: cs) = scan more (some c) (p.after c) cs := by
  rw [scan, h]

/-- A token goes in front of those behind its characters. -/
theorem scan_of_token {kind : Kind} {value : List Char}
    (h : Lexeme.read before c cs = ⟨.token kind value, more⟩) (p : Position) :
    scan 0 before p (c :: cs) =
      (scan more (some c) (p.after c) cs).map (⟨kind, String.ofList value, p⟩ :: ·) := by
  rw [scan, h]

theorem exists_of_map_eq_ok {outcome : Except LexError (List Token)} {t : Token}
    {tokens : List Token} (h : outcome.map (t :: ·) = .ok tokens) :
    ∃ ts, outcome = .ok ts ∧ t :: ts = tokens := by
  cases outcome with
  | error e => cases h
  | ok ts => exact ⟨ts, rfl, Except.ok.inj h⟩

end Token

end Boli
