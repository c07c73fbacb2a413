import Boli.Proofs.LooseEquality
import Boli.Proofs.Quotients
import Boli.Proofs.ReadingBack
import Boli.Proofs.WellFormedness
import Boli.Proofs.Extents

/-!
# Numbers in texts and in programs

A number is read in two places, as the text of a value and as a literal of a program, by rules of
their own.  A text value may have white space around it, a sign, and a point without digits on one
side.  For the rest the two agree: what is a literal is a number as a text value, and the same one
(`Numeral.readers_agree`).

* `Token.IsNumeral` says that a text is that of a number token.
* `Text.Padded` says that a text is another one with white space around it.
-/

namespace Boli

open Boli.Text

/-! ## White space -/

namespace Text

/-- The text is `core` with white space on either side. -/
def Padded (core text : List Char) : Prop :=
  ∃ front back, text = front ++ (core ++ back) ∧ front.all isBlank ∧ back.all isBlank

theorem trimLeft_append {front : List Char} (h : front.all isBlank) (cs : List Char) :
    trimLeft (front ++ cs) = trimLeft cs :=
  List.dropWhile_append_of_pos (by simpa using h)

/-- A text is what is left of it after trimming, with white space around it. -/
theorem padded_trim (cs : List Char) : Padded (trim cs) cs := by
  have hleft (ds : List Char) : ds = ds.takeWhile isBlank ++ trimLeft ds :=
    List.takeWhile_append_dropWhile.symm
  refine ⟨cs.takeWhile isBlank, ((trimLeft cs).reverse.takeWhile isBlank).reverse, ?_,
    List.all_takeWhile, by rw [List.all_reverse]; exact List.all_takeWhile⟩
  rw [trim, ← List.reverse_append, ← hleft, List.reverse_reverse]
  exact hleft cs

/-- Trimming finds a core without white space. -/
theorem Padded.trim_eq {core text : List Char} (h : Padded core text)
    (hcore : ∀ c ∈ core, isBlank c = false) : trim text = core := by
  obtain ⟨front, back, rfl, hfront, hback⟩ := h
  rw [trim, trimLeft_append hfront]
  cases core with
  | nil =>
    have hnil := trimLeft_append hback []
    rw [List.append_nil] at hnil
    rw [List.nil_append, hnil]
    rfl
  | cons c cs =>
    have hreverse := trim_of_forall hcore
    rw [trim, trimLeft_of_head cs (hcore c List.mem_cons_self)] at hreverse
    rw [List.cons_append, trimLeft_of_head _ (hcore c List.mem_cons_self), ← List.cons_append,
      List.reverse_append, trimLeft_append (by rwa [List.all_reverse]), hreverse]

end Text

/-! ## Literals -/

namespace Token

/-- The text is that of a number token in some source text. -/
def IsNumeral (n : String) : Prop :=
  ∃ text tokens t, ofText text = .ok tokens ∧ t ∈ tokens ∧ t.kind = .number ∧ t.value = n

/-- The number tokens are the texts of the form of a number. -/
theorem isNumeral_iff {n : String} : IsNumeral n ↔ Lexeme.isNumber n.toList := by
  constructor
  · rintro ⟨text, tokens, t, hscan, ht, hkind, rfl⟩
    obtain ⟨ts, q, rfl, hfits⟩ := fits_of_scan hscan
    rcases List.mem_append.1 ht with ht | ht
    · exact (hfits t ht).isNumber hkind
    · obtain rfl := List.mem_singleton.1 ht
      cases hkind
  · intro h
    obtain ⟨q, hq⟩ := ofText_of_isNumber h
    rw [String.ofList_toList] at hq
    exact ⟨n, _, _, hq, List.mem_cons_self, rfl, rfl⟩

/-- A text between quotes that has nothing to escape is one token. -/
theorem ofText_quoted {quote : Char} (hquote : quote = '"' ∨ quote = '\'') {cs : List Char}
    (h : ∀ c ∈ cs, c ≠ quote ∧ c ≠ '\\' ∧ c ≠ '\n') :
    ∃ q, ofText (String.ofList (quote :: (cs ++ [quote]))) =
      .ok [⟨.text, String.ofList cs, .first⟩, endAt q] := by
  have hmeans : Means quote cs cs := by
    induction cs with
    | nil => exact .nothing
    | cons c cs ih =>
      obtain ⟨hc, hbackslash, hfeed⟩ := h c List.mem_cons_self
      exact .plain hc hbackslash hfeed (ih fun d hd => h d (List.mem_cons_of_mem c hd))
  have hread : Lexeme.read none quote (cs ++ [quote]) = ⟨.token .text cs, cs.length + 1⟩ := by
    have hbody := Lexeme.quotedBody?_of_means (by rcases hquote with rfl | rfl <;> decide) hmeans []
    rw [Lexeme.read_head, Lexeme.readPlain, if_neg, if_pos hquote, hbody]
    · rcases hquote with rfl | rfl <;> decide
    · intro letter hletter
      exact Lexeme.isLetter_eq_false hletter (by rcases hquote with rfl | rfl <;> decide)
  have hrest := scan_inside (cs ++ [quote]) (some quote) (Position.first.after quote) []
  rw [List.append_nil, List.length_append, List.length_singleton] at hrest
  refine ⟨(Position.first.after quote).afterAll (cs ++ [quote]), ?_⟩
  rw [ofText, String.toList_ofList, scan, hread]
  simp only [hrest]
  rfl

end Token

namespace Parser

open Grammar

/-- A text that is one token is read as the primary that the token is. -/
theorem ofText_of_primary {text : String} {t : Token} {q : Position} {e : Expr}
    (htext : Token.ofText text = .ok [t, Token.endAt q]) (he : Derives (.expr .primary e) [t]) :
    (alone expression).ofText text = .ok e := by
  have hpass : Cursor.Passes ⟨[], t, [Token.endAt q], 1, rfl⟩ [t] ⟨[t], Token.endAt q, [], 0, rfl⟩ :=
    ⟨rfl, rfl⟩
  have hstop : Rank.loosest.Stops .eof :=
    ⟨by simp, fun _ => by simp, fun level _ => by cases level <;> rfl⟩
  have hread := expression_reads (he.loosen (Nat.zero_le _)) hpass hstop
  have halone : alone expression ⟨[], t, [Token.endAt q], 1, rfl⟩ =
      .ok e ⟨[t], Token.endAt q, [], 0, rfl⟩ := by
    rw [alone, bind_of_ok hread]
    rfl
  have hcursor : Cursor.ofTokens? [t, Token.endAt q] = some ⟨[], t, [Token.endAt q], 1, rfl⟩ := rfl
  simp only [ofText, htext, ofTokens, hcursor, halone]

end Parser

/-! ## Numbers in text values -/

namespace Numeral

/-- The signs that a number in a text value may have. -/
def signs : List (List Char) := [[], ['+'], ['-']]

/-- The text is a number with digits on one side of its point only. -/
def HalfPointed (cs : List Char) : Prop :=
  ∃ digits, digits ≠ [] ∧ digits.all isDigit ∧ (cs = digits ++ ['.'] ∨ cs = '.' :: digits)

/-- Text values may leave out the digits on one side of the point. -/
theorem isSome_readUnsigned?_iff (cs : List Char) :
    (readUnsigned? cs).isSome ↔ Lexeme.isNumber cs ∨ HalfPointed cs := by
  constructor
  · intro h
    have hsplit : cs = cs.takeWhile isDigit ++ cs.dropWhile isDigit :=
      List.takeWhile_append_dropWhile.symm
    have hwhole : (cs.takeWhile isDigit).all isDigit := List.all_takeWhile
    simp only [readUnsigned?] at h
    rw [hsplit]
    generalize cs.takeWhile isDigit = whole at *
    split at h
    · next hrest =>
      rw [hrest, List.append_nil]
      refine .inl (Lexeme.isNumber_whole ?_ hwhole)
      rintro rfl
      cases h
    · next fraction hrest =>
      rw [hrest]
      split at h
      · next hdigits =>
        simp only [Bool.and_eq_true, Bool.not_eq_true', Bool.and_eq_false_iff,
          List.isEmpty_eq_false_iff] at hdigits
        obtain ⟨hfraction, hne⟩ := hdigits
        by_cases hwhole' : whole = []
        · subst hwhole'
          exact .inr ⟨fraction, hne.resolve_left (by simp), hfraction, .inr rfl⟩
        · by_cases hfraction' : fraction = []
          · subst hfraction'
            exact .inr ⟨whole, hwhole', hwhole, .inl rfl⟩
          · exact .inl (Lexeme.isNumber_fraction hwhole' hwhole hfraction' hfraction)
      · cases h
    · cases h
  · rintro (h | ⟨digits, hne, hdigits, rfl | rfl⟩)
    · exact isSome_readUnsigned? h
    · rw [readUnsigned?_fraction hne hdigits rfl]
      rfl
    · have htake : ('.' :: digits).takeWhile isDigit = [] := rfl
      have hdrop : ('.' :: digits).dropWhile isDigit = '.' :: digits := rfl
      simp [readUnsigned?, htake, hdrop, hne, hdigits]

/-- A sign in front of a number is its sign as a double. -/
theorem readSigned?_sign {sign : List Char} (hsign : sign ∈ signs) {cs : List Char} {d : Decimal}
    (h : readUnsigned? cs = some d) :
    readSigned? (sign ++ cs) = some (d.toDouble (sign = ['-'])) := by
  simp only [signs, List.mem_cons, List.not_mem_nil, or_false] at hsign
  rcases hsign with rfl | rfl | rfl
  · exact readSigned?_signed h false
  · change (readUnsigned? cs).map _ = _
    rw [h]
    rfl
  · exact readSigned?_signed h true

/-- A number in a text has at most one sign in front of it. -/
theorem exists_of_readSigned? {cs : List Char} (h : (readSigned? cs).isSome) :
    ∃ sign ∈ signs, ∃ rest, cs = sign ++ rest ∧ (readUnsigned? rest).isSome := by
  unfold readSigned? at h
  split at h
  · next rest => exact ⟨['-'], by simp [signs], rest, rfl, by rwa [Option.isSome_map] at h⟩
  · next rest => exact ⟨['+'], by simp [signs], rest, rfl, by rwa [Option.isSome_map] at h⟩
  · exact ⟨[], by simp [signs], cs, rfl, by rwa [Option.isSome_map] at h⟩

/-- The negative double is the other one turned around. -/
theorem toDouble_eq (negative : Bool) (d : Decimal) :
    d.toDouble negative = if negative then -d.toDouble false else d.toDouble false := by
  cases negative with
  | true => exact (Double.neg_ofOrdinal (Double.nearest_le_infinite _ _)).symm
  | false => rfl

theorem toDouble_beq_self (d : Decimal) : d.toDouble false == d.toDouble false := by
  have hle : d.ordinal ≤ Double.infinite := Double.nearest_le_infinite _ _
  rw [Decimal.toDouble, Float.beq_self_iff, Ne, ← decide_eq_true_iff (p := _ = Float.nan),
    ← Float.isNaN_eq_decide_eq_nan, Double.isNaN_iff, Double.magnitude_ofOrdinal false hle]
  exact Nat.not_lt.2 hle

/-- A number equals every text that holds it. -/
theorem looselyEquals?_of_ofText? {s : String} {x : Float} (h : ofText? s = some x)
    (hx : x == x) : (Value.number x).looselyEquals? (.text s) = some true ∧
      (Value.text s).looselyEquals? (.number x) = some true :=
  ⟨Value.looselyEquals?_eq_true_iff.2 ⟨⟨rfl, rfl⟩, .amount (.inl rfl) rfl h hx⟩,
    Value.looselyEquals?_eq_true_iff.2 ⟨⟨rfl, rfl⟩, .amount (.inr rfl) h rfl hx⟩⟩

/-- A text that holds a number counts as that number when texts are coerced. -/
theorem coerced_of_ofText? {s : String} {x : Float} (h : ofText? s = some x) :
    (Value.text s).coerced true = .number x := by
  simp only [Value.coerced, h]
  rfl

/-- No character of a number is white space. -/
theorem isBlank_eq_false {sign : List Char} (hsign : sign ∈ signs) {cs : List Char}
    (h : (readUnsigned? cs).isSome) : ∀ c ∈ sign ++ cs, isBlank c = false := by
  obtain ⟨d, hd⟩ := Option.isSome_iff_exists.1 h
  intro c hc
  rcases List.mem_append.1 hc with hc | hc
  · simp only [signs, List.mem_cons, List.not_mem_nil, or_false] at hsign
    rcases hsign with rfl | rfl | rfl
    · cases hc
    · rw [List.mem_singleton.1 hc]
      decide
    · rw [List.mem_singleton.1 hc]
      decide
  · rcases isDigit_or_eq_point hd c hc with hdigit | rfl
    · exact isBlank_of_isDigit hdigit
    · decide

/-- White space around a signed number does not matter. -/
theorem ofText?_of_padded {s : String} {sign cs : List Char} {d : Decimal} (hsign : sign ∈ signs)
    (hread : readUnsigned? cs = some d) (hpadded : Padded (sign ++ cs) s.toList) :
    ofText? s = some (d.toDouble (sign = ['-'])) := by
  rw [ofText?, hpadded.trim_eq (isBlank_eq_false hsign (by simp [hread])),
    readSigned?_sign hsign hread]

/-- The text is read as a literal of the number. -/
def LiteralOf (n : String) (x : Float) : Prop :=
  (Parser.alone Parser.expression).ofText n = .ok (.literal (some 1) (.number x) n)

/-- A literal is the same number as a text value, and with the sign that stands in front of it. -/
theorem exists_literalOf {n : String} (h : Token.IsNumeral n) :
    ∃ x, LiteralOf n x ∧ x == x ∧ ∀ sign ∈ signs, ∀ s : String,
      Padded (sign ++ n.toList) s.toList →
        ofText? s = some (if sign = ['-'] then -x else x) := by
  rw [Token.isNumeral_iff] at h
  obtain ⟨d, hd⟩ := Option.isSome_iff_exists.1 (isSome_readUnsigned? h)
  obtain ⟨q, hq⟩ := Token.ofText_of_isNumber h
  rw [String.ofList_toList] at hq
  refine ⟨d.toDouble false, Parser.ofText_of_primary hq
    (.number (t := ⟨.number, n, .first⟩) rfl ?_), toDouble_beq_self d, ?_⟩
  · simp only [ofLexeme?, hd]
  · intro sign hsign s hpadded
    rw [ofText?_of_padded hsign hd hpadded, toDouble_eq]
    simp only [decide_eq_true_eq]

/-- A literal between quotes is read as a text value. -/
theorem ofText_quoted_numeral {n : String} (h : Token.IsNumeral n) {quote : Char}
    (hquote : quote = '"' ∨ quote = '\'') :
    (Parser.alone Parser.expression).ofText (String.ofList (quote :: (n.toList ++ [quote]))) =
      .ok (.literal (some 1) (.text n) n) := by
  have hspecial {c : Char} (hc : c = quote ∨ c = '\\' ∨ c = '\n') : ¬(isDigit c ∨ c = '.') := by
    rcases hc with rfl | rfl | rfl
    · rcases hquote with rfl | rfl <;> decide
    · decide
    · decide
  have hplain : ∀ c ∈ n.toList, c ≠ quote ∧ c ≠ '\\' ∧ c ≠ '\n' := by
    intro c hc
    have hchar := Lexeme.isNumber_chars (Token.isNumeral_iff.1 h) c hc
    exact ⟨fun heq => hspecial (.inl heq) hchar, fun heq => hspecial (.inr (.inl heq)) hchar,
      fun heq => hspecial (.inr (.inr heq)) hchar⟩
  obtain ⟨q, hq⟩ := Token.ofText_quoted hquote hplain
  rw [String.ofList_toList] at hq
  exact Parser.ofText_of_primary hq (.text (t := ⟨.text, n, .first⟩) rfl)

/-- A text value is a number exactly if it is a numeral, or one with a bare point on one side, behind
at most one sign and between white space.  A numeral is the same number as a literal, up to the sign in
front of it, so a literal equals its own text, and with coercion its text in quotes is that number. -/
theorem readers_agree (s : String) :
    ((ofText? s).isSome ↔ ∃ sign ∈ signs, ∃ n, Padded (sign ++ n) s.toList ∧
      (Token.IsNumeral (String.ofList n) ∨ HalfPointed n)) ∧
    (∀ sign ∈ signs, ∀ n, Token.IsNumeral n → Padded (sign ++ n.toList) s.toList →
      ∃ x, LiteralOf n x ∧ ofText? s = some (if sign = ['-'] then -x else x)) ∧
    (Token.IsNumeral s → ∃ x, LiteralOf s x ∧
      (Value.number x).looselyEquals? (.text s) = some true ∧
      (Value.text s).looselyEquals? (.number x) = some true ∧
      ∀ quote, quote = '"' ∨ quote = '\'' → ∃ e,
        (Parser.alone Parser.expression).ofText (String.ofList (quote :: (s.toList ++ [quote]))) =
          .ok e ∧
        ∀ fuel scope m, Action.eval true (fuel + 1) scope e m = .ok (.number x) m) := by
  refine ⟨⟨fun h => ?_, ?_⟩, ?_, fun h => ?_⟩
  · obtain ⟨sign, hsign, n, htrim, hn⟩ := exists_of_readSigned? h
    rw [isSome_readUnsigned?_iff] at hn
    refine ⟨sign, hsign, n, htrim ▸ padded_trim s.toList, ?_⟩
    rwa [Token.isNumeral_iff, String.toList_ofList]
  · rintro ⟨sign, hsign, n, hpadded, hn⟩
    rw [Token.isNumeral_iff, String.toList_ofList, ← isSome_readUnsigned?_iff] at hn
    obtain ⟨d, hd⟩ := Option.isSome_iff_exists.1 hn
    rw [ofText?_of_padded hsign hd hpadded]
    rfl
  · intro sign hsign n hn hpadded
    obtain ⟨x, hliteral, -, htext⟩ := exists_literalOf hn
    exact ⟨x, hliteral, htext sign hsign s hpadded⟩
  · obtain ⟨x, hliteral, hx, htext⟩ := exists_literalOf h
    have hbare : ofText? s = some x :=
      htext [] (by simp [signs]) s ⟨[], [], by simp, rfl, rfl⟩
    obtain ⟨hleft, hright⟩ := looselyEquals?_of_ofText? hbare hx
    refine ⟨x, hliteral, hleft, hright, fun quote hquote =>
      ⟨_, ofText_quoted_numeral h hquote, fun fuel scope m => ?_⟩⟩
    rw [← coerced_of_ofText? hbare]
    rfl

/-- Twelve and a half in Devanagari digits, with a sign and between blanks, and as a literal. -/
theorem readers_agree_devanagari :
    Token.IsNumeral "१२.५" ∧ Padded (['-'] ++ "१२.५".toList) "\t-१२.५ ".toList ∧
      (∃ x, LiteralOf "१२.५" x ∧ ofText? "\t-१२.५ " = some (-x)) ∧
      ∃ x, LiteralOf "१२.५" x ∧ (Value.number x).looselyEquals? (.text "१२.५") = some true := by
  have hnumeral : Token.IsNumeral "१२.५" := Token.isNumeral_iff.2 (by decide)
  have hpadded : Padded (['-'] ++ "१२.५".toList) "\t-१२.५ ".toList :=
    ⟨['\t'], [' '], by decide, by decide, by decide⟩
  obtain ⟨-, hsigned, -⟩ := readers_agree "\t-१२.५ "
  obtain ⟨-, -, hliteral⟩ := readers_agree "१२.५"
  obtain ⟨x, hx, hequal, -⟩ := hliteral hnumeral
  exact ⟨hnumeral, hpadded, hsigned ['-'] (by simp [signs]) _ hnumeral hpadded, x, hx, hequal⟩

end Numeral

end Boli
