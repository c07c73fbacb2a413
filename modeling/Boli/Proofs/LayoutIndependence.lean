import Boli.Proofs.SynonymousPrograms

/-!
# Reading does not depend on the layout

The tokens of a text are its words and their places.  Two texts with the same words differ at most in
their layout.  They are two spellings without synonyms, so they are both programs or both none, and as
programs they differ in their lines only (`ofText_of_words_eq`).  If they are none, one thing is wrong
with both of them, at tokens of the same index.
-/

namespace Boli

/-- Two layouts of the same words. -/
structure Layouts where
  /-- The tokens of the first layout. -/
  first : List Token
  /-- The tokens of the second layout. -/
  second : List Token
  /-- They differ at most in their places. -/
  words_eq : first.map Token.word = second.map Token.word
  /-- The numbers among them are numerals, as those of a text always are. -/
  numerals : ∀ t ∈ first, t.kind = .number → (Numeral.ofLexeme? t.value).isSome

namespace Synonymous

variable {free : Prop} {ts us : List Token}

/-- Without synonyms, a token stands for one token. -/
theorem length_eq (h : Synonymous False ts us) : ts.length = us.length := by
  induction h with
  | nil => rfl
  | cons _ _ ih => rw [List.length_cons, List.length_cons, ih]
  | joined hfree => exact hfree.elim

end Synonymous

namespace Layouts

variable {L : Layouts} {t u : Token} {c : Cursor}

/-- The tokens have the same index. -/
def Twins (L : Layouts) (t u : Token) : Prop :=
  ∃ i : Nat, L.first[i]? = some t ∧ L.second[i]? = some u

/-- Two layouts are two spellings without synonyms. -/
def spellings (L : Layouts) : Spellings False := ⟨L.first, L.second, L.numerals⟩

/-- Without synonyms, twins stand at the same index of both lists. -/
theorem twins_of_spellings (h : L.spellings.Twins t u) : L.Twins t u := by
  obtain ⟨ts, us, ts', us', hfirst, hsecond, hfront, _⟩ := h
  refine ⟨ts.length, ?_, ?_⟩
  · rw [show L.first = ts ++ t :: ts' from hfirst, List.getElem?_append_right le_rfl, Nat.sub_self]
    rfl
  · rw [show L.second = us ++ u :: us' from hsecond, hfront.length_eq,
      List.getElem?_append_right le_rfl, Nat.sub_self]
    rfl

theorem program_parallel (n m : Nat) :
    L.spellings.Parallel n m Block.Relined Parser.program Parser.program :=
  Spellings.program_parallel

/-- A whole reading of two layouts ends alike. -/
theorem ofTokens_cases {α : Type} {R : α → α → Prop} {phrase : Parser α}
    (hphrase : ∀ n m, L.spellings.Parallel n m R phrase phrase)
    (h : Cursor.ofTokens? L.first = some c) :
    (∃ a b, phrase.ofTokens L.first = .ok a ∧ phrase.ofTokens L.second = .ok b ∧ R a b) ∨
    ∃ complaint t u, phrase.ofTokens L.first = .error (.parse ⟨complaint, t.position⟩) ∧
      phrase.ofTokens L.second = .error (.parse ⟨complaint, u.position⟩) ∧
      complaint.isGrammatical ∧ L.Twins t u := by
  rcases L.spellings.ofTokens_cases hphrase (.of_words L.words_eq) h with
    hok | ⟨x, y, t, u, hx, hy, rfl | ⟨hfree, _⟩, hgrammatical, htwins⟩
  · exact .inl hok
  · exact .inr ⟨x, t, u, hx, hy, hgrammatical, twins_of_spellings htwins⟩
  · exact hfree.elim

end Layouts

/-- Reading does not depend on the layout.  Two texts with the same words are either both programs,
which differ in their lines only, or the same complaint is raised about both, at the tokens of one
index. -/
theorem ofText_of_words_eq {text text' : String} {tokens tokens' : List Token}
    (h : Token.ofText text = .ok tokens) (h' : Token.ofText text' = .ok tokens')
    (hwords : tokens.map Token.word = tokens'.map Token.word) :
    (∃ p p', Program.ofText text = .ok p ∧ Program.ofText text' = .ok p' ∧
      p.unlined = p'.unlined) ∨
    ∃ e e' i, Program.ofText text = .error (.parse e) ∧ Program.ofText text' = .error (.parse e') ∧
      e.complaint = e'.complaint ∧ e.complaint.isGrammatical ∧
      i < tokens.length ∧ i < tokens'.length ∧
      (∀ j t, tokens[j]? = some t → (t.position = e.position ↔ j = i)) ∧
      ∀ j t, tokens'[j]? = some t → (t.position = e'.position ↔ j = i) := by
  let L : Layouts := ⟨tokens, tokens', hwords, Token.numerals_of_ofText h⟩
  obtain ⟨c, hc⟩ := Parser.exists_ofTokens? h
  have hread : Program.ofText text = Parser.program.ofTokens tokens := by
    rw [Program.ofText, Parser.ofText, h]
  have hread' : Program.ofText text' = Parser.program.ofTokens tokens' := by
    rw [Program.ofText, Parser.ofText, h']
  rw [hread, hread']
  rcases L.ofTokens_cases Layouts.program_parallel hc with
    ⟨p, p', hp, hp', hrelined⟩ | ⟨complaint, t, u, he, he', hcomplaint, i, ht, hu⟩
  · exact .inl ⟨p, p', hp, hp', hrelined⟩
  -- in each text, a place is that of one token only
  have hindex {text : String} {tokens : List Token} {t : Token} (h : Token.ofText text = .ok tokens)
      (ht : tokens[i]? = some t) (j : Nat) (v : Token) (hv : tokens[j]? = some v) :
      v.position = t.position ↔ j = i := by
    refine ⟨Token.eq_of_position_eq h hv ht, ?_⟩
    rintro rfl
    rw [Option.some.inj (hv.symm.trans ht)]
  exact .inr ⟨_, _, i, he, he', rfl, hcomplaint, (List.getElem?_eq_some_iff.1 ht).1,
    (List.getElem?_eq_some_iff.1 hu).1, hindex h ht, hindex h' hu⟩

/-- The tokens of a program in which a parameter comes twice. -/
def doubledTokens : List Token :=
  [⟨.start, "chala suru karu", ⟨1, 1⟩⟩, ⟨.symbol .semicolon, ";", ⟨1, 16⟩⟩,
    ⟨.keyword .function, "kaamKar", ⟨2, 1⟩⟩, ⟨.identifier, "f", ⟨2, 9⟩⟩,
    ⟨.symbol .openParen, "(", ⟨2, 10⟩⟩, ⟨.identifier, "a", ⟨2, 11⟩⟩, ⟨.symbol .comma, ",", ⟨2, 12⟩⟩,
    ⟨.identifier, "a", ⟨2, 14⟩⟩, ⟨.symbol .closeParen, ")", ⟨2, 15⟩⟩, ⟨.eof, "", ⟨2, 16⟩⟩]

/-- The same words, with one of the parameters and what follows on a line of their own. -/
def brokenTokens : List Token :=
  [⟨.start, "chala suru karu", ⟨1, 1⟩⟩, ⟨.symbol .semicolon, ";", ⟨1, 16⟩⟩,
    ⟨.keyword .function, "kaamKar", ⟨1, 17⟩⟩, ⟨.identifier, "f", ⟨1, 25⟩⟩,
    ⟨.symbol .openParen, "(", ⟨1, 26⟩⟩, ⟨.identifier, "a", ⟨1, 27⟩⟩, ⟨.symbol .comma, ",", ⟨1, 28⟩⟩,
    ⟨.identifier, "a", ⟨2, 1⟩⟩, ⟨.symbol .closeParen, ")", ⟨2, 2⟩⟩, ⟨.eof, "", ⟨2, 3⟩⟩]

/-- The complaint about the first layout is about the eighth token, and so it is in the second one,
where that token is the first of its line. -/
theorem ofText_of_words_eq_doubled :
    Program.ofText "chala suru karu;\nkaamKar f(a, a)" =
        .error (.parse ⟨.duplicateParameter "a", ⟨2, 14⟩⟩) ∧
      Program.ofText "chala suru karu;kaamKar f(a,\na)" =
        .error (.parse ⟨.duplicateParameter "a", ⟨2, 1⟩⟩) := by
  have htext : Token.ofText "chala suru karu;\nkaamKar f(a, a)" = .ok doubledTokens := by
    decide +kernel
  have htext' : Token.ofText "chala suru karu;kaamKar f(a,\na)" = .ok brokenTokens := by
    decide +kernel
  have hrun : Program.ofText "chala suru karu;\nkaamKar f(a, a)" =
      .error (.parse ⟨.duplicateParameter "a", ⟨2, 14⟩⟩) := by
    rw [Program.ofText, Parser.ofText, htext]
    cbv
  refine ⟨hrun, ?_⟩
  rcases ofText_of_words_eq htext htext' rfl with
    ⟨p, _, hp, _⟩ | ⟨⟨_, _⟩, ⟨_, place'⟩, i, he, he', rfl, _, _, _, hindex, hindex'⟩
  · cases hp.symm.trans hrun
  · cases he.symm.trans hrun
    obtain rfl : 7 = i := (hindex 7 _ rfl).1 rfl
    obtain rfl : ⟨2, 1⟩ = place' := (hindex' 7 _ rfl).2 rfl
    exact he'

end Boli
