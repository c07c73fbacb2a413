import Boli.Proofs.Extents

/-!
# The tokens of a text tile it

Nothing of a source text is lost or read twice.  The text is a row of gaps and lexemes in turn, one
lexeme for each token, and the position of a token is counted from the characters in front of it.
Where the text has no tokens, the same holds of what stands in front of the place that is reported.

* `IsGap` is a row of blanks and complete comments.
* `Position.Behind` counts lines and columns by the line feeds.
* `Tiles` is the row of gaps and lexemes.
* `Token.tiled_ofText` is the result.
-/

namespace Boli

open Boli.Text

/-- The characters are blanks and comments that are complete when `rest` follows. -/
inductive IsGap : List Char → List Char → Prop where
  | none : IsGap [] rest
  | more : Separator cs (gap ++ rest) → IsGap gap rest → IsGap (cs ++ gap) rest

/-- The position is the one behind the characters: the line is one more than the line feeds among
them, and the column is one more than the characters behind the last of these. -/
structure Position.Behind (p : Position) (before : List Char) : Prop where
  line : p.line = 1 + before.count '\n'
  column : ∃ lines last, before = lines ++ last ∧ (lines = [] ∨ lines.getLast? = some '\n') ∧
    '\n' ∉ last ∧ p.column = before.length - lines.length + 1

/-- The tokens are the lexemes of the characters, with gaps around them.  The characters stand
behind `before` and in front of `rest`. -/
inductive Tiles : List Char → List Token → List Char → List Char → Prop where
  | gap : IsGap gap rest → Tiles before [] gap rest
  | token : IsGap gap (lexeme ++ cs ++ rest) → t.position.Behind (before ++ gap) →
    t.Fits → t.kind.Writes t.value.toList lexeme →
    Tiles (before ++ gap ++ lexeme) ts cs rest → Tiles before (t :: ts) (gap ++ lexeme ++ cs) rest

/-- The outcome of a scan accounts for all characters of `cs`, which stand behind `before`: the
tokens tile them and one mark of the end follows, or the tokens tile what stands in front of the
place of the error, and there the text goes wrong. -/
def Tiled (before cs : List Char) : Except LexError (List Token) → Prop
  | .ok tokens =>
    ∃ ts p, tokens = ts ++ [Token.endAt p] ∧ Tiles before ts cs [] ∧ p.Behind (before ++ cs)
  | .error e =>
    ∃ ts front rest, cs = front ++ rest ∧ Tiles before ts front rest ∧
      e.position.Behind (before ++ front) ∧ e.cause.Offends rest

/-! ## Positions -/

namespace Position

theorem behind_nil : first.Behind [] :=
  ⟨rfl, [], [], rfl, .inl rfl, List.not_mem_nil, rfl⟩

/-- A line feed starts a new line, and any other character is a column. -/
theorem Behind.after {p : Position} {before : List Char} (h : p.Behind before) (c : Char) :
    (p.after c).Behind (before ++ [c]) := by
  obtain ⟨hline, lines, last, rfl, hlines, hlast, hcolumn⟩ := h
  by_cases hc : c = '\n'
  · subst hc
    refine ⟨?_, lines ++ last ++ ['\n'], [], by simp, .inr (by simp), by simp, ?_⟩
    · simp only [Position.after, if_true, hline, List.count_append, List.count_singleton_self]
      omega
    · simp [Position.after]
  · refine ⟨?_, lines, last ++ [c], by simp, hlines, ?_, ?_⟩
    · simp [Position.after, hc, hline]
    · simp [hlast, Ne.symm hc]
    · simp only [Position.after, if_neg hc, hcolumn, List.length_append, List.length_singleton]
      omega

theorem Behind.afterAll {p : Position} {before : List Char} (h : p.Behind before)
    (cs : List Char) : (p.afterAll cs).Behind (before ++ cs) := by
  induction cs generalizing p before with
  | nil => rwa [List.append_nil]
  | cons c cs ih =>
    rw [List.append_cons]
    exact ih (h.after c)

end Position

/-! ## Tilings -/

/-- A blank or a comment in front of a tiling belongs to the first gap. -/
theorem Tiles.separated {before xs cs rest : List Char} {ts : List Token}
    (hxs : Separator xs (cs ++ rest)) (h : Tiles (before ++ xs) ts cs rest) :
    Tiles before ts (xs ++ cs) rest := by
  cases h with
  | gap hgap => exact .gap (.more hxs hgap)
  | @token gap lexeme cs _ t _ ts hgap hposition hfits hwrites hrest =>
    have hmore : IsGap (xs ++ gap) (lexeme ++ cs ++ rest) := .more (by simpa using hxs) hgap
    have htiles := Tiles.token hmore (by simpa using hposition) hfits hwrites (by simpa using hrest)
    simpa using htiles

/-- A lexeme in front of a tiling is its first one. -/
theorem Tiles.adjoined {before lexeme cs rest : List Char} {t : Token} {ts : List Token}
    (hposition : t.position.Behind before) (hfits : t.Fits)
    (hwrites : t.kind.Writes t.value.toList lexeme) (h : Tiles (before ++ lexeme) ts cs rest) :
    Tiles before (t :: ts) (lexeme ++ cs) rest :=
  .token .none (by simpa using hposition) hfits hwrites (by simpa using h)

namespace Tiled

/-- What is in front of the reported place may start with a blank or a comment. -/
theorem separated {before xs cs : List Char} {outcome : Except LexError (List Token)}
    (hxs : Separator xs cs) (h : Tiled (before ++ xs) cs outcome) :
    Tiled before (xs ++ cs) outcome := by
  cases outcome with
  | ok tokens =>
    obtain ⟨ts, p, rfl, htiles, hp⟩ := h
    refine ⟨ts, p, rfl, htiles.separated (by simpa using hxs), ?_⟩
    rwa [← List.append_assoc]
  | error e =>
    obtain ⟨ts, front, rest, rfl, htiles, hp, hcause⟩ := h
    refine ⟨ts, xs ++ front, rest, (List.append_assoc ..).symm, htiles.separated hxs, ?_, hcause⟩
    rwa [← List.append_assoc]

/-- It may start with a lexeme. -/
theorem adjoined {before lexeme cs : List Char} {t : Token}
    {outcome : Except LexError (List Token)} (hposition : t.position.Behind before) (hfits : t.Fits)
    (hwrites : t.kind.Writes t.value.toList lexeme) (h : Tiled (before ++ lexeme) cs outcome) :
    Tiled before (lexeme ++ cs) (outcome.map (t :: ·)) := by
  cases outcome with
  | ok tokens =>
    obtain ⟨ts, p, rfl, htiles, hp⟩ := h
    refine ⟨t :: ts, p, rfl, htiles.adjoined hposition hfits hwrites, ?_⟩
    rwa [← List.append_assoc]
  | error e =>
    obtain ⟨ts, front, rest, rfl, htiles, hp, hcause⟩ := h
    refine ⟨t :: ts, lexeme ++ front, rest, (List.append_assoc ..).symm,
      htiles.adjoined hposition hfits hwrites, ?_, hcause⟩
    rwa [← List.append_assoc]

end Tiled

namespace Token

/-- Each lexeme that is read takes its characters away from the text, and the scan goes on behind
them. -/
theorem tiled_scan {p : Position} {front : List Char} (hp : p.Behind front) (before : Option Char)
    (cs : List Char) : Tiled front cs (scan 0 before p cs) := by
  induction hlength : cs.length using Nat.strong_induction_on
    generalizing p front before cs with
  | h n ih =>
    cases cs with
    | nil => exact ⟨[], p, rfl, .gap .none, by rwa [List.append_nil]⟩
    | cons c cs =>
      subst hlength
      obtain ⟨body, rest, rfl, hmore, hlexeme⟩ := Lexeme.read_covers before c cs
      -- the scan goes on behind the lexeme, where less of the text is left
      have hrest : Tiled (front ++ c :: body) rest
          (scan body.length (some c) (p.after c) (body ++ rest)) := by
        rw [scan_inside]
        exact ih rest.length (by simp) (hp.afterAll (c :: body)) _ rest rfl
      obtain ⟨⟨lexeme, more⟩, hread⟩ : ∃ e, Lexeme.read before c (body ++ rest) = e := ⟨_, rfl⟩
      rw [hread] at hmore hlexeme
      obtain rfl : more = body.length := hmore
      cases lexeme with
      | fault cause =>
        rw [scan_of_fault hread]
        exact ⟨[], [], _, rfl, .gap .none, by rwa [List.append_nil], hlexeme⟩
      | gap =>
        rw [scan_of_gap hread]
        exact hrest.separated hlexeme
      | token kind value =>
        rw [scan_of_token hread]
        have hfits := Lexeme.admits_of_read hread
        refine hrest.adjoined hp ?_ ?_
        · rwa [Fits, String.toList_ofList]
        · rwa [String.toList_ofList]

/-- The tokens of a text tile it up to its end.  If it has none, the tokens in front of the reported
place tile the text up to there.  All positions are counted from the characters in front. -/
theorem tiled_ofText (text : String) : Tiled [] text.toList (ofText text) :=
  tiled_scan Position.behind_nil none text.toList

end Token

end Boli
