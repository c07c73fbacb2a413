import Boli.Proofs.Lexemes
import Boli.Proofs.StatementCompleteness

/-!
# A program is read exactly if its tokens derive it

`ofTokens_eq_ok_iff` is the main result on reading: from the tokens of a text, a program comes out
exactly if the grammar derives it from them.  So the grammar is unambiguous, and the tree with all
its lines is the one of the derivation.

A reading stops at the first mark of the end.  That this is the last token is what the tokens of a
text add to those built by hand.
-/

namespace Boli

open Grammar

namespace Parser

/-- What is read as a program up to a mark of the end is one. -/
theorem program_sound {c c' : Cursor} {p : Program} (hc : c.Ended) (h : program c = .ok p c') :
    ∃ ts c₁, c.Passes ts c₁ ∧ c₁.current.kind = .eof ∧ IsProgram p (ts ++ [c₁.current]) := by
  simp only [program, bind_eq_ok, expect_eq_ok, semicolon_eq_ok, remaining_eq_ok, demand_eq_ok,
    pure_eq_ok] at h
  obtain ⟨_, _, ⟨ht, rfl, rfl⟩, _, _, ⟨hu, rfl⟩, _, _, ⟨rfl, rfl⟩, ss, c₁, hss, _, _,
    ⟨hf, rfl, rfl⟩, _, _, ⟨hw, rfl⟩, _, _, ⟨hz, _, _⟩, rfl, _⟩ := h
  have hstart := passes_of_kind hc ht (by simp)
  have hbegun := hstart.trans (passes_of_kind (hstart.ended hc) hu (by simp))
  obtain ⟨ts, hpass, hb⟩ := statementsUntil_sound statement_sound _ _ (hbegun.ended hc) hss
  have hbody := hbegun.trans hpass
  have hfinish := hbody.trans (passes_of_kind (hbody.ended hc) hf (by simp))
  have hdone := hfinish.trans (passes_of_kind (hfinish.ended hc) hw (by simp))
  refine ⟨_, _, hdone, hz, ?_⟩
  simpa using IsProgram.mk ht hu hb hf hw hz

/-- The mark of the end is never passed. -/
theorem advance_of_eof {c : Cursor} (h : c.current.kind = .eof) : c.advance = c := by
  obtain ⟨passed, current, ahead, n, hn⟩ := c
  cases ahead with
  | nil => rfl
  | cons t ts => exact if_pos h

/-- A program in front of a mark of the end is read. -/
theorem program_reads {p : Program} {ts : List Token} {z : Token} (h : IsProgram p (ts ++ [z])) :
    Reads program ts p (· = .eof) := by
  intro c c' hpass hz
  generalize htokens : ts ++ [z] = tokens at h
  cases h with
  | @mk ss us t u f w z' ht hu hb hf hw hz' =>
    obtain ⟨rfl, _⟩ : ts = t :: u :: (us ++ [f, w]) ∧ z = z' := by
      have hcut : ts ++ [z] = (t :: u :: (us ++ [f, w])) ++ [z'] := by simpa using htokens
      exact ⟨(List.append_inj' hcut rfl).1, List.cons.inj (List.append_inj' hcut rfl).2 |>.1⟩
    obtain ⟨hstart, hrest⟩ := expect_of_passes hpass ht (by simp)
    obtain ⟨_, hkind, hbody⟩ := uncons hrest hu (by simp)
    have hsemicolon : semicolon .start c.advance = .ok () c.advance.advance :=
      semicolon_eq_ok.2 ⟨hkind, rfl⟩
    obtain ⟨c₁, hstmts, hend⟩ := hbody.split
    obtain ⟨_, hkind, _⟩ := uncons hend hf (by simp)
    obtain ⟨hfinish, hlast⟩ := expect_of_passes hend hf (by simp)
    have hfuel : us.length ≤ c.advance.advance.remaining := by rw [hstmts.remaining_eq]; omega
    rw [program, bind_of_ok hstart, bind_of_ok hsemicolon,
      bind_of_ok (remaining_eq_ok.2 ⟨rfl, rfl⟩),
      bind_of_ok (statements_read hb (.inr rfl) hfuel hstmts hkind), bind_of_ok hfinish,
      bind_of_ok (semicolon_of_passes hlast hw),
      bind_of_ok (demand_eq_ok.2 ⟨hz, rfl, advance_of_eof hz⟩)]
    rfl

theorem ofTokens_eq_ok {tokens : List Token} {p : Program} :
    program.ofTokens tokens = .ok p ↔
      ∃ c c', Cursor.ofTokens? tokens = some c ∧ program c = .ok p c' := by
  rw [ofTokens]
  cases Cursor.ofTokens? tokens with
  | none => simp
  | some c =>
    cases h : program c with
    | ok a c' => simp [h]
    | error e c' => simp [h]

/-- The cursor at the first token has all tokens in front of it, up to the mark of the end. -/
theorem ofTokens?_eq_some {tokens : List Token} {c : Cursor} :
    Cursor.ofTokens? tokens = some c ↔ c.rest = tokens ∧ c.passed = [] ∧ c.Ended := by
  constructor
  · intro h
    cases tokens with
    | nil => cases h
    | cons t ts =>
      rw [Cursor.ofTokens?] at h
      split at h
      · next hlast =>
        cases h
        exact ⟨rfl, rfl, hlast⟩
      · cases h
  · rintro ⟨rfl, hpassed, hc⟩
    exact (if_pos hc).trans (congrArg some (Cursor.eq_of_rest rfl hpassed.symm))

end Parser

/-- Among the tokens of a text, one of the kind of the end is the last. -/
theorem eq_nil_of_eof {tokens ts us : List Token} {z : Token} {text : String}
    (h : Token.ofText text = .ok tokens) (heq : tokens = ts ++ z :: us) (hz : z.kind = .eof) :
    us = [] := by
  obtain ⟨vs, q, rfl, hfits⟩ := Token.fits_of_scan h
  rcases List.eq_nil_or_concat us with rfl | ⟨ws, w, rfl⟩
  · rfl
  · have hcut : vs ++ [Token.endAt q] = (ts ++ z :: ws) ++ [w] := by simpa using heq
    obtain rfl := (List.append_inj' hcut rfl).1
    exact absurd hz (hfits z (by simp)).kind_ne_eof

/-- What is read from the tokens of a text is derived from all of them. -/
theorem isProgram_of_ofTokens {text : String} {tokens : List Token} {p : Program}
    (h : Token.ofText text = .ok tokens) (hp : Parser.program.ofTokens tokens = .ok p) :
    IsProgram p tokens := by
  obtain ⟨c, c', hcursor, hread⟩ := Parser.ofTokens_eq_ok.1 hp
  obtain ⟨hrest, _, hc⟩ := Parser.ofTokens?_eq_some.1 hcursor
  obtain ⟨ts, c₁, hpass, hz, hp⟩ := Parser.program_sound hc hread
  have htokens : tokens = ts ++ c₁.current :: c₁.ahead := hrest.symm.trans hpass.rest_eq
  rw [htokens, eq_nil_of_eof h htokens hz]
  exact hp

/-- What the grammar derives is read. -/
theorem ofTokens_of_isProgram {tokens : List Token} {p : Program} (hp : IsProgram p tokens) :
    Parser.program.ofTokens tokens = .ok p := by
  obtain ⟨ts, z, rfl, hz⟩ : ∃ ts z, tokens = ts ++ [z] ∧ z.kind = .eof := by
    cases hp with
    | @mk ss us t u f w z _ _ _ _ _ hz => exact ⟨t :: u :: (us ++ [f, w]), z, by simp, hz⟩
  obtain ⟨t, us, hcons⟩ := List.exists_cons_of_ne_nil (List.append_ne_nil_of_right_ne_nil ts
    (List.cons_ne_nil z []))
  have hpass : Cursor.Passes ⟨[], t, us, us.length, rfl⟩ ts ⟨ts.reverse, z, [], 0, rfl⟩ :=
    ⟨hcons.symm, (List.append_nil _).symm⟩
  refine Parser.ofTokens_eq_ok.2 ⟨_, _, Parser.ofTokens?_eq_some.2 ⟨?_, rfl, ?_⟩,
    Parser.program_reads hp hpass hz⟩
  · exact hcons.symm
  · rw [Cursor.Ended, ← hpass.last_eq]
    exact hz

/-- From the tokens of a text, a program is read exactly if the grammar derives it from them. -/
theorem ofTokens_eq_ok_iff {text : String} {tokens : List Token} {p : Program}
    (h : Token.ofText text = .ok tokens) :
    Parser.program.ofTokens tokens = .ok p ↔ IsProgram p tokens :=
  ⟨isProgram_of_ofTokens h, ofTokens_of_isProgram⟩

/-- The tokens of a call of the print function. -/
def callTokens : List Token :=
  [⟨.start, "chala suru karu", ⟨1, 1⟩⟩, ⟨.symbol .semicolon, ";", ⟨1, 16⟩⟩,
    ⟨.keyword .print, "dakhava", ⟨2, 1⟩⟩, ⟨.symbol .openParen, "(", ⟨2, 8⟩⟩,
    ⟨.identifier, "x", ⟨2, 9⟩⟩, ⟨.symbol .comma, ",", ⟨2, 10⟩⟩, ⟨.identifier, "y", ⟨2, 12⟩⟩,
    ⟨.symbol .closeParen, ")", ⟨2, 13⟩⟩, ⟨.symbol .semicolon, ";", ⟨2, 14⟩⟩,
    ⟨.finish, "bas re ata", ⟨3, 1⟩⟩, ⟨.symbol .semicolon, ";", ⟨3, 11⟩⟩, ⟨.eof, "", ⟨3, 12⟩⟩]

theorem isProgram_callTokens :
    Token.ofText "chala suru karu;\ndakhava(x, y);\nbas re ata;" = .ok callTokens ∧
      IsProgram (.mk (some 1) [.expression (some 2) (.call (some 2) ⟨some 2, "dakhava"⟩
        [.name (some 2) "x", .name (some 2) "y"])]) callTokens := by
  have htext : Token.ofText "chala suru karu;\ndakhava(x, y);\nbas re ata;" = .ok callTokens := by
    decide +kernel
  exact ⟨htext, (ofTokens_eq_ok_iff htext).1 (by cbv)⟩

end Boli
