import Boli.Proofs.ProgramTandem

/-!
# Errors are reported at the first token that does not fit

`first_misfit_reported` says where the reading of a program stops.  The tokens in front of the one that
is complained about begin a program (`Viable`), and together with that token they do not.  There is one
exception.  A function of the language that is not called is complained about itself, although the
token that does not fit is the one behind it.

The token is known by its place, since no two tokens of a text start at the same one.
-/

namespace Boli

open Grammar

/-! ## Places of tokens -/

namespace Position

/-- The place comes in front of the other one. -/
def Precedes (p q : Position) : Prop :=
  p.line < q.line ∨ p.line = q.line ∧ p.column < q.column

theorem Precedes.trans {p q r : Position} (h : p.Precedes q) (h' : q.Precedes r) : p.Precedes r := by
  unfold Precedes at *
  omega

theorem Precedes.ne {p q : Position} (h : p.Precedes q) : p ≠ q := by
  rintro rfl
  unfold Precedes at h
  omega

/-- Behind a character, a position is further on. -/
theorem precedes_after (p : Position) (c : Char) : p.Precedes (p.after c) := by
  rw [after]
  split
  · exact .inl (Int.lt_succ p.line)
  · exact .inr ⟨rfl, Int.lt_succ p.column⟩

end Position

namespace Token

/-- The tokens of a text stand in the order of their places, the first of them not in front of the
place where the scan starts. -/
theorem precedes_of_scan {inside : Nat} {before : Option Char} {p : Position} {cs : List Char}
    {tokens : List Token} (h : scan inside before p cs = .ok tokens) :
    tokens.Pairwise (fun t u => t.position.Precedes u.position) ∧
      ∀ t ∈ tokens, t.position = p ∨ p.Precedes t.position := by
  induction cs generalizing inside before p tokens with
  | nil =>
    cases h
    exact ⟨List.pairwise_singleton _ _, fun t ht => .inl (by rw [List.mem_singleton.1 ht]; rfl)⟩
  | cons c cs ih =>
    -- whatever is found behind the character comes behind its place
    have hbehind {inside : Nat} {before : Option Char} {tokens : List Token}
        (h : scan inside before (p.after c) cs = .ok tokens) :
        ∀ t ∈ tokens, p.Precedes t.position := by
      intro t ht
      rcases (ih h).2 t ht with heq | hprecedes
      · rw [heq]
        exact p.precedes_after c
      · exact (p.precedes_after c).trans hprecedes
    cases inside with
    | succ inside => exact ⟨(ih h).1, fun t ht => .inr (hbehind h t ht)⟩
    | zero =>
      rw [scan] at h
      split at h
      · cases h
      · exact ⟨(ih h).1, fun t ht => .inr (hbehind h t ht)⟩
      · next kind value more _ =>
        cases hrest : scan more (some c) (p.after c) cs with
        | error e =>
          rw [hrest] at h
          cases h
        | ok rest =>
          rw [hrest] at h
          cases h
          refine ⟨List.pairwise_cons.2 ⟨hbehind hrest, (ih hrest).1⟩, fun t ht => ?_⟩
          rcases List.mem_cons.1 ht with rfl | ht
          · exact .inl rfl
          · exact .inr (hbehind hrest t ht)

/-- A token of a text is known by its place. -/
theorem eq_of_position_eq {text : String} {tokens : List Token} (h : ofText text = .ok tokens)
    {i j : Nat} {t u : Token} (ht : tokens[i]? = some t) (hu : tokens[j]? = some u)
    (heq : t.position = u.position) : i = j := by
  obtain ⟨hi, rfl⟩ := List.getElem?_eq_some_iff.1 ht
  obtain ⟨hj, rfl⟩ := List.getElem?_eq_some_iff.1 hu
  have hordered := List.pairwise_iff_getElem.1 (precedes_of_scan h).1
  rcases Nat.lt_trichotomy i j with hlt | rfl | hlt
  · exact absurd heq (hordered i j hi hj hlt).ne
  · rfl
  · exact absurd heq.symm (hordered j i hj hi hlt).ne

/-- The token writes a function of the language. -/
def isBuiltin (t : Token) : Bool :=
  match t.kind with
  | .keyword word => word.builtin?.isSome
  | _ => false

/-- The keywords of functions of the language are those in the table. -/
theorem isBuiltin_iff {t : Token} : t.isBuiltin ↔ ∃ b, (t.kind, b) ∈ builtins := by
  simp only [isBuiltin, mem_builtins]
  cases hk : t.kind with
  | keyword word => simp [Option.isSome_iff_exists]
  | _ => simp

end Token

/-! ## Beginnings of programs -/

namespace Parser

/-- Some tokens behind these make a list that is read as a program. -/
def Viable (ts : List Token) : Prop :=
  ∃ more p, program.ofTokens (ts ++ more) = .ok p

/-- The first tokens of a beginning are a beginning. -/
theorem Viable.of_append {ts us : List Token} (h : Viable (ts ++ us)) : Viable ts := by
  obtain ⟨more, p, hp⟩ := h
  exact ⟨us ++ more, p, by rwa [← List.append_assoc]⟩

/-- A reading can start at the first token of a text. -/
theorem exists_ofTokens? {text : String} {tokens : List Token} (h : Token.ofText text = .ok tokens) :
    ∃ c, Cursor.ofTokens? tokens = some c := by
  obtain ⟨q, hlast⟩ := Token.getLast?_of_scan h
  cases tokens with
  | nil => cases hlast
  | cons t ts =>
    refine ⟨⟨[], t, ts, ts.length, rfl⟩, if_pos ?_⟩
    rw [List.getLast?_cons, ← List.getLastD_eq_getLast?] at hlast
    rw [Option.some.inj hlast]
    rfl

/-- If no program is read from the tokens of a text, one of them does not fit behind those in front of
it. -/
theorem exists_faults {text : String} {tokens : List Token} {e : ParseError}
    (htext : Token.ofText text = .ok tokens) (h : program.ofTokens tokens = .error (.parse e)) :
    ∃ c c' good bad, c.rest = tokens ∧ Faults e c c' good bad ∧ Viable good ∧
      ¬Viable (good ++ [bad]) := by
  obtain ⟨c, hc⟩ := exists_ofTokens? htext
  obtain ⟨hrest, _, hended⟩ := ofTokens?_eq_some.1 hc
  simp only [ofTokens, hc] at h
  split at h
  · cases h
  · next e' c' hrun =>
    cases h
    obtain ⟨good, bad, hfault, ⟨more, p, hp⟩, _⟩ := (program_tandem hended 0).error hrun
    refine ⟨c, c', good, bad, hrest, hfault, ⟨more, p, ofTokens_of_isProgram hp⟩, ?_⟩
    rintro ⟨us, p', hp'⟩
    obtain ⟨d, d', hd, hread⟩ := ofTokens_eq_ok.1 hp'
    obtain ⟨hdrest, _, hdended⟩ := ofTokens?_eq_some.1 hd
    rw [List.append_assoc] at hdrest
    exact Tandem.refutes (program_tandem hended) hrun hfault hdended hdrest p' d' hread

/-- The reading of a program stops at the first token that does not fit, and complains about it.  Only
where a function of the language is not called it complains about the token in front of that one. -/
theorem first_misfit_reported {text : String} {tokens : List Token} {e : ParseError}
    (htext : Token.ofText text = .ok tokens) (h : program.ofTokens tokens = .error (.parse e)) :
    ∃ i t, tokens[i]? = some t ∧ t.position = e.position ∧
      (∀ j u, tokens[j]? = some u → u.position = e.position → j = i) ∧
      Viable (tokens.take i) ∧
      if e.complaint = .expected .expression ∧ t.isBuiltin then
        (∃ u, tokens[i + 1]? = some u ∧ u.kind ≠ .symbol .openParen) ∧
          Viable (tokens.take (i + 1)) ∧ ¬Viable (tokens.take (i + 2))
      else
        ¬Viable (tokens.take (i + 1)) := by
  obtain ⟨c, c', good, bad, hrest, hfault, hgood, hbad⟩ := exists_faults htext h
  -- the tokens tell the index, and a place tells the token
  have hindex {ts us : List Token} {t : Token} (htokens : tokens = ts ++ t :: us)
      (hposition : e.position = t.position) : tokens[ts.length]? = some t ∧
        t.position = e.position ∧
        (∀ j u, tokens[j]? = some u → u.position = e.position → j = ts.length) ∧
        tokens.take ts.length = ts ∧ tokens.take (ts.length + 1) = ts ++ [t] := by
    have ht : tokens[ts.length]? = some t := by simp [htokens]
    refine ⟨ht, hposition.symm, fun j u hu heq => ?_, ?_, ?_⟩
    · exact Token.eq_of_position_eq htext hu ht (heq.trans hposition)
    · rw [htokens, List.take_left]
    · rw [htokens, List.take_length_add_append]
      rfl
  cases hfault with
  | here hpass hlate hcall hposition =>
    have htokens : tokens = good ++ c'.current :: c'.ahead := hrest.symm.trans hpass.rest_eq
    obtain ⟨ht, hplace, hunique, htake, htake'⟩ := hindex htokens hposition
    refine ⟨_, _, ht, hplace, hunique, by rwa [htake], ?_⟩
    rw [if_neg fun hnot => hcall ⟨hnot.1, Token.isBuiltin_iff.1 hnot.2⟩, htake']
    exact hbad
  | behind hpass hlate hposition =>
    have htokens : tokens = good ++ bad :: c'.rest := by
      rw [← hrest, hpass.rest_eq, List.append_assoc]
      rfl
    obtain ⟨ht, hplace, hunique, htake, htake'⟩ := hindex htokens hposition
    refine ⟨_, _, ht, hplace, hunique, by rwa [htake], ?_⟩
    rw [if_neg, htake']
    · exact hbad
    · rintro ⟨hexpression, _⟩
      rw [hexpression] at hlate
      cases hlate
  | @ahead good t _ rest hpass hnext hcall hparen hposition =>
    have htokens : tokens = good ++ t :: bad :: rest := by rw [← hrest, hpass.rest_eq, hnext]
    obtain ⟨ht, hplace, hunique, htake, htake'⟩ := hindex htokens hposition
    obtain rfl : c'.current = t := (List.cons.inj hnext).1
    refine ⟨_, _, ht, hplace, hunique, by rw [htake]; exact hgood.of_append, ?_⟩
    rw [if_pos ⟨hcall.1, Token.isBuiltin_iff.2 hcall.2⟩, htake']
    refine ⟨⟨bad, by simp [htokens], hparen⟩, hgood, ?_⟩
    have htake'' : tokens.take (good.length + 2) = good ++ [c'.current] ++ [bad] := by
      rw [htokens, List.take_length_add_append, List.append_assoc]
      rfl
    rwa [htake'']

/-- The tokens of a program in which the input function is not called. -/
def uncalledTokens : List Token :=
  [⟨.start, "chala suru karu", ⟨1, 1⟩⟩, ⟨.symbol .semicolon, ";", ⟨1, 16⟩⟩,
    ⟨.keyword .declare, "heAhe", ⟨2, 1⟩⟩, ⟨.identifier, "x", ⟨2, 7⟩⟩, ⟨.symbol .assign, "=", ⟨2, 9⟩⟩,
    ⟨.keyword .input, "ghye", ⟨2, 11⟩⟩, ⟨.symbol .semicolon, ";", ⟨2, 15⟩⟩,
    ⟨.finish, "bas re ata", ⟨3, 1⟩⟩, ⟨.symbol .semicolon, ";", ⟨3, 11⟩⟩, ⟨.eof, "", ⟨3, 12⟩⟩]

/-- The error is at the keyword, which is the last of six tokens that begin a program.  The semicolon
behind it is the token that does not fit. -/
theorem first_misfit_reported_uncalled :
    program.ofText "chala suru karu;\nheAhe x = ghye;\nbas re ata;" =
        .error (.parse ⟨.expected .expression, ⟨2, 11⟩⟩) ∧
      Viable (uncalledTokens.take 6) ∧ ¬Viable (uncalledTokens.take 7) := by
  have htext : Token.ofText "chala suru karu;\nheAhe x = ghye;\nbas re ata;" = .ok uncalledTokens := by
    decide +kernel
  have hrun : program.ofTokens uncalledTokens =
      .error (.parse ⟨.expected .expression, ⟨2, 11⟩⟩) := by
    cbv
  obtain ⟨i, t, ht, _, hunique, _, hviable⟩ := first_misfit_reported htext hrun
  obtain rfl : 5 = i := hunique 5 _ rfl rfl
  obtain rfl := Option.some.inj ht
  rw [if_pos ⟨rfl, rfl⟩] at hviable
  refine ⟨?_, hviable.2⟩
  rw [ofText, htext]
  exact hrun

end Parser

end Boli
