import Boli.Proofs.ProgramTandem

/-!
# The two readings behind the print keyword

A statement that starts with the print keyword is a print statement or an expression, and both
readings can accept the same tokens: `dakhava(x);` prints one value either way.  The reading of
statements looks ahead and then takes one of the two for good, so it must never take one that fails
where the other would have gone through.

The grammar settles it.  The values of a print statement are never taken for a call
(`not_isPrintCall_of_print`), and an expression that is not taken for a call has one argument behind
the keyword, which is then a value in parentheses (`print_of_expressionStatement`).
-/

namespace Boli

open Grammar

namespace Parser

variable {c c' : Cursor} {s : Stmt}

theorem statement_run_print (hk : c.current.kind = .keyword .print) :
    statement c = if c.isPrintCall then expressionStatement c else print c := by
  rw [statement, bind_of_ok (remaining_eq_ok.2 ⟨rfl, rfl⟩), statementWithin, statementWith_run, hk]

theorem statement_of_isPrintCall (hk : c.current.kind = .keyword .print)
    (hcall : c.isPrintCall = true) : statement c = expressionStatement c := by
  rw [statement_run_print hk, if_pos hcall]

theorem statement_of_not_isPrintCall (hk : c.current.kind = .keyword .print)
    (hcall : c.isPrintCall = false) : statement c = print c := by
  rw [statement_run_print hk, if_neg (by simp [hcall])]

/-- Where a print statement can be read, no call is seen ahead. -/
theorem not_isPrintCall_of_print (hc : c.Ended) (hk : c.current.kind = .keyword .print)
    (h : print c = .ok s c') : c.isPrintCall = false := by
  obtain ⟨es, ts, us, hpass, hd⟩ := values_of_print hc hk h
  have hahead : c.ahead = ts ++ (us ++ c'.rest) := by rw [hpass.ahead_eq, List.append_assoc]
  exact Cursor.isPrintCall_of_exprs hahead hd

/-- Where an expression can be read and no call is seen ahead, a print statement can be read too,
and it ends at the same place. -/
theorem print_of_expressionStatement (hc : c.Ended) (hk : c.current.kind = .keyword .print)
    (h : expressionStatement c = .ok s c') (hcall : c.isPrintCall = false) :
    ∃ e, print c = .ok (.print (some c.current.line) [e]) c' := by
  simp only [expressionStatement, bind_eq_ok, current_eq_ok, semicolon_eq_ok, pure_eq_ok] at h
  obtain ⟨_, _, ⟨rfl, rfl⟩, e, c₁, he, _, _, ⟨hu, rfl⟩, _, rfl⟩ := h
  obtain ⟨ts, hpass, hd⟩ := expression_sound hc he
  obtain ⟨t, ts, rfl, _⟩ := (started_of_derives hd).expr
  obtain rfl := hpass.current_eq
  have hend := hpass.trans (passes_of_kind (hpass.ended hc) hu (by simp))
  obtain ⟨callee, args, o, us, u, vs, rfl, ho, hitems, hclose, hleading⟩ := call_of_derives hd hk
  -- the lookahead tells the calls apart by their number of arguments
  have hahead : c.ahead = o :: (us ++ u :: (vs ++ c₁.rest)) := by rw [hpass.ahead_eq]; simp
  have hargs : args.length = 1 := by
    by_contra hne
    simp [(Cursor.isPrintCall_iff hahead ho hitems hclose).2 hne] at hcall
  obtain ⟨e', hd'⟩ := unprinted_of_derives hd c.current _ rfl hk fun _ _ _ heq => by
    cases heq.symm.trans hleading
    exact hargs
  exact ⟨e', print_of_passes hend hk (.one hd') hu⟩

/-- The lookahead behind the print keyword never takes the reading that fails.  Where a print
statement can be read, the statement is that print statement.  Where only an expression can be read,
the statement is that expression.  So a statement can be read as soon as one of the two can. -/
theorem statement_of_either_reading (hc : c.Ended) (hk : c.current.kind = .keyword .print) :
    (∀ s c', print c = .ok s c' → c.isPrintCall = false ∧ statement c = .ok s c') ∧
    ((∀ s c', print c ≠ .ok s c') → ∀ s c', expressionStatement c = .ok s c' →
      c.isPrintCall = true ∧ statement c = .ok s c') ∧
    ((∃ s c', statement c = .ok s c') ↔
      (∃ s c', print c = .ok s c') ∨ ∃ s c', expressionStatement c = .ok s c') := by
  have hprint (s : Stmt) (c' : Cursor) (h : print c = .ok s c') :
      c.isPrintCall = false ∧ statement c = .ok s c' := by
    have hcall := not_isPrintCall_of_print hc hk h
    exact ⟨hcall, (statement_of_not_isPrintCall hk hcall).trans h⟩
  have hexpression (hno : ∀ s c', print c ≠ .ok s c') (s : Stmt) (c' : Cursor)
      (h : expressionStatement c = .ok s c') : c.isPrintCall = true ∧ statement c = .ok s c' := by
    have hcall : c.isPrintCall = true := by
      by_contra hcall
      obtain ⟨e, he⟩ := print_of_expressionStatement hc hk h (by simpa using hcall)
      exact hno _ _ he
    exact ⟨hcall, (statement_of_isPrintCall hk hcall).trans h⟩
  refine ⟨hprint, hexpression, ?_, ?_⟩
  · rintro ⟨s, c', h⟩
    rw [statement_run_print hk] at h
    split at h
    · exact .inr ⟨s, c', h⟩
    · exact .inl ⟨s, c', h⟩
  · rintro (⟨s, c', h⟩ | ⟨s, c', h⟩)
    · exact ⟨s, c', (hprint s c' h).2⟩
    · by_cases hno : ∃ s c', print c = .ok s c'
      · obtain ⟨s₁, c₁, h₁⟩ := hno
        exact ⟨s₁, c₁, (hprint s₁ c₁ h₁).2⟩
      · exact ⟨s, c', (hexpression (fun s₁ c₁ h₁ => hno ⟨s₁, c₁, h₁⟩) s c' h).2⟩

/-- The print function called for its effects, with two arguments. -/
def printCallCursor : Cursor :=
  ⟨[], ⟨.keyword .print, "dakhava", ⟨1, 1⟩⟩,
    [⟨.symbol .openParen, "(", ⟨1, 8⟩⟩, ⟨.identifier, "a", ⟨1, 9⟩⟩, ⟨.symbol .comma, ",", ⟨1, 10⟩⟩,
      ⟨.identifier, "b", ⟨1, 12⟩⟩, ⟨.symbol .closeParen, ")", ⟨1, 13⟩⟩,
      ⟨.symbol .semicolon, ";", ⟨1, 14⟩⟩, ⟨.eof, "", ⟨1, 15⟩⟩], 7, rfl⟩

/-- No value in parentheses can hold the comma, so only the call can be read. -/
theorem statement_of_either_reading_call :
    printCallCursor.Ended ∧ printCallCursor.isPrintCall = true ∧
      (∀ s c', print printCallCursor ≠ .ok s c') ∧
      ∃ c', statement printCallCursor = .ok (.expression (some 1) (.call (some 1)
        ⟨some 1, "dakhava"⟩ [.name (some 1) "a", .name (some 1) "b"])) c' := by
  have hended : printCallCursor.Ended := rfl
  obtain ⟨_, hexpression, _⟩ := statement_of_either_reading hended rfl
  have hno (s : Stmt) (c' : Cursor) : print printCallCursor ≠ .ok s c' := by
    cbv
    simp
  have hread : ∃ c', expressionStatement printCallCursor = .ok (.expression (some 1) (.call (some 1)
      ⟨some 1, "dakhava"⟩ [.name (some 1) "a", .name (some 1) "b"])) c' :=
    ⟨_, by cbv⟩
  obtain ⟨c', hread⟩ := hread
  obtain ⟨hcall, hstatement⟩ := hexpression hno _ c' hread
  exact ⟨hended, hcall, hno, c', hstatement⟩

end Parser

end Boli
