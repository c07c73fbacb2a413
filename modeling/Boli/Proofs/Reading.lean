import Boli.Proofs.Grammar

/-!
# Stretches of tokens between cursors

A reading takes a cursor to a later one.  What it has read is the stretch of tokens between the two,
`Cursor.Passes`, and the later cursor is fixed by the earlier one and that stretch.

* `Sound` says that a reading only takes stretches of a language.
* `Reads` says that a reading takes a given stretch wherever a suitable token follows it.

Both are shown here for single tokens and for items between commas.  Every cursor closes with the
mark of the end (`Cursor.Ended`), which no reading passes.
-/

namespace Boli

namespace Cursor

/-! ## Stretches -/

/-- The tokens from the current one on. -/
def rest (c : Cursor) : List Token := c.current :: c.ahead

/-- The last token is the mark of the end. -/
def Ended (c : Cursor) : Prop := c.last.kind = .eof

/-- The second cursor stands behind the tokens `ts`, which the first one has in front of it. -/
structure Passes (c : Cursor) (ts : List Token) (c' : Cursor) : Prop where
  /-- The tokens are what the first cursor has in front of it, but the second one has not. -/
  rest_eq : c.rest = ts ++ c'.rest
  /-- They are what the second cursor has passed, but the first one has not. -/
  passed_eq : c'.passed = ts.reverse ++ c.passed

theorem getLast?_rest (c : Cursor) : c.rest.getLast? = some c.last := by
  rw [rest, last, List.getLast?_cons, List.getLastD_eq_getLast?]

/-- A cursor is known by the tokens passed and those from the current one on. -/
theorem eq_of_rest {c c' : Cursor} (hrest : c.rest = c'.rest) (hpassed : c.passed = c'.passed) :
    c = c' := by
  obtain ⟨passed, current, ahead, n, h⟩ := c
  obtain ⟨passed', current', ahead', n', h'⟩ := c'
  cases hrest
  cases hpassed
  subst h
  subst h'
  rfl

namespace Passes

theorem refl (c : Cursor) : c.Passes [] c := ⟨rfl, rfl⟩

/-- One stretch behind another is a stretch. -/
theorem trans {c c₁ c₂ : Cursor} {ts us : List Token} (h : c.Passes ts c₁) (h' : c₁.Passes us c₂) :
    c.Passes (ts ++ us) c₂ := by
  constructor
  · rw [h.rest_eq, h'.rest_eq, List.append_assoc]
  · rw [h'.passed_eq, h.passed_eq, List.reverse_append, List.append_assoc]

theorem eq_of_nil {c c' : Cursor} (h : c.Passes [] c') : c = c' :=
  eq_of_rest h.rest_eq h.passed_eq.symm

/-- The tokens in front of the later cursor end like those in front of the earlier one. -/
theorem last_eq {c c' : Cursor} {ts : List Token} (h : c.Passes ts c') : c'.last = c.last := by
  have hlast := c.getLast?_rest
  rw [h.rest_eq, List.getLast?_append, getLast?_rest] at hlast
  exact Option.some.inj hlast

theorem ended {c c' : Cursor} {ts : List Token} (h : c.Passes ts c') (hc : c.Ended) : c'.Ended := by
  rw [Ended, h.last_eq]
  exact hc

/-- The tokens passed and those left behind are all that were left. -/
theorem remaining_eq {c c' : Cursor} {ts : List Token} (h : c.Passes ts c') :
    c.remaining = ts.length + c'.remaining := by
  have hlength := congrArg List.length h.rest_eq
  rw [List.length_append, rest, rest, List.length_cons, List.length_cons, ← c.remaining_eq,
    ← c'.remaining_eq] at hlength
  omega

theorem current_eq {c c' : Cursor} {t : Token} {ts : List Token} (h : c.Passes (t :: ts) c') :
    c.current = t :=
  (List.cons.inj h.rest_eq).1

theorem ahead_eq {c c' : Cursor} {t : Token} {ts : List Token} (h : c.Passes (t :: ts) c') :
    c.ahead = ts ++ c'.rest :=
  (List.cons.inj h.rest_eq).2

/-- One step on, the rest of the stretch is still ahead. -/
theorem advance {c c' : Cursor} {t : Token} {ts : List Token} (h : c.Passes (t :: ts) c')
    (ht : t.kind ≠ .eof) : c.advance.Passes ts c' := by
  have hcurrent := h.current_eq
  have hahead := h.ahead_eq
  have hpassed := h.passed_eq
  obtain ⟨passed, current, ahead, n, hn⟩ := c
  simp only at hcurrent hahead hpassed
  subst hcurrent
  cases ahead with
  | nil => cases ts <;> cases hahead
  | cons u us =>
    rw [Cursor.advance, if_neg ht]
    exact ⟨hahead, by rw [hpassed, List.reverse_cons, List.append_assoc]; rfl⟩

/-- A stretch in two parts has a cursor between them. -/
theorem split {c c' : Cursor} {ts us : List Token} (h : c.Passes (ts ++ us) c') :
    ∃ c₁, c.Passes ts c₁ ∧ c₁.Passes us c' := by
  cases hmid : us ++ c'.rest with
  | nil =>
    have hnil := (List.append_eq_nil_iff.1 hmid).2
    cases hnil
  | cons t ahead =>
    refine ⟨⟨ts.reverse ++ c.passed, t, ahead, ahead.length, rfl⟩, ⟨?_, rfl⟩, ⟨hmid.symm, ?_⟩⟩
    · rw [h.rest_eq, List.append_assoc, hmid]
      rfl
    · rw [h.passed_eq, List.reverse_append, List.append_assoc]

/-- The token behind the current one. -/
theorem peek_one {c c' : Cursor} {t u : Token} {ts : List Token} (h : c.Passes (t :: u :: ts) c') :
    c.peek 1 = u := by
  rw [peek, h.ahead_eq, h.current_eq]
  rfl

end Passes

/-- A step passes the current token. -/
theorem passes_advance {c : Cursor} (hc : c.Ended) (h : c.current.kind ≠ .eof) :
    c.Passes [c.current] c.advance := by
  obtain ⟨passed, current, ahead, n, hn⟩ := c
  cases ahead with
  | nil => exact absurd hc h
  | cons t ts =>
    rw [advance, if_neg h]
    exact ⟨rfl, rfl⟩

end Cursor

namespace Parser

/-! ## Steps of a reading -/

/-- A reading in two steps succeeds if both steps do, one after the other. -/
theorem bind_eq_ok {x : Parser α} {f : α → Parser β} {c c' : Cursor} {b : β} :
    (x >>= f) c = .ok b c' ↔ ∃ a c₁, x c = .ok a c₁ ∧ f a c₁ = .ok b c' := by
  show EStateM.bind x f c = _ ↔ _
  rw [EStateM.bind]
  cases x c with
  | ok a c₁ =>
    constructor
    · intro h
      exact ⟨a, c₁, rfl, h⟩
    · rintro ⟨_, _, h, hf⟩
      cases h
      exact hf
  | error e c₁ =>
    constructor
    · intro h
      cases h
    · rintro ⟨_, _, h, _⟩
      cases h

theorem map_eq_ok {x : Parser α} {f : α → β} {c c' : Cursor} {b : β} :
    (f <$> x) c = .ok b c' ↔ ∃ a, x c = .ok a c' ∧ f a = b := by
  show EStateM.map f x c = _ ↔ _
  rw [EStateM.map]
  cases x c with
  | ok a c₁ =>
    constructor
    · intro h
      cases h
      exact ⟨a, rfl, rfl⟩
    · rintro ⟨_, h, rfl⟩
      cases h
      rfl
  | error e c₁ =>
    constructor
    · intro h
      cases h
    · rintro ⟨_, h, _⟩
      cases h

theorem pure_eq_ok {a b : α} {c c' : Cursor} :
    (pure a : Parser α) c = .ok b c' ↔ a = b ∧ c = c' := by
  constructor
  · intro h
    cases h
    exact ⟨rfl, rfl⟩
  · rintro ⟨rfl, rfl⟩
    rfl

theorem get_eq_ok {c d c' : Cursor} : (get : Parser Cursor) c = .ok d c' ↔ c = d ∧ c = c' :=
  pure_eq_ok

theorem current_eq_ok {c c' : Cursor} {t : Token} :
    current c = .ok t c' ↔ c.current = t ∧ c = c' :=
  pure_eq_ok

theorem remaining_eq_ok {c c' : Cursor} {n : Nat} :
    remaining c = .ok n c' ↔ c.remaining = n ∧ c = c' :=
  pure_eq_ok

theorem isAt_eq_ok {kind : Kind} {c c' : Cursor} {b : Bool} :
    isAt kind c = .ok b c' ↔ decide (c.current.kind = kind) = b ∧ c = c' :=
  pure_eq_ok

theorem advance_eq_ok {c c' : Cursor} {t : Token} :
    advance c = .ok t c' ↔ c.current = t ∧ c.advance = c' :=
  pure_eq_ok

theorem failAt_ne_ok {t : Token} {complaint : Complaint} {a : α} {c c' : Cursor} :
    ¬failAt t complaint c = .ok a c' :=
  nofun

theorem fail_ne_ok {complaint : Complaint} {a : α} {c c' : Cursor} :
    ¬fail complaint c = .ok a c' :=
  nofun

/-- A token that has to stand here is taken if it is of the kind, and otherwise nothing is read. -/
theorem demand_eq_ok {kind : Kind} {complaint : Complaint} {c c' : Cursor} {t : Token} :
    demand kind complaint c = .ok t c' ↔
      c.current.kind = kind ∧ c.current = t ∧ c.advance = c' := by
  simp only [demand, bind_eq_ok, isAt_eq_ok]
  constructor
  · rintro ⟨_, _, ⟨rfl, rfl⟩, h⟩
    by_cases hk : c.current.kind = kind
    · rw [if_pos (decide_eq_true hk), advance_eq_ok] at h
      exact ⟨hk, h⟩
    · rw [if_neg (by simpa using hk)] at h
      exact absurd h fail_ne_ok
  · rintro ⟨hk, h⟩
    refine ⟨_, _, ⟨rfl, rfl⟩, ?_⟩
    rw [if_pos (decide_eq_true hk)]
    exact advance_eq_ok.2 h

theorem expect_eq_ok {kind : Kind} {what : Expectation} {c c' : Cursor} {t : Token} :
    expect kind what c = .ok t c' ↔ c.current.kind = kind ∧ c.current = t ∧ c.advance = c' :=
  demand_eq_ok

theorem eat_eq_ok {kind : Kind} {c c' : Cursor} {t : Token} :
    eat kind c = .ok t c' ↔ c.current.kind = kind ∧ c.current = t ∧ c.advance = c' := by
  simp only [eat, bind_eq_ok, current_eq_ok, demand_eq_ok]
  constructor
  · rintro ⟨_, _, ⟨rfl, rfl⟩, h⟩
    exact h
  · intro h
    exact ⟨_, _, ⟨rfl, rfl⟩, h⟩

/-- A token of the kind is taken. -/
theorem accept_of_eq {kind : Kind} {c : Cursor} (h : c.current.kind = kind) :
    accept kind c = .ok (some c.current) c.advance := by
  simp only [accept, bind_eq_ok, isAt_eq_ok]
  refine ⟨_, _, ⟨rfl, rfl⟩, ?_⟩
  rw [if_pos (decide_eq_true h)]
  rfl

/-- A token of another kind is left. -/
theorem accept_of_ne {kind : Kind} {c : Cursor} (h : c.current.kind ≠ kind) :
    accept kind c = .ok none c := by
  simp only [accept, bind_eq_ok, isAt_eq_ok]
  refine ⟨_, _, ⟨rfl, rfl⟩, ?_⟩
  rw [if_neg (by simpa using h)]
  rfl

/-- Taking a token that may be missing. -/
theorem accept_eq_ok {kind : Kind} {c c' : Cursor} {t? : Option Token} :
    accept kind c = .ok t? c' ↔
      c.current.kind = kind ∧ t? = some c.current ∧ c' = c.advance ∨
        c.current.kind ≠ kind ∧ t? = none ∧ c' = c := by
  by_cases h : c.current.kind = kind
  · rw [accept_of_eq h]
    constructor
    · intro heq
      cases heq
      exact .inl ⟨h, rfl, rfl⟩
    · rintro (⟨_, rfl, rfl⟩ | ⟨hne, _, _⟩)
      · rfl
      · exact absurd h hne
  · rw [accept_of_ne h]
    constructor
    · intro heq
      cases heq
      exact .inr ⟨h, rfl, rfl⟩
    · rintro (⟨heq, _, _⟩ | ⟨_, rfl, rfl⟩)
      · exact absurd heq h
      · rfl

/-! ## Readings and languages -/

/-- Whatever is read belongs to the language. -/
def Sound (p : Parser α) (L : α → List Token → Prop) : Prop :=
  ∀ {c a c'}, c.Ended → p c = .ok a c' → ∃ ts, c.Passes ts c' ∧ L a ts

/-- The tokens are read as `a` in front of every token whose kind is in `follow`. -/
def Reads (p : Parser α) (ts : List Token) (a : α) (follow : Kind → Prop) : Prop :=
  ∀ {c c'}, c.Passes ts c' → follow c'.current.kind → p c = .ok a c'

end Parser

end Boli
