import Boli.Proofs.ExpressionCompleteness

/-!
# Telling a print call from a print statement

At the print keyword the reading looks ahead for a comma inside the parentheses that follow.  It does
not read them, it only counts what opens and closes.  This settles the question for the following
reason.  The tokens of an expression open and close in pairs, and its commas stand inside them, so
the count is the same behind an expression as it was in front of it (`balanced_of_derives`).

* `isPrintCall_iff` says that a call is told by its number of arguments.
* `isPrintCall_of_exprs` says that values to print are never taken for a call.
-/

namespace Boli

open Grammar

namespace Grammar

/-! ## Counting past an expression -/

/-- The token neither opens nor closes nor ends anything, and is no comma. -/
def isNeutral : Kind → Bool
  | .symbol .openParen | .symbol .openBracket => false
  | .symbol .closeParen | .symbol .closeBracket => false
  | .symbol .comma | .symbol .semicolon | .eof => false
  | _ => true

/-- A token that opens and closes nothing is passed. -/
theorem commaInside_neutral {t : Token} {ts : List Token} (depth : Nat) (h : isNeutral t.kind) :
    commaInside depth (t :: ts) = commaInside depth ts := by
  obtain ⟨kind, value, position⟩ := t
  cases kind with
  | symbol sign =>
    cases sign with
    | openParen | openBracket | closeParen | closeBracket | comma | semicolon => cases h
    | _ => rfl
  | eof => cases h
  | _ => rfl

theorem commaInside_open {t : Token} {ts : List Token} (depth : Nat)
    (h : t.kind = .symbol .openParen ∨ t.kind = .symbol .openBracket) :
    commaInside depth (t :: ts) = commaInside (depth + 1) ts := by
  rcases h with h | h <;> simp only [commaInside, h]

theorem commaInside_close {t : Token} {ts : List Token} (depth : Nat)
    (h : t.kind = .symbol .closeParen ∨ t.kind = .symbol .closeBracket) :
    commaInside (depth + 2) (t :: ts) = commaInside (depth + 1) ts := by
  rcases h with h | h <;> simp [commaInside, h]

theorem commaInside_comma {t : Token} {ts : List Token} (depth : Nat)
    (h : t.kind = .symbol .comma) :
    commaInside (depth + 2) (t :: ts) = commaInside (depth + 2) ts := by
  simp [commaInside, h]

/-- Operators open and close nothing. -/
theorem isNeutral_of_mem_operators {level : Level} {k : Kind} {op : Op}
    (h : (k, op) ∈ level.operators) : isNeutral k := by
  have htable : ∀ p ∈ level.operators, isNeutral p.1 := by
    cases level <;> decide
  exact htable _ h

theorem isNeutral_of_mem_signs {k : Kind} {op : Op} (h : (k, op) ∈ signs) : isNeutral k := by
  simp only [signs, List.mem_cons, Prod.mk.injEq, List.not_mem_nil, or_false] at h
  rcases h with ⟨rfl, _⟩ | ⟨rfl, _⟩ <;> rfl

theorem isNeutral_of_mem_constants {k : Kind} {v : Value} (h : (k, v) ∈ constants) :
    isNeutral k := by
  simp only [constants, List.mem_cons, Prod.mk.injEq, List.not_mem_nil, or_false] at h
  rcases h with ⟨rfl, _⟩ | ⟨rfl, _⟩ | ⟨rfl, _⟩ <;> rfl

theorem isNeutral_of_mem_builtins {k : Kind} {b : Builtin} (h : (k, b) ∈ builtins) :
    isNeutral k := by
  obtain ⟨word, rfl, _⟩ := mem_builtins.1 h
  rfl

/-- The count goes on behind a phrase as it stood in front of it.  An expression has no comma outside
its own parentheses and brackets.  The commas between expressions are not counted as long as two
parentheses or brackets at least are open. -/
def Phrase.Balanced : Phrase → List Token → Prop
  | .expr _ _, ts => ∀ depth rest,
    commaInside (depth + 1) (ts ++ rest) = commaInside (depth + 1) rest
  | .exprs _, ts => ∀ depth rest,
    commaInside (depth + 2) (ts ++ rest) = commaInside (depth + 2) rest
  | .items _, ts => ∀ depth rest,
    commaInside (depth + 2) (ts ++ rest) = commaInside (depth + 2) rest

/-- What stands in parentheses or brackets is counted away. -/
theorem commaInside_enclosed {o u : Token} {ts : List Token}
    (ho : o.kind = .symbol .openParen ∨ o.kind = .symbol .openBracket)
    (hu : u.kind = .symbol .closeParen ∨ u.kind = .symbol .closeBracket)
    (h : ∀ depth rest, commaInside (depth + 2) (ts ++ rest) = commaInside (depth + 2) rest)
    (depth : Nat) (rest : List Token) :
    commaInside (depth + 1) (o :: (ts ++ [u]) ++ rest) = commaInside (depth + 1) rest := by
  rw [List.cons_append, commaInside_open _ ho, List.append_assoc, h, List.singleton_append,
    commaInside_close _ hu]

/-- Parentheses and brackets of a phrase come in pairs. -/
theorem balanced_of_derives {φ : Phrase} {ts : List Token} (h : Derives φ ts) : φ.Balanced ts := by
  induction h with
  | operand _ ih => exact ih
  | binary _ hop _ ihl ihr =>
    intro depth rest
    rw [List.append_assoc, ihl, List.cons_append,
      commaInside_neutral _ (isNeutral_of_mem_operators hop), ihr]
  | unsigned _ ih => exact ih
  | signed hop _ ih =>
    intro depth rest
    rw [List.cons_append, commaInside_neutral _ (isNeutral_of_mem_signs hop), ih]
  | plain _ ih => exact ih
  | index _ ht _ hu ih ihi =>
    intro depth rest
    rw [List.append_assoc, ih,
      commaInside_enclosed (.inr ht) (.inr hu) fun depth => ihi (depth + 1)]
  | property _ ht hn ih =>
    intro depth rest
    rw [List.append_assoc, ih, List.cons_append, commaInside_neutral _ (by rw [ht]; rfl),
      List.cons_append, commaInside_neutral _ (by rw [hn]; rfl), List.nil_append]
  | constant hv =>
    intro depth rest
    rw [List.singleton_append, commaInside_neutral _ (isNeutral_of_mem_constants hv)]
  | number ht _ =>
    intro depth rest
    rw [List.singleton_append, commaInside_neutral _ (by rw [ht]; rfl)]
  | text ht =>
    intro depth rest
    rw [List.singleton_append, commaInside_neutral _ (by rw [ht]; rfl)]
  | name ht =>
    intro depth rest
    rw [List.singleton_append, commaInside_neutral _ (by rw [ht]; rfl)]
  | call ht ho _ hu ih =>
    intro depth rest
    rw [List.cons_append, commaInside_neutral _ (by rw [ht]; rfl),
      commaInside_enclosed (.inl ho) (.inl hu) ih]
  | builtin hb ho _ hu ih =>
    intro depth rest
    rw [List.cons_append, commaInside_neutral _ (isNeutral_of_mem_builtins hb),
      commaInside_enclosed (.inl ho) (.inl hu) ih]
  | list ht _ hu ih => exact commaInside_enclosed (.inr ht) (.inr hu) ih
  | group ht _ hu ih => exact commaInside_enclosed (.inl ht) (.inl hu) fun depth => ih (depth + 1)
  | one _ ih => exact fun depth => ih (depth + 1)
  | more _ ht _ ih ihs =>
    intro depth rest
    rw [List.append_assoc, ih (depth + 1), List.cons_append, commaInside_comma _ ht, ihs]
  | nothing => exact fun _ _ => rfl
  | something _ ih => exact ih

/-! ## The first part of an expression -/

/-- The tokens start with a sign, or with a primary whose leading expression is that of the whole. -/
def Phrase.Led : Phrase → List Token → Prop
  | .expr _ e, ts => (∃ t us, ts = t :: us ∧ (signOp? t.kind).isSome) ∨
    ∃ e₀ head tail, ts = head ++ tail ∧ Derives (.expr .primary e₀) head ∧ leading e = leading e₀
  | _, _ => True

/-- An expression starts with a sign or with the primary that leads it. -/
theorem led_of_derives {φ : Phrase} {ts : List Token} (h : Derives φ ts) : φ.Led ts := by
  -- The binary operators and the accessors add tokens behind those of their first part.
  have hbehind {e e' : Expr} {rank rank' : Rank} {ts us : List Token}
      (hled : (Phrase.expr rank e).Led ts) (hleading : leading e' = leading e) :
      (Phrase.expr rank' e').Led (ts ++ us) := by
    rcases hled with ⟨t, vs, rfl, ht⟩ | ⟨e₀, head, tail, rfl, hd, hl⟩
    · exact .inl ⟨t, vs ++ us, rfl, ht⟩
    · exact .inr ⟨e₀, head, tail ++ us, List.append_assoc .., hd, hleading.trans hl⟩
  have hwhole {e : Expr} {rank : Rank} {ts : List Token} (hd : Derives (.expr .primary e) ts) :
      (Phrase.expr rank e).Led ts :=
    .inr ⟨e, ts, [], (List.append_nil ts).symm, hd, rfl⟩
  induction h with
  | operand _ ih => exact ih
  | binary _ _ _ ih _ => exact hbehind ih rfl
  | unsigned _ ih => exact ih
  | signed hop _ _ => exact .inl ⟨_, _, rfl, by rw [signOp?_eq_some.2 hop]; rfl⟩
  | plain _ ih => exact ih
  | index _ _ _ _ ih _ => exact hbehind ih rfl
  | property _ _ _ ih => exact hbehind ih rfl
  | constant hv => exact hwhole (.constant hv)
  | number ht hx => exact hwhole (.number ht hx)
  | text ht => exact hwhole (.text ht)
  | name ht => exact hwhole (.name ht)
  | call ht ho hd hu _ => exact hwhole (.call ht ho hd hu)
  | builtin hb ho hd hu _ => exact hwhole (.builtin hb ho hd hu)
  | list ht hd hu _ => exact hwhole (.list ht hd hu)
  | group ht hd hu _ => exact hwhole (.group ht hd hu)
  | one _ _ => trivial
  | more _ _ _ _ _ => trivial
  | nothing => trivial
  | something _ _ => trivial

/-- An expression whose first token is an opening parenthesis starts with a group. -/
theorem group_of_derives {rank : Rank} {e : Expr} {t : Token} {ts : List Token}
    (h : Derives (.expr rank e) (t :: ts)) (ht : t.kind = .symbol .openParen) :
    ∃ e' us u vs, ts = us ++ u :: vs ∧ Derives (.expr .loosest e') us ∧
      u.kind = .symbol .closeParen := by
  rcases led_of_derives h with ⟨t', us, hts, hsign⟩ | ⟨e₀, head, tail, hts, hd, _⟩
  · cases hts
    rw [ht] at hsign
    cases hsign
  · cases hd with
    | group _ hd hu =>
      cases hts
      exact ⟨_, _, _, tail, by simp, hd, hu⟩
    | constant hv => cases hts; rw [ht] at hv; simp [constants] at hv
    | number hk _ => cases hts; rw [ht] at hk; cases hk
    | text hk => cases hts; rw [ht] at hk; cases hk
    | name hk => cases hts; rw [ht] at hk; cases hk
    | call hk _ _ _ => cases hts; rw [ht] at hk; cases hk
    | builtin hb _ _ _ => cases hts; rw [ht] at hb; simp [builtins] at hb
    | list hk _ _ => cases hts; rw [ht] at hk; cases hk

/-- An expression whose first token is the print keyword starts with a call of that function. -/
theorem call_of_derives {rank : Rank} {e : Expr} {t : Token} {ts : List Token}
    (h : Derives (.expr rank e) (t :: ts)) (ht : t.kind = .keyword .print) :
    ∃ callee args o us u vs, ts = o :: (us ++ u :: vs) ∧ o.kind = .symbol .openParen ∧
      Derives (.items args) us ∧ u.kind = .symbol .closeParen ∧
      leading e = .call (some t.line) callee args := by
  rcases led_of_derives h with ⟨t', us, hts, hsign⟩ | ⟨e₀, head, tail, hts, hd, hleading⟩
  · cases hts
    rw [ht] at hsign
    cases hsign
  · cases hd with
    | builtin _ ho hd hu =>
      cases hts
      exact ⟨_, _, _, _, _, tail, by simp, ho, hd, hu, hleading⟩
    | constant hv => cases hts; rw [ht] at hv; simp [constants] at hv
    | number hk _ => cases hts; rw [ht] at hk; cases hk
    | text hk => cases hts; rw [ht] at hk; cases hk
    | name hk => cases hts; rw [ht] at hk; cases hk
    | call hk _ _ _ => cases hts; rw [ht] at hk; cases hk
    | list hk _ _ => cases hts; rw [ht] at hk; cases hk
    | group hk _ _ => cases hts; rw [ht] at hk; cases hk

end Grammar

/-! ## The two readings of the print keyword -/

namespace Cursor

/-- Whether a comma comes up decides between the readings, unless the parentheses are empty. -/
theorem isPrintCall_eq {c : Cursor} {o v : Token} {ts : List Token} (h : c.ahead = o :: v :: ts)
    (ho : o.kind = .symbol .openParen) :
    c.isPrintCall = (decide (v.kind = .symbol .closeParen) || commaInside 1 (v :: ts)) := by
  have hone : c.peek 1 = o := by rw [peek, h]; rfl
  have htwo : c.peek 2 = v := by rw [peek, h]; rfl
  rw [isPrintCall, hone, htwo, h, commaInside_open 0 (.inl ho), ho]
  simp

/-- The parentheses hold one expression only. -/
theorem isPrintCall_of_group {c : Cursor} {o u : Token} {e : Expr} {us vs : List Token}
    (h : c.ahead = o :: (us ++ u :: vs)) (ho : o.kind = .symbol .openParen)
    (hd : Derives (.expr .loosest e) us) (hu : u.kind = .symbol .closeParen) :
    c.isPrintCall = false := by
  have hbalanced := balanced_of_derives hd 0 (u :: vs)
  obtain ⟨v, ws, rfl, hv⟩ := (started_of_derives hd).expr
  have hclose : v.kind ≠ .symbol .closeParen := by
    intro heq
    rw [heq] at hv
    cases hv
  rw [List.cons_append] at h hbalanced
  rw [isPrintCall_eq h ho, hbalanced]
  simp [commaInside, hu, hclose]

/-- A call is told from values to print by its number of arguments. -/
theorem isPrintCall_iff {c : Cursor} {o u : Token} {args : List Expr} {us vs : List Token}
    (h : c.ahead = o :: (us ++ u :: vs)) (ho : o.kind = .symbol .openParen)
    (hd : Derives (.items args) us) (hu : u.kind = .symbol .closeParen) :
    c.isPrintCall = true ↔ args.length ≠ 1 := by
  cases hd with
  | nothing => simp [isPrintCall_eq h ho, hu]
  | something hd =>
    cases hd with
    | one hd => simp [isPrintCall_of_group h ho hd hu]
    | @more e ts es us t hd ht hds =>
      have hbalanced := balanced_of_derives hd 0 (t :: (us ++ u :: vs))
      have hcomma : commaInside 1 (t :: (us ++ u :: vs)) = true := by simp [commaInside, ht]
      obtain ⟨v, ws, rfl, _⟩ := (started_of_derives hd).expr
      have hes : es ≠ [] := by cases hds <;> simp
      rw [List.append_assoc, List.cons_append] at h
      rw [isPrintCall_eq h ho, List.cons_append, ← List.cons_append, hbalanced, hcomma]
      simpa using hes

/-- Values to print are not taken for a call. -/
theorem isPrintCall_of_exprs {c : Cursor} {es : List Expr} {ts vs : List Token}
    (h : c.ahead = ts ++ vs) (hd : Derives (.exprs es) ts) : c.isPrintCall = false := by
  obtain ⟨e, us, ws, rfl, he⟩ : ∃ e us ws, ts = us ++ ws ∧ Derives (.expr .loosest e) us := by
    cases hd with
    | one hd => exact ⟨_, ts, [], (List.append_nil ts).symm, hd⟩
    | more hd _ _ => exact ⟨_, _, _, rfl, hd⟩
  obtain ⟨o, us, rfl, _⟩ := (started_of_derives he).expr
  have hone : c.peek 1 = o := by rw [peek, h]; rfl
  by_cases ho : o.kind = .symbol .openParen
  · obtain ⟨e', us', u, ws', rfl, he', hu⟩ := group_of_derives he ho
    have hgroup : c.ahead = o :: (us' ++ u :: (ws' ++ ws ++ vs)) := by simp [h]
    exact isPrintCall_of_group hgroup ho he' hu
  · rw [isPrintCall, hone]
    simp [ho]

end Cursor

end Boli
