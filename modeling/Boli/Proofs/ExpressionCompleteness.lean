import Boli.Proofs.ExpressionSoundness

/-!
# Expressions of the grammar are read

A stretch of tokens that the grammar derives is read as the tree of its derivation, wherever no token
follows that could continue it (`Rank.Stops`).

The binary levels and the accessors are left recursive in the grammar but loops in the reading.  So
what the induction over a derivation carries is not the end of a loop but its state: behind the
stretch the loop holds the tree and has fuel for all the tokens left (`Grammar.Phrase.Read`).  The
nesting of parentheses and brackets is handled by the number of tokens, which shrinks inside them.
-/

namespace Boli

open Grammar

/-! ## First tokens -/

namespace Grammar

/-- A primary may start with a token of the kind. -/
def startsPrimary : Kind → Bool
  | .keyword .yes | .keyword .no | .keyword .nothing => true
  | .number | .text | .identifier => true
  | .symbol .openBracket | .symbol .openParen => true
  | .keyword word => word.builtin?.isSome
  | _ => false

/-- An expression may start with a token of the kind. -/
def startsExpression (k : Kind) : Bool :=
  startsPrimary k || (signOp? k).isSome

/-- What is known of the first token of a phrase. -/
def Phrase.Started : Phrase → List Token → Prop
  | .expr .primary _, ts => ∃ t us, ts = t :: us ∧ startsPrimary t.kind
  | .expr .accessor _, ts => ∃ t us, ts = t :: us ∧ startsPrimary t.kind
  | .expr _ _, ts => ∃ t us, ts = t :: us ∧ startsExpression t.kind
  | .exprs _, ts => ∃ t us, ts = t :: us ∧ startsExpression t.kind
  | .items _, _ => True

theorem Phrase.Started.expr {rank : Rank} {e : Expr} {ts : List Token}
    (h : (Phrase.expr rank e).Started ts) : ∃ t us, ts = t :: us ∧ startsExpression t.kind := by
  cases rank with
  | binary level => exact h
  | sign => exact h
  | accessor =>
    obtain ⟨t, us, hts, ht⟩ := h
    exact ⟨t, us, hts, by simp [startsExpression, ht]⟩
  | primary =>
    obtain ⟨t, us, hts, ht⟩ := h
    exact ⟨t, us, hts, by simp [startsExpression, ht]⟩

theorem startsPrimary_of_mem_builtins {k : Kind} {b : Builtin} (h : (k, b) ∈ builtins) :
    startsPrimary k := by
  obtain ⟨word, rfl, hword⟩ := mem_builtins.1 h
  cases word <;> cases hword <;> rfl

theorem startsPrimary_of_mem_constants {k : Kind} {v : Value} (h : (k, v) ∈ constants) :
    startsPrimary k := by
  simp only [constants, List.mem_cons, Prod.mk.injEq, List.not_mem_nil, or_false] at h
  rcases h with ⟨rfl, _⟩ | ⟨rfl, _⟩ | ⟨rfl, _⟩ <;> rfl

/-- Every phrase starts with a token that tells what it is. -/
theorem started_of_derives {φ : Phrase} {ts : List Token} (h : Derives φ ts) : φ.Started ts := by
  induction h with
  | operand _ ih => exact ih.expr
  | binary _ _ _ ih _ =>
    obtain ⟨t, us, rfl, ht⟩ := ih.expr
    exact ⟨t, _, rfl, ht⟩
  | unsigned _ ih => exact ih.expr
  | signed hop _ _ => exact ⟨_, _, rfl, by simp [startsExpression, signOp?_eq_some.2 hop]⟩
  | plain _ ih => exact ih
  | index _ _ _ _ ih _ =>
    obtain ⟨t, us, rfl, ht⟩ := ih
    exact ⟨t, _, rfl, ht⟩
  | property _ _ _ ih =>
    obtain ⟨t, us, rfl, ht⟩ := ih
    exact ⟨t, _, rfl, ht⟩
  | constant hv => exact ⟨_, _, rfl, startsPrimary_of_mem_constants hv⟩
  | number ht _ => exact ⟨_, _, rfl, by rw [ht]; rfl⟩
  | text ht => exact ⟨_, _, rfl, by rw [ht]; rfl⟩
  | name ht => exact ⟨_, _, rfl, by rw [ht]; rfl⟩
  | call ht _ _ _ _ => exact ⟨_, _, rfl, by rw [ht]; rfl⟩
  | builtin hb _ _ _ _ => exact ⟨_, _, rfl, startsPrimary_of_mem_builtins hb⟩
  | list ht _ _ _ => exact ⟨_, _, rfl, by rw [ht]; rfl⟩
  | group ht _ _ _ => exact ⟨_, _, rfl, by rw [ht]; rfl⟩
  | one _ ih => exact ih.expr
  | more _ _ _ ih _ =>
    obtain ⟨t, us, rfl, ht⟩ := ih.expr
    exact ⟨t, _, rfl, ht⟩
  | nothing => trivial
  | something _ _ => trivial

/-- No sign starts a primary. -/
theorem signOp?_of_startsPrimary {k : Kind} (h : startsPrimary k) : signOp? k = none := by
  unfold signOp?
  split
  · cases h
  · cases h
  · rfl

end Grammar

/-! ## Tokens that continue an expression -/

namespace Rank

/-- How tight a rank is. -/
def tightness : Rank → Nat
  | binary .disjunction => 0
  | binary .conjunction => 1
  | binary .equality => 2
  | binary .relation => 3
  | binary .sum => 4
  | binary .product => 5
  | sign => 6
  | accessor => 7
  | primary => 8

/-- No expression of the rank goes on with a token of the kind. -/
structure Stops (rank : Rank) (k : Kind) : Prop where
  /-- It is no opening parenthesis, which would turn a name into a call. -/
  call : k ≠ .symbol .openParen
  /-- It is no accessor. -/
  accessor : rank ≠ .primary → k ≠ .symbol .openBracket ∧ k ≠ .symbol .dot
  /-- It is no operator that is as tight as the rank. -/
  operator : ∀ level, rank.tightness ≤ (binary level).tightness → level.op? k = none

/-- A level ends where neither an operator of it follows nor anything that continues an operand. -/
theorem stops_binary {level : Level} {k : Kind} :
    (binary level).Stops k ↔ level.op? k = none ∧ level.operand.Stops k := by
  constructor
  · intro h
    refine ⟨h.operator level (Nat.le_refl _), h.call, fun _ => h.accessor (by simp), ?_⟩
    intro level' hle
    refine h.operator level' (Nat.le_trans ?_ hle)
    cases level <;> decide
  · rintro ⟨hop, h⟩
    refine ⟨h.call, fun _ => h.accessor (by cases level <;> simp [Level.operand]), ?_⟩
    intro level' hle
    by_cases heq : level' = level
    · rw [heq, hop]
    · exact h.operator level' (by revert hle heq; cases level <;> cases level' <;> decide)

/-- The operators of a level do not continue its operands. -/
theorem stops_of_mem_operators {level : Level} {k : Kind} {op : Op}
    (h : (k, op) ∈ level.operators) : level.operand.Stops k := by
  have hop := Level.op?_eq_some.2 h
  refine ⟨?_, fun _ => ⟨?_, ?_⟩, fun level' hle => ?_⟩
  · rintro rfl
    cases level <;> cases hop
  · rintro rfl
    cases level <;> cases hop
  · rintro rfl
    cases level <;> cases hop
  · have htable : ∀ p ∈ level.operators,
        level.operand.tightness ≤ (binary level').tightness → level'.op? p.1 = none := by
      cases level <;> cases level' <;> decide
    exact htable _ h hle

/-- Only a parenthesis continues a primary. -/
theorem stops_primary {k : Kind} (h : k ≠ .symbol .openParen) : primary.Stops k :=
  ⟨h, fun hne => absurd rfl hne, fun level hle => absurd hle (by cases level <;> decide)⟩

/-- Closing tokens and separators end an expression of any rank. -/
theorem stops_of_symbol {rank : Rank} {sign : Symbol}
    (h : sign = .closeParen ∨ sign = .closeBracket ∨ sign = .comma ∨ sign = .semicolon) :
    rank.Stops (.symbol sign) := by
  rcases h with rfl | rfl | rfl | rfl <;>
    exact ⟨by simp, fun _ => ⟨by simp, by simp⟩, fun level _ => by cases level <;> rfl⟩

/-- The next looser rank. -/
def looser : Rank → Rank
  | binary .disjunction => binary .disjunction
  | binary .conjunction => binary .disjunction
  | binary .equality => binary .conjunction
  | binary .relation => binary .equality
  | binary .sum => binary .relation
  | binary .product => binary .sum
  | sign => binary .product
  | accessor => sign
  | primary => accessor

theorem tightness_looser (rank : Rank) : rank.looser.tightness = rank.tightness - 1 := by
  cases rank with
  | binary level => cases level <;> rfl
  | _ => rfl

/-- The rank that is so tight. -/
def ofTightness : Nat → Rank
  | 0 => binary .disjunction
  | 1 => binary .conjunction
  | 2 => binary .equality
  | 3 => binary .relation
  | 4 => binary .sum
  | 5 => binary .product
  | 6 => sign
  | 7 => accessor
  | _ => primary

/-- A rank is known by how tight it is. -/
theorem ofTightness_tightness (rank : Rank) : ofTightness rank.tightness = rank := by
  cases rank with
  | binary level => cases level <;> rfl
  | _ => rfl

theorem eq_of_tightness_eq {rank rank' : Rank} (h : rank.tightness = rank'.tightness) :
    rank = rank' := by
  rw [← rank.ofTightness_tightness, h, ofTightness_tightness]

end Rank

/-- An expression of a rank is one of every looser rank. -/
theorem Grammar.Derives.loosen {rank rank' : Rank} {e : Expr} {ts : List Token}
    (h : Derives (.expr rank' e) ts) (hle : rank.tightness ≤ rank'.tightness) :
    Derives (.expr rank e) ts := by
  obtain ⟨d, hd⟩ := Nat.exists_eq_add_of_le hle
  induction d generalizing rank' with
  | zero =>
    obtain rfl := Rank.eq_of_tightness_eq hd
    exact h
  | succ d ih =>
    have hlooser : Derives (.expr rank'.looser e) ts := by
      cases rank' with
      | binary level =>
        cases level with
        | disjunction => exact h
        | _ => exact .operand h
      | sign => exact .operand h
      | accessor => exact .unsigned h
      | primary => exact .plain h
    have htight := rank'.tightness_looser
    exact ih hlooser (by omega) (by omega)

theorem Grammar.derives_name {t : Token} (ht : t.kind = .identifier) :
    Derives (.expr .loosest (.name (some t.line) t.value)) [t] :=
  (Derives.name ht).loosen (Nat.zero_le _)

namespace Parser

/-! ## Completeness -/

theorem bind_of_ok {x : Parser α} {f : α → Parser β} {c c₁ : Cursor} {a : α}
    (h : x c = .ok a c₁) : (x >>= f) c = f a c₁ := by
  show EStateM.bind x f c = _
  rw [EStateM.bind, h]

/-- The first token of a stretch is the current one, and the rest of the stretch is ahead. -/
theorem uncons {c c' : Cursor} {t : Token} {ts : List Token} {k : Kind}
    (h : c.Passes (t :: ts) c') (ht : t.kind = k) (hk : k ≠ .eof) :
    c.current = t ∧ c.current.kind = k ∧ c.advance.Passes ts c' := by
  refine ⟨h.current_eq, ?_, h.advance ?_⟩
  · rw [h.current_eq, ht]
  · rw [ht]
    exact hk

/-- A stretch of one token ends behind the current one. -/
theorem advance_eq_of_passes {c c' : Cursor} {t : Token} {k : Kind} (h : c.Passes [t] c')
    (ht : t.kind = k) (hk : k ≠ .eof) : c.advance = c' :=
  (uncons h ht hk).2.2.eq_of_nil

/-- The reading of a rank. -/
def ofRank : Rank → Parser Expr → Parser Expr
  | .binary .disjunction, expr => disjunction expr
  | .binary .conjunction, expr => conjunction expr
  | .binary .equality, expr => equality expr
  | .binary .relation, expr => relation expr
  | .binary .sum, expr => sum expr
  | .binary .product, expr => product expr
  | .sign, expr => unary expr
  | .accessor, expr => postfixed expr
  | .primary, expr => primary expr

/-- A level is read as operands with operators between them. -/
theorem ofRank_binary (level : Level) (expr : Parser Expr) :
    ofRank (.binary level) expr = joined level (ofRank level.operand expr) := by
  cases level <;> rfl

/-- Expressions of fewer than `n` tokens are read wherever nothing continues them. -/
def ReadsBelow (n : Nat) (expr : Parser Expr) : Prop :=
  ∀ {e ts}, Derives (.expr .loosest e) ts → ts.length < n → Reads expr ts e Rank.loosest.Stops

end Parser

open Boli.Parser in
/-- What is known of the reading of a phrase of at most `n` tokens.  A loop that has come to the end
of the phrase holds its tree, and has fuel for the tokens left. -/
def Grammar.Phrase.Read (n : Nat) (expr : Parser Expr) : Phrase → List Token → Prop
  | .expr (.binary level) e, ts => ts.length ≤ n → ∀ c c', c.Passes ts c' →
    level.operand.Stops c'.current.kind →
    ∃ fuel, c'.remaining ≤ fuel ∧
      ofRank (.binary level) expr c = chain level (ofRank level.operand expr) fuel e c'
  | .expr .sign e, ts => ts.length ≤ n → ∀ fuel, ts.length ≤ fuel →
    Reads (signed expr fuel) ts e Rank.sign.Stops
  | .expr .accessor e, ts => ts.length ≤ n → ∀ c c', c.Passes ts c' →
    Rank.primary.Stops c'.current.kind →
    ∃ fuel, c'.remaining ≤ fuel ∧ postfixed expr c = accessors expr fuel e c'
  | .expr .primary e, ts => ts.length ≤ n → Reads (primary expr) ts e Rank.primary.Stops
  | .exprs es, ts => ts.length < n → ∀ fuel, ts.length ≤ fuel →
    Reads (commaSeparated expr fuel) ts es fun k => Rank.loosest.Stops k ∧ k ≠ .symbol .comma
  | .items es, ts => ts.length < n → ∀ sign, sign = .closeParen ∨ sign = .closeBracket →
    Reads (itemsUntil (.symbol sign) expr) ts es (· = .symbol sign)

namespace Parser

/-- A loop over operators ends in front of a token that is none. -/
theorem chain_of_stops {level : Level} {operand : Parser Expr} {e : Expr} {c : Cursor}
    (h : level.op? c.current.kind = none) (fuel : Nat) :
    chain level operand fuel e c = .ok e c := by
  cases fuel with
  | zero => rfl
  | succ fuel =>
    rw [chain, bind_of_ok (current_eq_ok.2 ⟨rfl, rfl⟩)]
    simp only [h]
    rfl

/-- A loop over accessors ends in front of a token that is none. -/
theorem accessors_of_stops {expr : Parser Expr} {e : Expr} {c : Cursor}
    (h : c.current.kind ≠ .symbol .openBracket ∧ c.current.kind ≠ .symbol .dot) (fuel : Nat) :
    accessors expr fuel e c = .ok e c := by
  cases fuel with
  | zero => rfl
  | succ fuel =>
    have hnone : acceptAny [.symbol .openBracket, .symbol .dot] c = .ok none c := by
      rw [acceptAny, bind_of_ok (current_eq_ok.2 ⟨rfl, rfl⟩), if_neg (by simp [h])]
      rfl
    rw [accessors, bind_of_ok hnone]
    rfl

/-- A token of one of the kinds is taken. -/
theorem acceptAny_of_mem {kinds : List Kind} {c : Cursor} (h : c.current.kind ∈ kinds) :
    acceptAny kinds c = .ok (some c.current) c.advance := by
  rw [acceptAny, bind_of_ok (current_eq_ok.2 ⟨rfl, rfl⟩), if_pos (by simpa using h)]
  rfl

/-- Where the loops of a rank end, its whole reading ends. -/
theorem reads_of_read {n : Nat} {expr : Parser Expr} {rank : Rank} {e : Expr} {ts : List Token}
    (h : (Phrase.expr rank e).Read n expr ts) (hn : ts.length ≤ n) :
    Reads (ofRank rank expr) ts e rank.Stops := by
  intro c c' hpass hstop
  cases rank with
  | binary level =>
    obtain ⟨hop, hoperand⟩ := Rank.stops_binary.1 hstop
    obtain ⟨fuel, _, hchain⟩ := h hn c c' hpass hoperand
    rw [hchain, chain_of_stops hop]
  | sign =>
    have hfuel : ts.length ≤ c.remaining := by rw [hpass.remaining_eq]; omega
    exact h hn _ hfuel hpass hstop
  | accessor =>
    obtain ⟨fuel, _, haccessors⟩ := h hn c c' hpass (Rank.stops_primary hstop.call)
    exact haccessors.trans (accessors_of_stops (hstop.accessor (by simp)) fuel)
  | primary => exact h hn hpass hstop

/-- One round of a loop over operators. -/
theorem chain_step {level : Level} {operand : Parser Expr} {fuel : Nat} {l r : Expr} {t : Token}
    {op : Op} {rs : List Token} {c c' : Cursor} (hpass : c.Passes (t :: rs) c')
    (hop : (t.kind, op) ∈ level.operators) (hr : Reads operand rs r level.operand.Stops)
    (hstop : level.operand.Stops c'.current.kind) :
    chain level operand (fuel + 1) l c =
      chain level operand fuel (.binary (some t.line) op l r) c' := by
  have hsome := Level.op?_eq_some.2 hop
  obtain ⟨hcurrent, _, hrest⟩ := uncons hpass rfl (ne_eof_of_mem_operators hop)
  rw [chain, bind_of_ok (current_eq_ok.2 ⟨rfl, rfl⟩), hcurrent]
  simp only [hsome]
  rw [bind_of_ok (advance_eq_ok.2 ⟨rfl, rfl⟩), bind_of_ok (hr hrest hstop)]

/-- One round of a loop over accessors, for an index. -/
theorem accessors_index {expr : Parser Expr} {fuel : Nat} {e i : Expr} {t u : Token}
    {is : List Token} {c c' : Cursor} (hpass : c.Passes (t :: (is ++ [u])) c')
    (ht : t.kind = .symbol .openBracket) (hi : Reads expr is i Rank.loosest.Stops)
    (hu : u.kind = .symbol .closeBracket) :
    accessors expr (fuel + 1) e c = accessors expr fuel (.index (some t.line) e i) c' := by
  obtain ⟨hcurrent, hkind, hrest⟩ := uncons hpass ht (by simp)
  obtain ⟨c₁, hindex, hclose⟩ := hrest.split
  obtain ⟨_, hclosed, _⟩ := uncons hclose hu (by simp)
  have hstop : Rank.loosest.Stops c₁.current.kind := by
    rw [hclosed]
    exact Rank.stops_of_symbol (.inr (.inl rfl))
  rw [accessors, bind_of_ok (acceptAny_of_mem (by simp [hkind])), hcurrent]
  simp only [ht, ↓reduceIte]
  rw [bind_of_ok (hi hindex hstop), bind_of_ok (expect_eq_ok.2 ⟨hclosed, rfl, rfl⟩),
    advance_eq_of_passes hclose hu (by simp)]

/-- One round of a loop over accessors, for a property. -/
theorem accessors_property {expr : Parser Expr} {fuel : Nat} {e : Expr} {t n : Token}
    {c c' : Cursor} (hpass : c.Passes [t, n] c') (ht : t.kind = .symbol .dot)
    (hn : n.kind = .identifier) :
    accessors expr (fuel + 1) e c =
      accessors expr fuel (.property (some t.line) e ⟨some n.line, n.value⟩) c' := by
  obtain ⟨hcurrent, hkind, hrest⟩ := uncons hpass ht (by simp)
  obtain ⟨hname, hnamed, _⟩ := uncons hrest hn (by simp)
  rw [accessors, bind_of_ok (acceptAny_of_mem (by simp [hkind])), hcurrent]
  simp only [ht, reduceCtorEq, Kind.symbol.injEq, ↓reduceIte]
  rw [bind_of_ok (expect_eq_ok.2 ⟨hnamed, rfl, rfl⟩), hname,
    advance_eq_of_passes hrest hn (by simp)]

/-- Arguments in parentheses. -/
theorem arguments_reads {expr : Parser Expr} {args : List Expr} {o u : Token} {ts : List Token}
    (ho : o.kind = .symbol .openParen)
    (hitems : Reads (itemsUntil (.symbol .closeParen) expr) ts args (· = .symbol .closeParen))
    (hu : u.kind = .symbol .closeParen) :
    Reads (arguments expr) (o :: (ts ++ [u])) args fun _ => True := by
  intro c c' hpass _
  obtain ⟨_, hopened, hrest⟩ := uncons hpass ho (by simp)
  obtain ⟨c₁, hinner, hclose⟩ := hrest.split
  obtain ⟨_, hclosed, _⟩ := uncons hclose hu (by simp)
  simp only [arguments, bind_eq_ok, expect_eq_ok, pure_eq_ok]
  exact ⟨_, _, ⟨hopened, rfl, rfl⟩, args, c₁, hitems hinner hclosed, _, _, ⟨hclosed, rfl, rfl⟩, rfl,
    advance_eq_of_passes hclose hu (by simp)⟩

theorem constant_reads {v : Value} {t : Token} {k : Kind} (ht : t.kind = k) (hk : k ≠ .eof) :
    Reads (constant v) [t] (.literal (some t.line) v t.value) fun _ => True := by
  intro c c' hpass _
  rw [constant, bind_of_ok (advance_eq_ok.2 ⟨rfl, rfl⟩), hpass.current_eq,
    advance_eq_of_passes hpass ht hk]
  rfl

theorem primary_of_constant {expr : Parser Expr} {t : Token} {v : Value}
    (h : (t.kind, v) ∈ constants) {follow : Kind → Prop} :
    Reads (primary expr) [t] (.literal (some t.line) v t.value) follow := by
  intro c c' hpass _
  simp only [constants, List.mem_cons, Prod.mk.injEq, List.not_mem_nil, or_false] at h
  rcases h with ⟨ht, rfl⟩ | ⟨ht, rfl⟩ | ⟨ht, rfl⟩
  · rw [primary_run, (uncons hpass ht (by simp)).2.1]
    exact constant_reads ht (by simp) hpass trivial
  · rw [primary_run, (uncons hpass ht (by simp)).2.1]
    exact constant_reads ht (by simp) hpass trivial
  · rw [primary_run, (uncons hpass ht (by simp)).2.1]
    exact constant_reads ht (by simp) hpass trivial

theorem primary_of_number {expr : Parser Expr} {t : Token} {x : Float} (ht : t.kind = .number)
    (hx : Numeral.ofLexeme? t.value = some x) {follow : Kind → Prop} :
    Reads (primary expr) [t] (.literal (some t.line) (.number x) t.value) follow := by
  intro c c' hpass _
  rw [primary_run, (uncons hpass ht (by simp)).2.1]
  show numberLiteral c = _
  rw [numberLiteral, bind_of_ok (advance_eq_ok.2 ⟨rfl, rfl⟩), hpass.current_eq,
    advance_eq_of_passes hpass ht (by simp)]
  simp only [hx]
  rfl

/-- A name is no call if no parenthesis follows. -/
theorem primary_of_name {expr : Parser Expr} {t : Token} (ht : t.kind = .identifier) :
    Reads (primary expr) [t] (.name (some t.line) t.value) Rank.primary.Stops := by
  intro c c' hpass hstop
  rw [primary_run, (uncons hpass ht (by simp)).2.1]
  show nameOrCall expr c = _
  rw [nameOrCall, bind_of_ok (advance_eq_ok.2 ⟨rfl, rfl⟩), hpass.current_eq,
    advance_eq_of_passes hpass ht (by simp), bind_of_ok (isAt_eq_ok.2 ⟨rfl, rfl⟩),
    if_neg (by simpa using hstop.call)]
  rfl

/-- A name in front of arguments is a call. -/
theorem primary_of_call {expr : Parser Expr} {t o : Token} {args : List Expr} {ts : List Token}
    (ht : t.kind = .identifier) (ho : o.kind = .symbol .openParen)
    (hargs : Reads (arguments expr) (o :: ts) args fun _ => True) {follow : Kind → Prop} :
    Reads (primary expr) (t :: o :: ts) (.call (some t.line) ⟨some t.line, t.value⟩ args)
      follow := by
  intro c c' hpass _
  obtain ⟨hcurrent, hkind, hrest⟩ := uncons hpass ht (by simp)
  rw [primary_run, hkind]
  show nameOrCall expr c = _
  rw [nameOrCall, bind_of_ok (advance_eq_ok.2 ⟨rfl, rfl⟩), hcurrent,
    bind_of_ok (isAt_eq_ok.2 ⟨rfl, rfl⟩), if_pos (by simp [hrest.current_eq, ho]),
    bind_of_ok (hargs hrest trivial)]
  rfl

/-- So is a function of the language. -/
theorem primary_of_builtin {expr : Parser Expr} {t o : Token} {b : Builtin} {args : List Expr}
    {ts : List Token} (hb : (t.kind, b) ∈ builtins) (ho : o.kind = .symbol .openParen)
    (hargs : Reads (arguments expr) (o :: ts) args fun _ => True) {follow : Kind → Prop} :
    Reads (primary expr) (t :: o :: ts) (.call (some t.line) ⟨some t.line, b.name⟩ args)
      follow := by
  intro c c' hpass _
  obtain ⟨word, ht, hword⟩ := mem_builtins.1 hb
  obtain ⟨hcurrent, hkind, hrest⟩ := uncons hpass ht (by simp)
  have hcall : primary expr c = builtinCall expr b c := by
    rw [primary_run, hkind]
    cases word <;> cases hword <;> rfl
  rw [hcall, builtinCall, bind_of_ok (get_eq_ok.2 ⟨rfl, rfl⟩),
    if_pos (by rw [hpass.peek_one, ho]), bind_of_ok (advance_eq_ok.2 ⟨rfl, rfl⟩), hcurrent,
    bind_of_ok (hargs hrest trivial)]
  rfl

/-- A list is read between its brackets. -/
theorem primary_of_list {expr : Parser Expr} {t u : Token} {es : List Expr} {ts : List Token}
    (ht : t.kind = .symbol .openBracket)
    (hitems : Reads (itemsUntil (.symbol .closeBracket) expr) ts es (· = .symbol .closeBracket))
    (hu : u.kind = .symbol .closeBracket) {follow : Kind → Prop} :
    Reads (primary expr) (t :: (ts ++ [u])) (.list (some t.line) es) follow := by
  intro c c' hpass _
  obtain ⟨hcurrent, hkind, hrest⟩ := uncons hpass ht (by simp)
  obtain ⟨c₁, hinner, hclose⟩ := hrest.split
  obtain ⟨_, hclosed, _⟩ := uncons hclose hu (by simp)
  rw [primary_run, hkind]
  show listLiteral expr c = _
  rw [listLiteral, bind_of_ok (advance_eq_ok.2 ⟨rfl, rfl⟩), hcurrent,
    bind_of_ok (hitems hinner hclosed), bind_of_ok (expect_eq_ok.2 ⟨hclosed, rfl, rfl⟩),
    advance_eq_of_passes hclose hu (by simp)]
  rfl

/-- A group is the expression between its parentheses. -/
theorem primary_of_group {expr : Parser Expr} {t u : Token} {e : Expr} {ts : List Token}
    (ht : t.kind = .symbol .openParen) (he : Reads expr ts e Rank.loosest.Stops)
    (hu : u.kind = .symbol .closeParen) {follow : Kind → Prop} :
    Reads (primary expr) (t :: (ts ++ [u])) e follow := by
  intro c c' hpass _
  obtain ⟨_, hkind, hrest⟩ := uncons hpass ht (by simp)
  obtain ⟨c₁, hinner, hclose⟩ := hrest.split
  obtain ⟨_, hclosed, _⟩ := uncons hclose hu (by simp)
  have hstop : Rank.loosest.Stops c₁.current.kind := by
    rw [hclosed]
    exact Rank.stops_of_symbol (.inl rfl)
  rw [primary_run, hkind]
  show group expr c = _
  rw [group, bind_of_ok (advance_eq_ok.2 ⟨rfl, rfl⟩), bind_of_ok (he hinner hstop),
    bind_of_ok (expect_eq_ok.2 ⟨hclosed, rfl, rfl⟩), advance_eq_of_passes hclose hu (by simp)]
  rfl

/-- One expression without a comma behind it is read alone. -/
theorem commaSeparated_one {expr : Parser Expr} {e : Expr} {ts : List Token} (fuel : Nat)
    (he : Reads expr ts e Rank.loosest.Stops) :
    Reads (commaSeparated expr fuel) ts [e]
      fun k => Rank.loosest.Stops k ∧ k ≠ .symbol .comma := by
  intro c c' hpass hstop
  cases fuel with
  | zero =>
    rw [commaSeparated, bind_of_ok (he hpass hstop.1)]
    rfl
  | succ fuel =>
    rw [commaSeparated, bind_of_ok (he hpass hstop.1), bind_of_ok (accept_of_ne hstop.2)]
    rfl

/-- A comma and further expressions are read with one more unit of fuel. -/
theorem commaSeparated_more {expr : Parser Expr} {e : Expr} {es : List Expr} {t : Token}
    {ts us : List Token} {fuel : Nat} (he : Reads expr ts e Rank.loosest.Stops)
    (ht : t.kind = .symbol .comma)
    (hes : Reads (commaSeparated expr fuel) us es
      fun k => Rank.loosest.Stops k ∧ k ≠ .symbol .comma) :
    Reads (commaSeparated expr (fuel + 1)) (ts ++ t :: us) (e :: es)
      fun k => Rank.loosest.Stops k ∧ k ≠ .symbol .comma := by
  intro c c' hpass hstop
  obtain ⟨c₁, hfirst, hrest⟩ := hpass.split
  obtain ⟨_, hcomma, hrest⟩ := uncons hrest ht (by simp)
  have hstop₁ : Rank.loosest.Stops c₁.current.kind := by
    rw [hcomma]
    exact Rank.stops_of_symbol (.inr (.inr (.inl rfl)))
  rw [commaSeparated, bind_of_ok (he hfirst hstop₁), bind_of_ok (accept_of_eq hcomma)]
  simp only [Option.isSome_some, ↓reduceIte]
  rw [bind_of_ok (hes hrest hstop)]
  rfl

/-- A closing token cannot be mistaken for the first token of an expression. -/
theorem startsExpression_of_close {sign : Symbol} (h : sign = .closeParen ∨ sign = .closeBracket) :
    startsExpression (.symbol sign) = false := by
  rcases h with rfl | rfl <;> rfl

/-- The closing token alone means no items. -/
theorem itemsUntil_nothing {expr : Parser Expr} {close : Kind} :
    Reads (itemsUntil close expr) [] [] (· = close) := by
  intro c c' hpass hclose
  obtain rfl := hpass.eq_of_nil
  rw [itemsUntil, bind_of_ok (isAt_eq_ok.2 ⟨rfl, rfl⟩), if_pos (by simpa using hclose)]
  rfl

/-- Items are not taken for the closing token. -/
theorem itemsUntil_something {expr : Parser Expr} {es : List Expr} {ts : List Token}
    {sign : Symbol} (hsign : sign = .closeParen ∨ sign = .closeBracket)
    (hstart : (Phrase.exprs es).Started ts)
    (hes : ∀ fuel, ts.length ≤ fuel → Reads (commaSeparated expr fuel) ts es
      fun k => Rank.loosest.Stops k ∧ k ≠ .symbol .comma) :
    Reads (itemsUntil (.symbol sign) expr) ts es (· = .symbol sign) := by
  intro c c' hpass hclose
  obtain ⟨t, us, rfl, ht⟩ := hstart
  have hopen : c.current.kind ≠ .symbol sign := by
    rw [hpass.current_eq]
    intro heq
    rw [heq, startsExpression_of_close hsign] at ht
    cases ht
  have hstop : Rank.loosest.Stops c'.current.kind ∧ c'.current.kind ≠ .symbol .comma := by
    rw [hclose]
    rcases hsign with rfl | rfl
    · exact ⟨Rank.stops_of_symbol (.inl rfl), by simp⟩
    · exact ⟨Rank.stops_of_symbol (.inr (.inl rfl)), by simp⟩
  have hfuel : (t :: us).length ≤ c.remaining := by rw [hpass.remaining_eq]; omega
  rw [itemsUntil, bind_of_ok (isAt_eq_ok.2 ⟨rfl, rfl⟩), if_neg (by simpa using hopen),
    bind_of_ok (remaining_eq_ok.2 ⟨rfl, rfl⟩)]
  exact hes _ hfuel hpass hstop

/-- Every phrase of at most `n` tokens is read, if every shorter expression is. -/
theorem read_of_derives {n : Nat} {expr : Parser Expr} (hexpr : ReadsBelow n expr) {φ : Phrase}
    {ts : List Token} (h : Derives φ ts) : φ.Read n expr ts := by
  induction h with
  | operand _ ih =>
    intro hn c c' hpass hstop
    refine ⟨c'.remaining, Nat.le_refl _, ?_⟩
    rw [ofRank_binary, joined, bind_of_ok (reads_of_read ih hn hpass hstop),
      bind_of_ok (remaining_eq_ok.2 ⟨rfl, rfl⟩)]
  | @binary level l ls t op r rs _ hop _ ihl ihr =>
    intro hn c c' hpass hstop
    simp only [List.length_append, List.length_cons] at hn
    obtain ⟨c₁, hleft, hright⟩ := hpass.split
    have hstop₁ : level.operand.Stops c₁.current.kind := by
      rw [hright.current_eq]
      exact Rank.stops_of_mem_operators hop
    obtain ⟨fuel, hfuel, hchain⟩ := ihl (by omega) c c₁ hleft hstop₁
    have hremaining := hright.remaining_eq
    rw [List.length_cons] at hremaining
    -- The loop has fuel left for the operator and for all the tokens behind it.
    obtain ⟨fuel, rfl⟩ : ∃ m, fuel = m + 1 := ⟨fuel - 1, by omega⟩
    refine ⟨fuel, by omega, ?_⟩
    rw [hchain, chain_step hright hop (reads_of_read ihr (by omega)) hstop]
  | @unsigned e ts hd ih =>
    intro hn fuel _ c c' hpass hstop
    obtain ⟨t, us, rfl, ht⟩ := started_of_derives hd
    obtain ⟨fuel', _, haccessors⟩ := ih hn c c' hpass (Rank.stops_primary hstop.call)
    have hpostfixed : postfixed expr c = .ok e c' :=
      haccessors.trans (accessors_of_stops (hstop.accessor (by simp)) fuel')
    cases fuel with
    | zero => exact hpostfixed
    | succ fuel =>
      rw [signed, bind_of_ok (current_eq_ok.2 ⟨rfl, rfl⟩), hpass.current_eq]
      simp only [signOp?_of_startsPrimary ht]
      exact hpostfixed
  | signed hop _ ih =>
    intro hn fuel hfuel c c' hpass hstop
    simp only [List.length_cons] at hn hfuel
    have hsome := signOp?_eq_some.2 hop
    obtain ⟨hcurrent, _, hrest⟩ := uncons hpass rfl (ne_eof_of_mem_signs hop)
    obtain ⟨fuel, rfl⟩ : ∃ m, fuel = m + 1 := ⟨fuel - 1, by omega⟩
    rw [signed, bind_of_ok (current_eq_ok.2 ⟨rfl, rfl⟩), hcurrent]
    simp only [hsome]
    rw [bind_of_ok (advance_eq_ok.2 ⟨rfl, rfl⟩),
      bind_of_ok (ih (by omega) fuel (by omega) hrest hstop)]
    rfl
  | plain _ ih =>
    intro hn c c' hpass hstop
    refine ⟨c'.remaining, Nat.le_refl _, ?_⟩
    rw [postfixed, bind_of_ok (ih hn hpass hstop), bind_of_ok (remaining_eq_ok.2 ⟨rfl, rfl⟩)]
  | @index e ts t i is u _ ht hi hu ih _ =>
    intro hn c c' hpass _
    simp only [List.length_append, List.length_cons] at hn
    obtain ⟨c₁, htarget, hindex⟩ := hpass.split
    have hstop₁ : Rank.primary.Stops c₁.current.kind := by
      rw [hindex.current_eq, ht]
      exact Rank.stops_primary (by simp)
    obtain ⟨fuel, hfuel, haccessors⟩ := ih (by omega) c c₁ htarget hstop₁
    have hremaining := hindex.remaining_eq
    simp only [List.length_append, List.length_cons] at hremaining
    obtain ⟨fuel, rfl⟩ : ∃ m, fuel = m + 1 := ⟨fuel - 1, by omega⟩
    refine ⟨fuel, by omega, ?_⟩
    rw [haccessors, accessors_index hindex ht (hexpr hi (by omega)) hu]
  | @property e ts t m _ ht hm ih =>
    intro hn c c' hpass _
    simp only [List.length_append, List.length_cons] at hn
    obtain ⟨c₁, htarget, hproperty⟩ := hpass.split
    have hstop₁ : Rank.primary.Stops c₁.current.kind := by
      rw [hproperty.current_eq, ht]
      exact Rank.stops_primary (by simp)
    obtain ⟨fuel, hfuel, haccessors⟩ := ih (by omega) c c₁ htarget hstop₁
    have hremaining := hproperty.remaining_eq
    simp only [List.length_cons] at hremaining
    obtain ⟨fuel, rfl⟩ : ∃ m, fuel = m + 1 := ⟨fuel - 1, by omega⟩
    refine ⟨fuel, by omega, ?_⟩
    rw [haccessors, accessors_property hproperty ht hm]
  | constant hv => exact fun _ => primary_of_constant hv
  | number ht hx => exact fun _ => primary_of_number ht hx
  | text ht =>
    intro _ c c' hpass _
    rw [primary_run, (uncons hpass ht (by simp)).2.1, hpass.current_eq]
    exact constant_reads ht (by simp) hpass trivial
  | name ht => exact fun _ => primary_of_name ht
  | call ht ho _ hu ih =>
    intro hn
    simp only [List.length_append, List.length_cons] at hn
    exact primary_of_call ht ho (arguments_reads ho (ih (by omega) _ (.inl rfl)) hu)
  | builtin hb ho _ hu ih =>
    intro hn
    simp only [List.length_append, List.length_cons] at hn
    exact primary_of_builtin hb ho (arguments_reads ho (ih (by omega) _ (.inl rfl)) hu)
  | list ht _ hu ih =>
    intro hn
    simp only [List.length_append, List.length_cons] at hn
    exact primary_of_list ht (ih (by omega) _ (.inr rfl)) hu
  | group ht hd hu _ =>
    intro hn
    simp only [List.length_append, List.length_cons] at hn
    exact primary_of_group ht (hexpr hd (by omega)) hu
  | one hd _ => exact fun hn fuel _ => commaSeparated_one fuel (hexpr hd hn)
  | more hd ht _ _ ih =>
    intro hn fuel hfuel
    simp only [List.length_append, List.length_cons] at hn hfuel
    obtain ⟨fuel, rfl⟩ : ∃ m, fuel = m + 1 := ⟨fuel - 1, by omega⟩
    exact commaSeparated_more (hexpr hd (by omega)) ht (ih (by omega) fuel (by omega))
  | nothing => exact fun _ _ _ => itemsUntil_nothing
  | something hd ih =>
    exact fun hn sign hsign => itemsUntil_something hsign (started_of_derives hd) (ih hn)

/-- The fuel is enough for expressions with fewer tokens. -/
theorem expressionWithin_reads (depth : Nat) : ReadsBelow depth (expressionWithin depth) := by
  induction depth with
  | zero =>
    intro e ts _ hlt
    exact absurd hlt (Nat.not_lt_zero _)
  | succ depth ih =>
    intro e ts hd hlt
    exact reads_of_read (read_of_derives ih hd) (Nat.le_of_lt_succ hlt)

/-- A whole expression is read wherever nothing continues it. -/
theorem expression_reads {e : Expr} {ts : List Token} (h : Derives (.expr .loosest e) ts) :
    Reads expression ts e Rank.loosest.Stops := by
  intro c c' hpass hstop
  have hdepth : ts.length < c.remaining + 1 := by rw [hpass.remaining_eq]; omega
  rw [expression, bind_of_ok (remaining_eq_ok.2 ⟨rfl, rfl⟩)]
  exact expressionWithin_reads _ h hdepth hpass hstop

/-- Expressions between commas are read wherever nothing continues the last one. -/
theorem expressions_read {es : List Expr} {ts : List Token} (h : Derives (.exprs es) ts)
    {fuel : Nat} (hfuel : ts.length ≤ fuel) :
    Reads (commaSeparated expression fuel) ts es
      fun k => Rank.loosest.Stops k ∧ k ≠ .symbol .comma :=
  have hexpr : ReadsBelow (ts.length + 1) expression := fun hd _ => expression_reads hd
  read_of_derives hexpr h (Nat.lt_succ_self _) fuel hfuel

end Parser

end Boli
