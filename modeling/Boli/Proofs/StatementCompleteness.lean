import Boli.Proofs.StatementSoundness

/-!
# Statements that derive from the grammar are read

The counterpart of the soundness of statements.  A statement is read wherever no keyword follows
that would give a choice an alternative (`Settled`).  Its first token tells what to read, and for a
name or the print keyword the tokens behind it do (`statementWith_expression`).

The induction is on the derivation, with the reading of all shorter statements as a hypothesis.
-/

namespace Boli

open Grammar

namespace Grammar

/-- No choice goes on with a token of the kind. -/
def Settled (k : Kind) : Prop :=
  k ≠ .keyword .otherwise ∧ k ≠ .keyword .otherwiseWhen

/-- A statement may start with a token of the kind. -/
def startsStatement : Kind → Bool
  | .identifier | .symbol .openBrace => true
  | .keyword .declare | .keyword .when | .keyword .loop | .keyword .function => true
  | .keyword .giveBack | .keyword .stop | .keyword .skip => true
  | .keyword word => word.builtin?.isSome
  | _ => false

theorem startsStatement_of_opens {k : Kind} {e : Expr} (h : Opens k e) : startsStatement k := by
  rcases h.1 with rfl | ⟨b, hb⟩
  · rfl
  · obtain ⟨word, rfl, hword⟩ := mem_builtins.1 hb
    cases word <;> cases hword <;> rfl

/-- No statement starts with a keyword that would give a choice an alternative. -/
theorem settled_of_startsStatement {k : Kind} (h : startsStatement k) : Settled k := by
  constructor
  · rintro rfl
    cases h
  · rintro rfl
    cases h

/-- A block starts with its brace. -/
theorem started_of_block {b : Block} {ts : List Token} (h : Builds (.block b) ts) :
    ∃ t us, ts = t :: us ∧ t.kind = .symbol .openBrace := by
  cases h with
  | braces ht _ _ => exact ⟨_, _, rfl, ht⟩

/-- A statement starts with a token that tells which one it is. -/
theorem started_of_stmt {s : Stmt} {ts : List Token} (h : Builds (.stmt s) ts) :
    ∃ t us, ts = t :: us ∧ startsStatement t.kind := by
  cases h with
  | block hb =>
    obtain ⟨t, us, rfl, ht⟩ := started_of_block hb
    exact ⟨t, us, rfl, by rw [ht]; rfl⟩
  | expression _ hopens _ => exact ⟨_, _, rfl, startsStatement_of_opens hopens⟩
  | declare ht | declareAs ht | assign ht | print ht | branch ht | loop ht | function ht
  | functionOf ht | giveBack ht | giveBackOf ht | stop ht | skip ht =>
    exact ⟨_, _, rfl, by rw [ht]; rfl⟩

end Grammar

namespace Parser

/-! ## Parts of statements -/

/-- A token that is expected is taken, and the rest of the stretch is ahead. -/
theorem expect_of_passes {k : Kind} {what : Expectation} {t : Token} {ts : List Token}
    {c c' : Cursor} (hpass : c.Passes (t :: ts) c') (ht : t.kind = k) (hk : k ≠ .eof) :
    expect k what c = .ok t c.advance ∧ c.advance.Passes ts c' := by
  obtain ⟨hcurrent, hkind, hrest⟩ := uncons hpass ht hk
  exact ⟨expect_eq_ok.2 ⟨hkind, hcurrent, rfl⟩, hrest⟩

theorem semicolon_of_passes {clause : Clause} {u : Token} {c c' : Cursor} (hpass : c.Passes [u] c')
    (hu : u.kind = .symbol .semicolon) : semicolon clause c = .ok () c' :=
  semicolon_eq_ok.2 ⟨(uncons hpass hu (by simp)).2.1, advance_eq_of_passes hpass hu (by simp)⟩

/-- An expression is read in front of a semicolon or a closing parenthesis. -/
theorem expression_of_passes {e : Expr} {ts us : List Token} {u : Token} {sign : Symbol}
    {c c' : Cursor} (hpass : c.Passes (ts ++ u :: us) c') (hd : Derives (.expr .loosest e) ts)
    (hu : u.kind = .symbol sign) (hsign : sign = .closeParen ∨ sign = .semicolon) :
    ∃ c₁, expression c = .ok e c₁ ∧ c₁.Passes (u :: us) c' := by
  obtain ⟨c₁, hvalue, hend⟩ := hpass.split
  refine ⟨c₁, expression_reads hd hvalue ?_, hend⟩
  rw [hend.current_eq, hu]
  rcases hsign with rfl | rfl
  · exact Rank.stops_of_symbol (.inl rfl)
  · exact Rank.stops_of_symbol (.inr (.inr (.inr rfl)))

/-- Statements of fewer than `n` tokens are read wherever no alternative follows. -/
def ReadsStatementsBelow (n : Nat) (stmt : Parser Stmt) : Prop :=
  ∀ {s ts}, Builds (.stmt s) ts → ts.length < n → Reads stmt ts s Settled

/-- What follows statements in a sequence is another statement or the closing token. -/
theorem settled_of_stmts {ss : List Stmt} {ts : List Token} {c c' : Cursor} {close : Kind}
    (h : Builds (.stmts ss) ts) (hpass : c.Passes ts c') (hclose : c'.current.kind = close)
    (hsettled : Settled close) : Settled c.current.kind := by
  cases h with
  | none =>
    obtain rfl := hpass.eq_of_nil
    rw [hclose]
    exact hsettled
  | more hs _ =>
    obtain ⟨t, us, rfl, ht⟩ := started_of_stmt hs
    rw [hpass.current_eq]
    exact settled_of_startsStatement ht

/-- No statements are read in front of the closing token. -/
theorem statementsUntil_none {stmt : Parser Stmt} {close : Kind} (fuel : Nat) :
    Reads (statementsUntil close stmt fuel) [] [] (· = close) := by
  intro c c' hpass hclose
  obtain rfl := hpass.eq_of_nil
  cases fuel with
  | zero => rfl
  | succ fuel =>
    rw [statementsUntil, bind_of_ok (current_eq_ok.2 ⟨rfl, rfl⟩), if_pos (.inl hclose)]
    rfl

/-- A statement and further ones are read with one more unit of fuel. -/
theorem statementsUntil_more {stmt : Parser Stmt} {close : Kind} {s : Stmt} {ss : List Stmt}
    {ts us : List Token} {fuel : Nat} (hclose : close = .symbol .closeBrace ∨ close = .finish)
    (hs : Builds (.stmt s) ts) (hss : Builds (.stmts ss) us) (hread : Reads stmt ts s Settled)
    (hreads : Reads (statementsUntil close stmt fuel) us ss (· = close)) :
    Reads (statementsUntil close stmt (fuel + 1)) (ts ++ us) (s :: ss) (· = close) := by
  intro c c' hpass hk
  obtain ⟨c₁, hfirst, hrest⟩ := hpass.split
  have hsettled : Settled close := by rcases hclose with rfl | rfl <;> exact ⟨nofun, nofun⟩
  have hopen : ¬(c.current.kind = close ∨ c.current.kind = .eof) := by
    obtain ⟨t, vs, rfl, ht⟩ := started_of_stmt hs
    rw [hfirst.current_eq]
    rintro (h | h)
    · rw [h] at ht
      rcases hclose with rfl | rfl <;> cases ht
    · rw [h] at ht
      cases ht
  rw [statementsUntil, bind_of_ok (current_eq_ok.2 ⟨rfl, rfl⟩), if_neg hopen,
    bind_of_ok (hread hfirst (settled_of_stmts hss hrest hk hsettled)),
    bind_of_ok (hreads hrest hk)]
  rfl

/-- A block is read between its braces. -/
theorem block_of_stmts {stmt : Parser Stmt} {ss : List Stmt} {t u : Token} {ts : List Token}
    (ht : t.kind = .symbol .openBrace) (hu : u.kind = .symbol .closeBrace)
    (hreads : ∀ fuel, ts.length ≤ fuel →
      Reads (statementsUntil (.symbol .closeBrace) stmt fuel) ts ss (· = .symbol .closeBrace)) :
    Reads (block stmt) (t :: (ts ++ [u])) (.mk (some t.line) ss) fun _ => True := by
  intro c c' hpass _
  obtain ⟨hopen, hrest⟩ := expect_of_passes hpass ht (by simp)
  obtain ⟨c₁, hinner, hclose⟩ := hrest.split
  obtain ⟨hcurrent, hkind, _⟩ := uncons hclose hu (by simp)
  have hfuel : ts.length ≤ c.advance.remaining := by rw [hinner.remaining_eq]; omega
  rw [block, bind_of_ok hopen, bind_of_ok (remaining_eq_ok.2 ⟨rfl, rfl⟩),
    bind_of_ok (hreads _ hfuel hinner hkind),
    bind_of_ok (expect_eq_ok.2 ⟨hkind, hcurrent, advance_eq_of_passes hclose hu (by simp)⟩)]
  rfl

/-- A condition is read in front of the block that it guards. -/
theorem condition_of_passes {word : String} {e : Expr} {o u : Token} {ts us : List Token}
    {c c' : Cursor} (hpass : c.Passes (o :: (ts ++ u :: us)) c') (ho : o.kind = .symbol .openParen)
    (hd : Derives (.expr .loosest e) ts) (hu : u.kind = .symbol .closeParen) :
    ∃ c₁, condition word c = .ok e c₁ ∧ c₁.Passes us c' := by
  obtain ⟨hopen, hrest⟩ := expect_of_passes hpass ho (by simp)
  obtain ⟨c₁, hvalue, hend⟩ := expression_of_passes hrest hd hu (.inl rfl)
  obtain ⟨hclose, hafter⟩ := expect_of_passes hend hu (by simp)
  refine ⟨c₁.advance, ?_, hafter⟩
  rw [condition, bind_of_ok hopen, bind_of_ok hvalue, bind_of_ok hclose]
  rfl

/-- Names between commas are read as parameters if they are new. -/
theorem parameters_reads {ns : List String} {ps : List Token} (h : Names ns ps)
    (hnodup : ns.Nodup) :
    ∀ {seen fuel}, (∀ n ∈ ns, n ∉ seen) → ps.length ≤ fuel →
      Reads (parameters seen fuel) ps (seen.reverse ++ ns) (· ≠ .symbol .comma) := by
  induction h with
  | @one t ht =>
    intro seen fuel hnew hfuel c c' hpass hk
    obtain ⟨fuel, rfl⟩ : ∃ m, fuel = m + 1 := ⟨fuel - 1, by simp at hfuel; omega⟩
    have hseen : ¬seen.contains t.value := by simpa using hnew
    rw [parameters, bind_of_ok (expect_of_passes hpass ht (by simp)).1, if_neg hseen,
      advance_eq_of_passes hpass ht (by simp), bind_of_ok (accept_of_ne hk)]
    simp [pure_eq_ok]
  | @more ns ts n t hn ht hns ih =>
    intro seen fuel hnew hfuel c c' hpass hk
    simp only [List.length_cons] at hfuel
    obtain ⟨fuel, rfl⟩ : ∃ m, fuel = m + 1 := ⟨fuel - 1, by omega⟩
    obtain ⟨hname, hrest⟩ := expect_of_passes hpass hn (by simp)
    obtain ⟨_, hcomma, hafter⟩ := uncons hrest ht (by simp)
    obtain ⟨hfresh, hnodup⟩ := List.nodup_cons.1 hnodup
    have hseen : ¬seen.contains n.value := by simpa using hnew _ (.head _)
    have hnew' : ∀ m ∈ ns, m ∉ n.value :: seen := by
      intro m hm hmem
      rcases List.mem_cons.1 hmem with rfl | hmem
      · exact hfresh hm
      · exact hnew m (.tail _ hm) hmem
    rw [parameters, bind_of_ok hname, if_neg hseen, bind_of_ok (accept_of_eq hcomma)]
    have hread := ih hnodup hnew' (by omega : ts.length ≤ fuel) hafter hk
    simpa using hread

/-! ## Forms of statements -/

/-- The value behind the assignment sign of a declaration. -/
theorem initial?_of_passes {e : Expr} {a u : Token} {ts : List Token} {c c' : Cursor}
    (hpass : c.Passes (a :: (ts ++ [u])) c') (ha : a.kind = .symbol .assign)
    (hd : Derives (.expr .loosest e) ts) (hu : u.kind = .symbol .semicolon) :
    ∃ c₁, initial? c = .ok (some e) c₁ ∧ c₁.Passes [u] c' := by
  obtain ⟨_, hkind, hrest⟩ := uncons hpass ha (by simp)
  obtain ⟨c₁, hvalue, hend⟩ := expression_of_passes hrest hd hu (.inr rfl)
  refine ⟨c₁, ?_, hend⟩
  rw [initial?, bind_of_ok (accept_of_eq hkind)]
  exact map_eq_ok.2 ⟨e, hvalue, rfl⟩

/-- A declaration is read with its value, if it has one. -/
theorem declaration_of_passes {v : Option Expr} {t n u : Token} {ts : List Token} {c c₁ c' : Cursor}
    (hpass : c.Passes (t :: n :: ts) c') (ht : t.kind = .keyword .declare)
    (hn : n.kind = .identifier) (hv : initial? c.advance.advance = .ok v c₁)
    (hend : c₁.Passes [u] c') (hu : u.kind = .symbol .semicolon) :
    declaration c = .ok (.declare (some t.line) n.value v) c' := by
  obtain ⟨hcurrent, _, hrest⟩ := uncons hpass ht (by simp)
  obtain ⟨hname, _⟩ := expect_of_passes hrest hn (by simp)
  rw [declaration, bind_of_ok (advance_eq_ok.2 ⟨hcurrent, rfl⟩), bind_of_ok hname, bind_of_ok hv,
    bind_of_ok (semicolon_of_passes hend hu)]
  rfl

theorem assignment_of_passes {e : Expr} {n a u : Token} {ts : List Token} {c c' : Cursor}
    (hpass : c.Passes (n :: a :: (ts ++ [u])) c') (hn : n.kind = .identifier)
    (ha : a.kind = .symbol .assign) (hd : Derives (.expr .loosest e) ts)
    (hu : u.kind = .symbol .semicolon) :
    assignment c = .ok (.assign (some n.line) n.value e) c' := by
  obtain ⟨hcurrent, _, hrest⟩ := uncons hpass hn (by simp)
  obtain ⟨hassign, hkind, hafter⟩ := uncons hrest ha (by simp)
  obtain ⟨c₁, hvalue, hend⟩ := expression_of_passes hafter hd hu (.inr rfl)
  rw [assignment, bind_of_ok (advance_eq_ok.2 ⟨hcurrent, rfl⟩),
    bind_of_ok (eat_eq_ok.2 ⟨hkind, hassign, rfl⟩), bind_of_ok hvalue,
    bind_of_ok (semicolon_of_passes hend hu)]
  rfl

/-- The values of a print statement are read up to its semicolon. -/
theorem print_of_passes {es : List Expr} {t u : Token} {ts : List Token} {c c' : Cursor}
    (hpass : c.Passes (t :: (ts ++ [u])) c') (ht : t.kind = .keyword .print)
    (hd : Derives (.exprs es) ts) (hu : u.kind = .symbol .semicolon) :
    print c = .ok (.print (some t.line) es) c' := by
  obtain ⟨hcurrent, _, hrest⟩ := uncons hpass ht (by simp)
  obtain ⟨c₁, hvalues, hend⟩ := hrest.split
  have hstop : Rank.loosest.Stops c₁.current.kind ∧ c₁.current.kind ≠ .symbol .comma := by
    rw [hend.current_eq, hu]
    exact ⟨Rank.stops_of_symbol (.inr (.inr (.inr rfl))), nofun⟩
  have hfuel : ts.length ≤ c.advance.remaining := by rw [hvalues.remaining_eq]; omega
  rw [print, bind_of_ok (advance_eq_ok.2 ⟨hcurrent, rfl⟩),
    bind_of_ok (remaining_eq_ok.2 ⟨rfl, rfl⟩),
    bind_of_ok (expressions_read hd hfuel hvalues hstop),
    bind_of_ok (semicolon_of_passes hend hu)]
  rfl

theorem loop_of_passes {stmt : Parser Stmt} {e : Expr} {b : Block} {t : Token} {ts : List Token}
    {c c₁ c' : Cursor} (hpass : c.Passes (t :: ts) c') (ht : t.kind = .keyword .loop)
    (he : condition Keyword.loop.spelling c.advance = .ok e c₁) (hb : block stmt c₁ = .ok b c') :
    loop stmt c = .ok (.loop (some t.line) e b) c' := by
  obtain ⟨hcurrent, _, _⟩ := uncons hpass ht (by simp)
  rw [loop, bind_of_ok (advance_eq_ok.2 ⟨hcurrent, rfl⟩), bind_of_ok he, bind_of_ok hb]
  rfl

/-- A function is read up to the end of its block. -/
theorem function_of_passes {stmt : Parser Stmt} {ns : List String} {b : Block} {t n o u : Token}
    {ts us : List Token} {c c₁ c' : Cursor} (hpass : c.Passes (t :: n :: o :: ts) c')
    (ht : t.kind = .keyword .function) (hn : n.kind = .identifier)
    (ho : o.kind = .symbol .openParen) (hns : parameterList c.advance.advance.advance = .ok ns c₁)
    (hrest : c₁.Passes (u :: us) c') (hu : u.kind = .symbol .closeParen)
    (hb : Reads (block stmt) us b fun _ => True) :
    function stmt c = .ok (.function (some t.line) n.value ns b) c' := by
  obtain ⟨hcurrent, _, hafter⟩ := uncons hpass ht (by simp)
  obtain ⟨hname, hafter⟩ := expect_of_passes hafter hn (by simp)
  obtain ⟨hopen, _⟩ := expect_of_passes hafter ho (by simp)
  obtain ⟨hclose, hblock⟩ := expect_of_passes hrest hu (by simp)
  rw [function, bind_of_ok (advance_eq_ok.2 ⟨hcurrent, rfl⟩), bind_of_ok hname, bind_of_ok hopen,
    bind_of_ok hns, bind_of_ok hclose, bind_of_ok (hb hblock trivial)]
  rfl

/-- Names without repetition are read as parameters. -/
theorem parameterList_of_names {ns : List String} {ps us : List Token} {u : Token} {c c' : Cursor}
    (hpass : c.Passes (ps ++ u :: us) c') (hns : Names ns ps) (hnodup : ns.Nodup)
    (hu : u.kind = .symbol .closeParen) :
    ∃ c₁, parameterList c = .ok ns c₁ ∧ c₁.Passes (u :: us) c' := by
  obtain ⟨c₁, hnames, hend⟩ := hpass.split
  refine ⟨c₁, ?_, hend⟩
  have hfollow : c₁.current.kind ≠ .symbol .comma := by
    rw [hend.current_eq, hu]
    simp
  have hopen : c.current.kind ≠ .symbol .closeParen := by
    cases hns with
    | one hn | more hn _ _ =>
      rw [hnames.current_eq, hn]
      simp
  have hfuel : ps.length ≤ c.remaining + 1 := by rw [hnames.remaining_eq]; omega
  rw [parameterList, bind_of_ok (isAt_eq_ok.2 ⟨rfl, rfl⟩), if_neg (by simpa using hopen),
    bind_of_ok (remaining_eq_ok.2 ⟨rfl, rfl⟩)]
  exact parameters_reads hns hnodup (fun _ _ => List.not_mem_nil) hfuel hnames hfollow

/-- The value in front of the semicolon that ends a call. -/
theorem given?_of_passes {e : Expr} {u : Token} {ts : List Token} {c c' : Cursor}
    (hpass : c.Passes (ts ++ [u]) c') (hd : Derives (.expr .loosest e) ts)
    (hu : u.kind = .symbol .semicolon) :
    ∃ c₁, given? c = .ok (some e) c₁ ∧ c₁.Passes [u] c' := by
  obtain ⟨c₁, hvalue, hend⟩ := expression_of_passes hpass hd hu (.inr rfl)
  have hopen : c.current.kind ≠ .symbol .semicolon := by
    obtain ⟨t, us, rfl, ht⟩ := (started_of_derives hd).expr
    rw [hpass.current_eq]
    intro heq
    rw [heq] at ht
    cases ht
  refine ⟨c₁, ?_, hend⟩
  rw [given?, bind_of_ok (isAt_eq_ok.2 ⟨rfl, rfl⟩), if_neg (by simpa using hopen)]
  exact map_eq_ok.2 ⟨e, hvalue, rfl⟩

theorem giveBack_of_passes {v : Option Expr} {t u : Token} {ts : List Token} {c c₁ c' : Cursor}
    (hpass : c.Passes (t :: ts) c') (ht : t.kind = .keyword .giveBack)
    (hv : given? c.advance = .ok v c₁) (hend : c₁.Passes [u] c')
    (hu : u.kind = .symbol .semicolon) : giveBack c = .ok (.giveBack (some t.line) v) c' := by
  obtain ⟨hcurrent, _, _⟩ := uncons hpass ht (by simp)
  rw [giveBack, bind_of_ok (advance_eq_ok.2 ⟨hcurrent, rfl⟩), bind_of_ok hv,
    bind_of_ok (semicolon_of_passes hend hu)]
  rfl

theorem bare_of_passes {make : Line → Stmt} {clause : Clause} {word : Keyword} {t u : Token}
    {c c' : Cursor} (hpass : c.Passes [t, u] c') (ht : t.kind = .keyword word)
    (hu : u.kind = .symbol .semicolon) : bare make clause c = .ok (make (some t.line)) c' := by
  obtain ⟨hcurrent, _, hend⟩ := uncons hpass ht (by simp)
  rw [bare, bind_of_ok (advance_eq_ok.2 ⟨hcurrent, rfl⟩), bind_of_ok (semicolon_of_passes hend hu)]
  rfl

/-- An expression for its effects is read up to its semicolon. -/
theorem expressionStatement_of_passes {e : Expr} {t u : Token} {ts : List Token} {c c' : Cursor}
    (hpass : c.Passes (t :: (ts ++ [u])) c') (hd : Derives (.expr .loosest e) (t :: ts))
    (hu : u.kind = .symbol .semicolon) :
    expressionStatement c = .ok (.expression (some t.line) e) c' := by
  obtain ⟨c₁, hvalue, hend⟩ := expression_of_passes hpass hd hu (.inr rfl)
  rw [expressionStatement, bind_of_ok (current_eq_ok.2 ⟨hpass.current_eq, rfl⟩), bind_of_ok hvalue,
    bind_of_ok (semicolon_of_passes hend hu)]
  rfl

/-- The alternative of a choice, as far as reading is concerned. -/
theorem branch_of_alternate {stmt : Parser Stmt} {e : Expr} {b : Block} {v : Option Stmt}
    {k : Token} {fuel : Nat} {c c₁ c₂ c' : Cursor} (he : condition k.value c = .ok e c₁)
    (hb : block stmt c₁ = .ok b c₂) (hv : alternate? stmt (branch stmt fuel) c₂ = .ok v c') :
    branch stmt (fuel + 1) k c = .ok (.branch (some k.line) e (.block b) v) c' := by
  rw [branch, bind_of_ok he, bind_of_ok hb, bind_of_ok hv]
  rfl

/-- Where no keyword follows, a choice has no alternative. -/
theorem alternate?_none {stmt : Parser Stmt} {choice : Token → Parser Stmt} {c : Cursor}
    (h : Settled c.current.kind) : alternate? stmt choice c = .ok none c := by
  rw [alternate?, bind_of_ok (accept_of_ne h.2)]
  show (accept (.keyword .otherwise) >>= _) c = _
  rw [bind_of_ok (accept_of_ne h.1)]
  rfl

/-- One keyword starts another choice. -/
theorem alternate?_otherwiseWhen {stmt : Parser Stmt} {choice : Token → Parser Stmt} {s : Stmt}
    {t : Token} {us : List Token} {c c' : Cursor} (hpass : c.Passes (t :: us) c')
    (ht : t.kind = .keyword .otherwiseWhen) (hs : choice t c.advance = .ok s c') :
    alternate? stmt choice c = .ok (some s) c' := by
  obtain ⟨hcurrent, hkind, _⟩ := uncons hpass ht (by simp)
  rw [alternate?, bind_of_ok (accept_of_eq hkind), hcurrent]
  exact map_eq_ok.2 ⟨s, hs, rfl⟩

/-- Behind the other keyword stands a choice or a block. -/
theorem alternate?_otherwise {stmt : Parser Stmt} {choice : Token → Parser Stmt} {t : Token}
    {us : List Token} {c c' : Cursor} (hpass : c.Passes (t :: us) c')
    (ht : t.kind = .keyword .otherwise) :
    alternate? stmt choice c =
      if c.advance.current.kind = .keyword .when then
        (some <$> choice c.advance.current) c.advance.advance
      else
        ((some ∘ Stmt.block) <$> block stmt) c.advance := by
  obtain ⟨_, hkind, _⟩ := uncons hpass ht (by simp)
  have hne : c.current.kind ≠ .keyword .otherwiseWhen := by
    rw [hkind]
    simp
  rw [alternate?, bind_of_ok (accept_of_ne hne)]
  show (accept (.keyword .otherwise) >>= _) c = _
  rw [bind_of_ok (accept_of_eq hkind)]
  show (isAt (.keyword .when) >>= _) c.advance = _
  rw [bind_of_ok (isAt_eq_ok.2 ⟨rfl, rfl⟩)]
  by_cases hw : c.advance.current.kind = .keyword .when
  · rw [if_pos hw, if_pos (by simpa using hw), bind_of_ok (advance_eq_ok.2 ⟨rfl, rfl⟩)]
  · rw [if_neg hw, if_neg (by simpa using hw)]

/-! ## Expressions for their effects -/

/-- An assignment sign ends an expression. -/
theorem stops_assign (rank : Rank) : rank.Stops (.symbol .assign) :=
  ⟨nofun, fun _ => ⟨nofun, nofun⟩, fun level _ => by cases level <;> rfl⟩

/-- No assignment sign stands behind the name that an expression starts with.  There the name alone
would have been read. -/
theorem peek_one_ne_assign {e : Expr} {t u : Token} {ts : List Token} {c c' : Cursor}
    (hpass : c.Passes (t :: (ts ++ [u])) c') (hd : Derives (.expr .loosest e) (t :: ts))
    (ht : t.kind = .identifier) (hu : u.kind = .symbol .semicolon) :
    (c.peek 1).kind ≠ .symbol .assign := by
  intro hassign
  obtain ⟨c₁, hvalue, hend⟩ := expression_of_passes hpass hd hu (.inr rfl)
  have hparts : c.Passes ([t] ++ (ts ++ [u])) c' := hpass
  obtain ⟨c₂, hname, hrest⟩ := hparts.split
  have hcurrent : c.peek 1 = c₂.current := by
    rw [Cursor.peek, hpass.ahead_eq]
    have hrest := hrest.rest_eq
    rw [← hrest]
    rfl
  have hstop : Rank.loosest.Stops c₂.current.kind := by
    rw [← hcurrent, hassign]
    exact stops_assign _
  have hread := expression_reads (derives_name ht) hname hstop
  rw [hvalue] at hread
  cases hread
  rw [hcurrent, hend.current_eq, hu] at hassign
  cases hassign

/-- An expression that may stand for its effects is taken for nothing else. -/
theorem statementWith_expression {stmt : Parser Stmt} {e : Expr} {t u : Token} {ts : List Token}
    {c c' : Cursor} (hpass : c.Passes (t :: (ts ++ [u])) c')
    (hd : Derives (.expr .loosest e) (t :: ts)) (hopens : Opens t.kind e)
    (hu : u.kind = .symbol .semicolon) :
    statementWith stmt c = expressionStatement c := by
  rw [statementWith_run]
  rcases hopens.1 with ht | ⟨b, hb⟩
  · obtain ⟨_, hkind, _⟩ := uncons hpass ht (by simp)
    rw [hkind]
    exact if_neg (peek_one_ne_assign hpass hd ht hu)
  · obtain ⟨word, ht, hword⟩ := mem_builtins.1 hb
    obtain ⟨_, hkind, _⟩ := uncons hpass ht (by simp)
    by_cases hprint : word = .print
    · subst hprint
      obtain ⟨callee, args, o, us, v, vs, rfl, ho, hitems, hv, hleading⟩ := call_of_derives hd ht
      have hahead : c.ahead = o :: (us ++ v :: (vs ++ [u] ++ c'.rest)) := by
        rw [hpass.ahead_eq]
        simp
      have hcall := (Cursor.isPrintCall_iff hahead ho hitems hv).2 (hopens.2 _ _ _ ht hleading)
      rw [hkind]
      exact if_pos hcall
    · rw [hkind]
      cases word <;> cases hword
      · exact absurd rfl hprint
      · rfl
      · rfl
      · rfl
      · rfl

end Parser

/-! ## Whole statements -/

open Boli.Parser in
/-- What is known of the reading of a form of at most `n` tokens. -/
def Grammar.Form.Read (n : Nat) (stmt : Parser Stmt) : Form → List Token → Prop
  | .stmt s, ts => ts.length ≤ n → Reads (statementWith stmt) ts s Settled
  | .stmts ss, ts => ts.length < n → ∀ close, close = .symbol .closeBrace ∨ close = .finish →
    ∀ fuel, ts.length ≤ fuel → Reads (statementsUntil close stmt fuel) ts ss (· = close)
  | .block b, ts => ts.length ≤ n → Reads (Parser.block stmt) ts b fun _ => True
  | .guarded e b, ts => ts.length ≤ n → ∀ word c c', c.Passes ts c' →
    ∃ c₁, condition word c = .ok e c₁ ∧ Parser.block stmt c₁ = .ok b c'
  | .choice k s, ts => ts.length ≤ n → ∀ fuel, ts.length < fuel →
    Reads (branch stmt fuel k) ts s Settled

namespace Parser

/-- Every form of at most `n` tokens is read, if every shorter statement is. -/
theorem read_of_builds {n : Nat} {stmt : Parser Stmt} (hstmt : ReadsStatementsBelow n stmt)
    {φ : Form} {ts : List Token} (h : Builds φ ts) : φ.Read n stmt ts := by
  induction h with
  | declare ht hname hu =>
    intro _ c c' hpass _
    obtain ⟨_, hkind, hrest⟩ := uncons hpass ht (by simp)
    obtain ⟨_, _, hend⟩ := uncons hrest hname (by simp)
    have hne : c.advance.advance.current.kind ≠ .symbol .assign := by
      rw [hend.current_eq, hu]
      simp
    have hnone : initial? c.advance.advance = .ok none c.advance.advance := by
      rw [initial?, bind_of_ok (accept_of_ne hne)]
      rfl
    rw [statementWith_run, hkind]
    exact declaration_of_passes hpass ht hname hnone hend hu
  | declareAs ht hname ha hd hu =>
    intro _ c c' hpass _
    obtain ⟨_, hkind, hrest⟩ := uncons hpass ht (by simp)
    obtain ⟨_, _, hrest⟩ := uncons hrest hname (by simp)
    obtain ⟨c₁, hvalue, hend⟩ := initial?_of_passes hrest ha hd hu
    rw [statementWith_run, hkind]
    exact declaration_of_passes hpass ht hname hvalue hend hu
  | assign hname ha hd hu =>
    intro _ c c' hpass _
    obtain ⟨_, hkind, _⟩ := uncons hpass hname (by simp)
    have hassign : (c.peek 1).kind = .symbol .assign := by rw [hpass.peek_one, ha]
    rw [statementWith_run, hkind]
    exact (if_pos hassign).trans (assignment_of_passes hpass hname ha hd hu)
  | print ht hd hu =>
    intro _ c c' hpass _
    obtain ⟨_, hkind, _⟩ := uncons hpass ht (by simp)
    have hahead := hpass.ahead_eq
    rw [List.append_assoc] at hahead
    have hcall := Cursor.isPrintCall_of_exprs hahead hd
    rw [statementWith_run, hkind]
    exact (if_neg (by simp [hcall])).trans (print_of_passes hpass ht hd hu)
  | branch ht _ ih =>
    intro hn c c' hpass hsettled
    simp only [List.length_cons] at hn
    obtain ⟨hcurrent, hkind, hrest⟩ := uncons hpass ht (by simp)
    have hremaining := hpass.remaining_eq
    simp only [List.length_cons] at hremaining
    rw [statementWith_run, hkind, hcurrent]
    exact ih (by omega) _ (by omega) hrest hsettled
  | loop ht _ ih =>
    intro hn c c' hpass _
    simp only [List.length_cons] at hn
    obtain ⟨_, hkind, hrest⟩ := uncons hpass ht (by simp)
    obtain ⟨c₁, he, hb⟩ := ih (by omega) Keyword.loop.spelling _ _ hrest
    rw [statementWith_run, hkind]
    exact loop_of_passes hpass ht he hb
  | function ht hname ho hu _ ih =>
    intro hn c c' hpass _
    simp only [List.length_cons] at hn
    obtain ⟨_, hkind, hrest⟩ := uncons hpass ht (by simp)
    obtain ⟨_, _, hrest⟩ := uncons hrest hname (by simp)
    obtain ⟨_, _, hrest⟩ := uncons hrest ho (by simp)
    have hnone : parameterList c.advance.advance.advance = .ok [] c.advance.advance.advance := by
      rw [parameterList, bind_of_ok (isAt_eq_ok.2 ⟨rfl, rfl⟩),
        if_pos (decide_eq_true (uncons hrest hu (by simp)).2.1)]
      rfl
    rw [statementWith_run, hkind]
    exact function_of_passes hpass ht hname ho hnone hrest hu (ih (by omega))
  | functionOf ht hname ho hns hnodup hu _ ih =>
    intro hn c c' hpass _
    simp only [List.length_append, List.length_cons] at hn
    obtain ⟨_, hkind, hrest⟩ := uncons hpass ht (by simp)
    obtain ⟨_, _, hrest⟩ := uncons hrest hname (by simp)
    obtain ⟨_, _, hrest⟩ := uncons hrest ho (by simp)
    obtain ⟨c₁, hparams, hrest⟩ := parameterList_of_names hrest hns hnodup hu
    rw [statementWith_run, hkind]
    exact function_of_passes hpass ht hname ho hparams hrest hu (ih (by omega))
  | giveBack ht hu =>
    intro _ c c' hpass _
    obtain ⟨_, hkind, hend⟩ := uncons hpass ht (by simp)
    have hnone : given? c.advance = .ok none c.advance := by
      rw [given?, bind_of_ok (isAt_eq_ok.2 ⟨rfl, rfl⟩),
        if_pos (decide_eq_true (uncons hend hu (by simp)).2.1)]
      rfl
    rw [statementWith_run, hkind]
    exact giveBack_of_passes hpass ht hnone hend hu
  | giveBackOf ht hd hu =>
    intro _ c c' hpass _
    obtain ⟨_, hkind, hrest⟩ := uncons hpass ht (by simp)
    obtain ⟨c₁, hvalue, hend⟩ := given?_of_passes hrest hd hu
    rw [statementWith_run, hkind]
    exact giveBack_of_passes hpass ht hvalue hend hu
  | stop ht hu =>
    intro _ c c' hpass _
    rw [statementWith_run, (uncons hpass ht (by simp)).2.1]
    exact bare_of_passes hpass ht hu
  | skip ht hu =>
    intro _ c c' hpass _
    rw [statementWith_run, (uncons hpass ht (by simp)).2.1]
    exact bare_of_passes hpass ht hu
  | block hb ih =>
    intro hn c c' hpass _
    obtain ⟨t, us, rfl, ht⟩ := started_of_block hb
    rw [statementWith_run, (uncons hpass ht (by simp)).2.1]
    exact map_eq_ok.2 ⟨_, ih hn hpass trivial, rfl⟩
  | expression hd hopens hu =>
    intro _ c c' hpass _
    rw [statementWith_expression hpass hd hopens hu]
    exact expressionStatement_of_passes hpass hd hu
  | none => exact fun _ close _ fuel _ => statementsUntil_none fuel
  | more hs hss _ ih =>
    intro hn close hclose fuel hfuel
    obtain ⟨t, us, rfl, _⟩ := started_of_stmt hs
    simp only [List.length_append, List.length_cons] at hn hfuel
    obtain ⟨fuel, rfl⟩ : ∃ m, fuel = m + 1 := ⟨fuel - 1, by omega⟩
    exact statementsUntil_more hclose hs hss (hstmt hs (by simp only [List.length_cons]; omega))
      (ih (by omega) close hclose fuel (by omega))
  | braces ht _ hu ih =>
    intro hn
    simp only [List.length_append, List.length_cons] at hn
    exact block_of_stmts ht hu (ih (by omega) _ (.inl rfl))
  | guard ho hd hu _ ih =>
    intro hn word c c' hpass
    simp only [List.length_append, List.length_cons] at hn
    obtain ⟨c₁, he, hblock⟩ := condition_of_passes hpass ho hd hu
    exact ⟨c₁, he, ih (by omega) hblock trivial⟩
  | alone _ ih =>
    intro hn fuel hfuel c c' hpass hsettled
    obtain ⟨fuel, rfl⟩ : ∃ m, fuel = m + 1 := ⟨fuel - 1, by omega⟩
    obtain ⟨c₁, he, hb⟩ := ih hn _ c c' hpass
    exact branch_of_alternate he hb (alternate?_none hsettled)
  | otherwiseWhen _ ht _ ihg ihs =>
    intro hn fuel hfuel c c' hpass hsettled
    simp only [List.length_append, List.length_cons] at hn hfuel
    obtain ⟨fuel, rfl⟩ : ∃ m, fuel = m + 1 := ⟨fuel - 1, by omega⟩
    obtain ⟨c₂, hguarded, hrest⟩ := hpass.split
    obtain ⟨c₁, he, hb⟩ := ihg (by omega) _ c c₂ hguarded
    obtain ⟨_, _, hafter⟩ := uncons hrest ht (by simp)
    have hs := ihs (by omega) fuel (by omega) hafter hsettled
    exact branch_of_alternate he hb (alternate?_otherwiseWhen hrest ht hs)
  | otherwiseBranch _ ht hw _ ihg ihs =>
    intro hn fuel hfuel c c' hpass hsettled
    simp only [List.length_append, List.length_cons] at hn hfuel
    obtain ⟨fuel, rfl⟩ : ∃ m, fuel = m + 1 := ⟨fuel - 1, by omega⟩
    obtain ⟨c₂, hguarded, hrest⟩ := hpass.split
    obtain ⟨c₁, he, hb⟩ := ihg (by omega) _ c c₂ hguarded
    obtain ⟨_, _, hwhen⟩ := uncons hrest ht (by simp)
    obtain ⟨hcurrent, hkind, hafter⟩ := uncons hwhen hw (by simp)
    have hs := ihs (by omega) fuel (by omega) hafter hsettled
    refine branch_of_alternate he hb ?_
    rw [alternate?_otherwise hrest ht, if_pos hkind, hcurrent]
    exact map_eq_ok.2 ⟨_, hs, rfl⟩
  | otherwiseBlock _ ht ha ihg iha =>
    intro hn fuel hfuel c c' hpass _
    simp only [List.length_append, List.length_cons] at hn hfuel
    obtain ⟨fuel, rfl⟩ : ∃ m, fuel = m + 1 := ⟨fuel - 1, by omega⟩
    obtain ⟨c₂, hguarded, hrest⟩ := hpass.split
    obtain ⟨c₁, he, hb⟩ := ihg (by omega) _ c c₂ hguarded
    obtain ⟨_, _, hafter⟩ := uncons hrest ht (by simp)
    have hne : c₂.advance.current.kind ≠ .keyword .when := by
      obtain ⟨w, us, rfl, hw⟩ := started_of_block ha
      rw [hafter.current_eq, hw]
      simp
    refine branch_of_alternate he hb ?_
    rw [alternate?_otherwise hrest ht, if_neg hne]
    exact map_eq_ok.2 ⟨_, iha (by omega) hafter trivial, rfl⟩

/-- The fuel is enough for statements with fewer tokens. -/
theorem statementWithin_reads (depth : Nat) :
    ReadsStatementsBelow depth (statementWithin depth) := by
  induction depth with
  | zero =>
    intro s ts _ hlt
    exact absurd hlt (Nat.not_lt_zero _)
  | succ depth ih =>
    intro s ts hb hlt
    exact read_of_builds ih hb (Nat.le_of_lt_succ hlt)

/-- A whole statement is read wherever no alternative follows. -/
theorem statement_reads {s : Stmt} {ts : List Token} (h : Builds (.stmt s) ts) :
    Reads statement ts s Settled := by
  intro c c' hpass hsettled
  have hdepth : ts.length < c.remaining + 1 := by rw [hpass.remaining_eq]; omega
  rw [statement, bind_of_ok (remaining_eq_ok.2 ⟨rfl, rfl⟩)]
  exact statementWithin_reads _ h hdepth hpass hsettled

/-- Statements in sequence are read in front of the token that closes them. -/
theorem statements_read {ss : List Stmt} {ts : List Token} {close : Kind} {fuel : Nat}
    (h : Builds (.stmts ss) ts) (hclose : close = .symbol .closeBrace ∨ close = .finish)
    (hfuel : ts.length ≤ fuel) : Reads (statementsUntil close statement fuel) ts ss (· = close) :=
  have hstmt : ReadsStatementsBelow (ts.length + 1) statement := fun hb _ => statement_reads hb
  read_of_builds hstmt h (Nat.lt_succ_self _) close hclose fuel hfuel

end Parser

end Boli
