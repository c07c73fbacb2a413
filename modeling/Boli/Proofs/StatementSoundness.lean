import Boli.Proofs.Lookahead

/-!
# Statements that are read derive from the grammar

As for expressions, the reading of a statement is sound if the reading of the statements inside it
is, and `statementWithin_sound` closes the circle.

The loops carry fuel.  Running out of it ends a loop over statements early, which does no harm, but
a loop over parameters would end behind a comma.  So the soundness of that loop asks for enough fuel
(`parameters_sound`).
-/

namespace Boli

open Grammar

namespace Parser

/-- A semicolon that has to stand here is taken if it does. -/
theorem semicolon_eq_ok {clause : Clause} {c c' : Cursor} {a : Unit} :
    semicolon clause c = .ok a c' ↔ c.current.kind = .symbol .semicolon ∧ c.advance = c' := by
  simp only [semicolon, bind_eq_ok, expect_eq_ok, pure_eq_ok]
  constructor
  · rintro ⟨_, _, ⟨hk, rfl, rfl⟩, _, rfl⟩
    exact ⟨hk, rfl⟩
  · rintro ⟨hk, rfl⟩
    exact ⟨_, _, ⟨hk, rfl, rfl⟩, trivial, rfl⟩

/-- The readings of statements that the grammar allows. -/
abbrev SoundStatement (stmt : Parser Stmt) : Prop :=
  Sound stmt fun s ts => Builds (.stmt s) ts

/-! ## Blocks -/

/-- Running out of fuel ends the statements early, and those read so far are statements. -/
theorem statementsUntil_sound {stmt : Parser Stmt} (hstmt : SoundStatement stmt) (close : Kind)
    (fuel : Nat) : Sound (statementsUntil close stmt fuel) fun ss ts => Builds (.stmts ss) ts := by
  induction fuel with
  | zero =>
    intro c ss c' _ h
    obtain ⟨rfl, rfl⟩ := pure_eq_ok.1 h
    exact ⟨[], .refl c, .none⟩
  | succ fuel ih =>
    intro c ss c' hc h
    simp only [statementsUntil, bind_eq_ok, current_eq_ok] at h
    obtain ⟨_, _, ⟨rfl, rfl⟩, h⟩ := h
    split at h
    · obtain ⟨rfl, rfl⟩ := pure_eq_ok.1 h
      exact ⟨[], .refl c, .none⟩
    · simp only [bind_eq_ok, pure_eq_ok] at h
      obtain ⟨s, c₁, hs, ss, _, hss, rfl, rfl⟩ := h
      obtain ⟨ts, hpass, hb⟩ := hstmt hc hs
      obtain ⟨us, hpass', hbs⟩ := ih (hpass.ended hc) hss
      exact ⟨_, hpass.trans hpass', .more hb hbs⟩

/-- A block is read from its brace to the closing one. -/
theorem block_sound {stmt : Parser Stmt} (hstmt : SoundStatement stmt) :
    Sound (block stmt) fun b ts => Builds (.block b) ts := by
  intro c b c' hc h
  simp only [block, bind_eq_ok, expect_eq_ok, remaining_eq_ok, pure_eq_ok] at h
  obtain ⟨_, _, ⟨ht, rfl, rfl⟩, _, _, ⟨rfl, rfl⟩, ss, c₁, hss, _, _, ⟨hu, rfl, rfl⟩, rfl, rfl⟩ := h
  have hopen := passes_of_kind hc ht (by simp)
  obtain ⟨ts, hpass, hb⟩ := statementsUntil_sound hstmt _ _ (hopen.ended hc) hss
  have hclose := passes_of_kind (hpass.ended (hopen.ended hc)) hu (by simp)
  exact ⟨_, hopen.trans (hpass.trans hclose), .braces ht hb hu⟩

/-- A condition and the block behind it. -/
theorem guarded_sound {stmt : Parser Stmt} (hstmt : SoundStatement stmt) {word : String}
    {c c₁ c' : Cursor} {e : Expr} {b : Block} (hc : c.Ended) (he : condition word c = .ok e c₁)
    (hb : block stmt c₁ = .ok b c') : ∃ ts, c.Passes ts c' ∧ Builds (.guarded e b) ts := by
  simp only [condition, bind_eq_ok, expect_eq_ok, pure_eq_ok] at he
  obtain ⟨_, _, ⟨ho, rfl, rfl⟩, _, c₂, he, _, _, ⟨hu, rfl, rfl⟩, rfl, rfl⟩ := he
  have hopen := passes_of_kind hc ho (by simp)
  obtain ⟨ts, hpass, hd⟩ := expression_sound (hopen.ended hc) he
  have hclose := passes_of_kind (hpass.ended (hopen.ended hc)) hu (by simp)
  obtain ⟨us, hpass', hblock⟩ := block_sound hstmt (hclose.ended (hpass.ended (hopen.ended hc))) hb
  refine ⟨_, hopen.trans (hpass.trans (hclose.trans hpass')), ?_⟩
  exact .guard ho hd hu hblock

/-! ## Forms of statements -/

/-- A declaration may go without a value. -/
theorem initial?_sound : Sound initial? fun v ts =>
    v = none ∧ ts = [] ∨ ∃ a e us, a.kind = .symbol .assign ∧ Derives (.expr .loosest e) us ∧
      v = some e ∧ ts = a :: us := by
  intro c v c' hc h
  simp only [initial?, bind_eq_ok, accept_eq_ok] at h
  obtain ⟨_, _, ⟨ha, rfl, rfl⟩ | ⟨_, rfl, rfl⟩, h⟩ := h
  · simp only [Option.isSome_some, ↓reduceIte, map_eq_ok] at h
    obtain ⟨e, he, rfl⟩ := h
    have hassign := passes_of_kind hc ha (by simp)
    obtain ⟨ts, hpass, hd⟩ := expression_sound (hassign.ended hc) he
    exact ⟨_, hassign.trans hpass, .inr ⟨_, e, ts, ha, hd, rfl, rfl⟩⟩
  · simp only [Option.isSome_none, Bool.false_eq_true, ↓reduceIte, pure_eq_ok] at h
    obtain ⟨rfl, rfl⟩ := h
    exact ⟨[], .refl _, .inl ⟨rfl, rfl⟩⟩

theorem declaration_sound {c c' : Cursor} {s : Stmt} (hc : c.Ended)
    (hk : c.current.kind = .keyword .declare) (h : declaration c = .ok s c') :
    ∃ ts, c.Passes ts c' ∧ Builds (.stmt s) ts := by
  have hword := passes_of_kind hc hk (by simp)
  simp only [declaration, bind_eq_ok, advance_eq_ok, expect_eq_ok, semicolon_eq_ok,
    pure_eq_ok] at h
  obtain ⟨_, _, ⟨rfl, rfl⟩, _, _, ⟨hn, rfl, rfl⟩, v, c₁, hv, _, _, ⟨hu, rfl⟩, rfl, rfl⟩ := h
  have hname := hword.trans (passes_of_kind (hword.ended hc) hn (by simp))
  obtain ⟨ts, hpass, hts⟩ := initial?_sound (hname.ended hc) hv
  have hend := passes_of_kind (hpass.ended (hname.ended hc)) hu (by simp)
  refine ⟨_, hname.trans (hpass.trans hend), ?_⟩
  rcases hts with ⟨rfl, rfl⟩ | ⟨a, e, us, ha, hd, rfl, rfl⟩
  · exact .declare hk hn hu
  · exact .declareAs hk hn ha hd hu

theorem assignment_sound {c c' : Cursor} {s : Stmt} (hc : c.Ended)
    (hk : c.current.kind = .identifier) (h : assignment c = .ok s c') :
    ∃ ts, c.Passes ts c' ∧ Builds (.stmt s) ts := by
  have hname := passes_of_kind hc hk (by simp)
  simp only [assignment, bind_eq_ok, advance_eq_ok, eat_eq_ok, semicolon_eq_ok, pure_eq_ok] at h
  obtain ⟨_, _, ⟨rfl, rfl⟩, _, _, ⟨ha, rfl, rfl⟩, e, c₁, he, _, _, ⟨hu, rfl⟩, rfl, rfl⟩ := h
  have hassign := hname.trans (passes_of_kind (hname.ended hc) ha (by simp))
  obtain ⟨ts, hpass, hd⟩ := expression_sound (hassign.ended hc) he
  have hend := passes_of_kind (hpass.ended (hassign.ended hc)) hu (by simp)
  exact ⟨_, hassign.trans (hpass.trans hend), .assign hk ha hd hu⟩

theorem print_sound {c c' : Cursor} {s : Stmt} (hc : c.Ended)
    (hk : c.current.kind = .keyword .print) (h : print c = .ok s c') :
    ∃ ts, c.Passes ts c' ∧ Builds (.stmt s) ts := by
  have hword := passes_of_kind hc hk (by simp)
  simp only [print, bind_eq_ok, advance_eq_ok, remaining_eq_ok, semicolon_eq_ok, pure_eq_ok] at h
  obtain ⟨_, _, ⟨rfl, rfl⟩, _, _, ⟨rfl, rfl⟩, es, c₁, hes, _, _, ⟨hu, rfl⟩, rfl, rfl⟩ := h
  obtain ⟨ts, hpass, hd⟩ := commaSeparated_sound expression_sound _ (hword.ended hc) hes
  have hend := passes_of_kind (hpass.ended (hword.ended hc)) hu (by simp)
  exact ⟨_, hword.trans (hpass.trans hend), .print hk hd hu⟩

/-- A choice goes on with its other side, if there is one. -/
theorem alternate?_sound {stmt : Parser Stmt} {choice : Token → Parser Stmt}
    (hstmt : SoundStatement stmt)
    (hchoice : ∀ k, Sound (choice k) fun s ts => Builds (.choice k s) ts) {k : Token} {e : Expr}
    {b : Block} {ts : List Token} (hguarded : Builds (.guarded e b) ts) :
    Sound (alternate? stmt choice) fun v us =>
      Builds (.choice k (.branch (some k.line) e (.block b) v)) (ts ++ us) := by
  intro c v c' hc h
  simp only [alternate?, bind_eq_ok, accept_eq_ok] at h
  obtain ⟨_, _, ⟨ht, rfl, rfl⟩ | ⟨_, rfl, rfl⟩, h⟩ := h
  · obtain ⟨s, hs, rfl⟩ := map_eq_ok.1 h
    have hword := passes_of_kind hc ht (by simp)
    obtain ⟨us, hpass, hb⟩ := hchoice _ (hword.ended hc) hs
    exact ⟨_, hword.trans hpass, .otherwiseWhen hguarded ht hb⟩
  simp only [bind_eq_ok, accept_eq_ok] at h
  obtain ⟨_, _, ⟨ht, rfl, rfl⟩ | ⟨_, rfl, rfl⟩, h⟩ := h
  · have hword := passes_of_kind hc ht (by simp)
    simp only [Option.isSome_some, ↓reduceIte, bind_eq_ok, isAt_eq_ok] at h
    obtain ⟨_, _, ⟨rfl, rfl⟩, h⟩ := h
    split at h
    · next hw =>
      have hw := of_decide_eq_true hw
      simp only [bind_eq_ok, advance_eq_ok, map_eq_ok] at h
      obtain ⟨_, _, ⟨rfl, rfl⟩, s, hs, rfl⟩ := h
      have hwhen := hword.trans (passes_of_kind (hword.ended hc) hw (by simp))
      obtain ⟨us, hpass, hb⟩ := hchoice _ (hwhen.ended hc) hs
      exact ⟨_, hwhen.trans hpass, .otherwiseBranch hguarded ht hw hb⟩
    · obtain ⟨a, ha, rfl⟩ := map_eq_ok.1 h
      obtain ⟨us, hpass, hb⟩ := block_sound hstmt (hword.ended hc) ha
      exact ⟨_, hword.trans hpass, .otherwiseBlock hguarded ht hb⟩
  · simp only [Option.isSome_none, Bool.false_eq_true, ↓reduceIte, pure_eq_ok] at h
    obtain ⟨rfl, rfl⟩ := h
    exact ⟨[], .refl _, by simpa only [List.append_nil] using Builds.alone hguarded⟩

/-- A choice and its further choices are read with one unit of fuel each. -/
theorem branch_sound {stmt : Parser Stmt} (hstmt : SoundStatement stmt) (fuel : Nat) :
    ∀ k : Token, Sound (branch stmt fuel k) fun s ts => Builds (.choice k s) ts := by
  induction fuel with
  | zero =>
    intro k c s c' _ h
    exact absurd h failAt_ne_ok
  | succ fuel ih =>
    intro k c s c' hc h
    simp only [branch, bind_eq_ok, pure_eq_ok] at h
    obtain ⟨e, c₁, he, b, c₂, hb, v, _, hv, rfl, rfl⟩ := h
    obtain ⟨ts, hpass, hguarded⟩ := guarded_sound hstmt hc he hb
    obtain ⟨us, hpass', hbuilds⟩ := alternate?_sound hstmt ih hguarded (hpass.ended hc) hv
    exact ⟨_, hpass.trans hpass', hbuilds⟩

theorem loop_sound {stmt : Parser Stmt} (hstmt : SoundStatement stmt) {c c' : Cursor} {s : Stmt}
    (hc : c.Ended) (hk : c.current.kind = .keyword .loop) (h : loop stmt c = .ok s c') :
    ∃ ts, c.Passes ts c' ∧ Builds (.stmt s) ts := by
  have hword := passes_of_kind hc hk (by simp)
  simp only [loop, bind_eq_ok, advance_eq_ok, pure_eq_ok] at h
  obtain ⟨_, _, ⟨rfl, rfl⟩, e, c₁, he, b, c₂, hb, rfl, rfl⟩ := h
  obtain ⟨ts, hpass, hguarded⟩ := guarded_sound hstmt (hword.ended hc) he hb
  exact ⟨_, hword.trans hpass, .loop hk hguarded⟩

/-- Further parameters are names with commas between them, different from each other and from those
seen before. -/
theorem parameters_sound (fuel : Nat) :
    ∀ {seen c ns c'}, c.Ended → c.remaining < fuel → parameters seen fuel c = .ok ns c' →
      ∃ ms ps, c.Passes ps c' ∧ Names ms ps ∧ ns = seen.reverse ++ ms ∧ ms.Nodup ∧
        ∀ m ∈ ms, m ∉ seen := by
  induction fuel with
  | zero =>
    intro seen c ns c' _ hfuel
    exact absurd hfuel (Nat.not_lt_zero _)
  | succ fuel ih =>
    intro seen c ns c' hc hfuel h
    simp only [parameters, bind_eq_ok, expect_eq_ok] at h
    obtain ⟨_, _, ⟨hn, rfl, rfl⟩, h⟩ := h
    have hname := passes_of_kind hc hn (by simp)
    split at h
    · exact absurd h failAt_ne_ok
    · next hseen =>
      have hseen : c.current.value ∉ seen := by simpa using hseen
      simp only [bind_eq_ok, accept_eq_ok] at h
      obtain ⟨_, _, ⟨ht, rfl, rfl⟩ | ⟨_, rfl, rfl⟩, h⟩ := h
      · have hcomma := hname.trans (passes_of_kind (hname.ended hc) ht (by simp))
        have hremaining := hcomma.remaining_eq
        simp only [List.length_append, List.length_cons] at hremaining
        simp only [Option.isSome_some, ↓reduceIte] at h
        obtain ⟨ms, ps, hpass, hms, rfl, hnodup, hnew⟩ := ih (hcomma.ended hc) (by omega) h
        refine ⟨c.current.value :: ms, _, hcomma.trans hpass, .more hn ht hms, ?_, ?_, ?_⟩
        · simp
        · refine List.nodup_cons.2 ⟨fun hmem => ?_, hnodup⟩
          exact hnew _ hmem (.head _)
        · intro m hm
          rcases List.mem_cons.1 hm with rfl | hm
          · exact hseen
          · exact fun hmem => hnew m hm (.tail _ hmem)
      · simp only [Option.isSome_none, Bool.false_eq_true, ↓reduceIte, pure_eq_ok] at h
        obtain ⟨rfl, rfl⟩ := h
        refine ⟨[c.current.value], _, hname, .one hn, ?_, ?_, ?_⟩
        · simp
        · simp
        · simpa using hseen

/-- The parameters of a function that is read are different names. -/
theorem function_sound {stmt : Parser Stmt} (hstmt : SoundStatement stmt) {c c' : Cursor} {s : Stmt}
    (hc : c.Ended) (hk : c.current.kind = .keyword .function) (h : function stmt c = .ok s c') :
    ∃ ts, c.Passes ts c' ∧ Builds (.stmt s) ts := by
  have hword := passes_of_kind hc hk (by simp)
  simp only [function, bind_eq_ok, advance_eq_ok, expect_eq_ok, parameterList, isAt_eq_ok,
    pure_eq_ok] at h
  obtain ⟨_, _, ⟨rfl, rfl⟩, _, _, ⟨hn, rfl, rfl⟩, _, _, ⟨ho, rfl, rfl⟩, ns, c₁,
    ⟨_, _, ⟨rfl, rfl⟩, hns⟩, _, _, ⟨hu, rfl, rfl⟩, b, c₂, hb, rfl, rfl⟩ := h
  have hname := hword.trans (passes_of_kind (hword.ended hc) hn (by simp))
  have hopen := hname.trans (passes_of_kind (hname.ended hc) ho (by simp))
  split at hns
  · obtain ⟨rfl, rfl⟩ := pure_eq_ok.1 hns
    have hclose := hopen.trans (passes_of_kind (hopen.ended hc) hu (by simp))
    obtain ⟨ts, hpass, hblock⟩ := block_sound hstmt (hclose.ended hc) hb
    exact ⟨_, hclose.trans hpass, .function hk hn ho hu hblock⟩
  · simp only [bind_eq_ok, remaining_eq_ok] at hns
    obtain ⟨_, _, ⟨rfl, rfl⟩, hns⟩ := hns
    obtain ⟨ms, ps, hpass, hms, rfl, hnodup, _⟩ :=
      parameters_sound _ (hopen.ended hc) (Nat.lt_succ_self _) hns
    have hparams := hopen.trans hpass
    have hclose := hparams.trans (passes_of_kind (hparams.ended hc) hu (by simp))
    obtain ⟨ts, hpass', hblock⟩ := block_sound hstmt (hclose.ended hc) hb
    refine ⟨_, hclose.trans hpass', ?_⟩
    simpa using Builds.functionOf hk hn ho hms hnodup hu hblock

theorem giveBack_sound {c c' : Cursor} {s : Stmt} (hc : c.Ended)
    (hk : c.current.kind = .keyword .giveBack) (h : giveBack c = .ok s c') :
    ∃ ts, c.Passes ts c' ∧ Builds (.stmt s) ts := by
  have hword := passes_of_kind hc hk (by simp)
  simp only [giveBack, bind_eq_ok, advance_eq_ok, given?, isAt_eq_ok, semicolon_eq_ok,
    pure_eq_ok] at h
  obtain ⟨_, _, ⟨rfl, rfl⟩, v, c₁, ⟨_, _, ⟨rfl, rfl⟩, hv⟩, _, _, ⟨hu, rfl⟩, rfl, rfl⟩ := h
  split at hv
  · obtain ⟨rfl, rfl⟩ := pure_eq_ok.1 hv
    have hend := passes_of_kind (hword.ended hc) hu (by simp)
    exact ⟨_, hword.trans hend, .giveBack hk hu⟩
  · obtain ⟨e, he, rfl⟩ := map_eq_ok.1 hv
    obtain ⟨ts, hpass, hd⟩ := expression_sound (hword.ended hc) he
    have hend := passes_of_kind (hpass.ended (hword.ended hc)) hu (by simp)
    exact ⟨_, hword.trans (hpass.trans hend), .giveBackOf hk hd hu⟩

/-- A statement of one keyword is the keyword and a semicolon. -/
theorem bare_sound {word : Keyword} {clause : Clause} {make : Line → Stmt} {c c' : Cursor}
    {s : Stmt} (hc : c.Ended) (hk : c.current.kind = .keyword word)
    (hmake : ∀ {t u : Token}, t.kind = .keyword word → u.kind = .symbol .semicolon →
      Builds (.stmt (make (some t.line))) [t, u])
    (h : bare make clause c = .ok s c') : ∃ ts, c.Passes ts c' ∧ Builds (.stmt s) ts := by
  have hword := passes_of_kind hc hk (by simp)
  simp only [bare, bind_eq_ok, advance_eq_ok, semicolon_eq_ok, pure_eq_ok] at h
  obtain ⟨_, _, ⟨rfl, rfl⟩, _, _, ⟨hu, rfl⟩, rfl, rfl⟩ := h
  exact ⟨_, hword.trans (passes_of_kind (hword.ended hc) hu (by simp)), hmake hk hu⟩

/-- An expression may stand for its effects only if its first token says so. -/
theorem expressionStatement_sound {c c' : Cursor} {s : Stmt} (hc : c.Ended)
    (hopens : ∀ e ts c₁, c.Passes (c.current :: ts) c₁ →
      Derives (.expr .loosest e) (c.current :: ts) → Opens c.current.kind e)
    (h : expressionStatement c = .ok s c') : ∃ ts, c.Passes ts c' ∧ Builds (.stmt s) ts := by
  simp only [expressionStatement, bind_eq_ok, current_eq_ok, semicolon_eq_ok, pure_eq_ok] at h
  obtain ⟨_, _, ⟨rfl, rfl⟩, e, c₁, he, _, _, ⟨hu, rfl⟩, rfl, rfl⟩ := h
  obtain ⟨ts, hpass, hd⟩ := expression_sound hc he
  obtain ⟨t, us, rfl, _⟩ := (started_of_derives hd).expr
  obtain rfl := hpass.current_eq
  have hend := passes_of_kind (hpass.ended hc) hu (by simp)
  exact ⟨_, hpass.trans hend, .expression hd (hopens e us c₁ hpass hd) hu⟩

/-! ## Whole statements -/

theorem ite_run {p : Prop} [Decidable p] {x y : Parser α} {c : Cursor} :
    (if p then x else y) c = if p then x c else y c := by
  split <;> rfl

/-- The kind of the current token decides what is read, and for two of them what follows it. -/
theorem statementWith_run (stmt : Parser Stmt) (c : Cursor) :
    statementWith stmt c =
      match c.current.kind with
      | .keyword .declare => declaration c
      | .identifier =>
        if (c.peek 1).kind = .symbol .assign then assignment c else expressionStatement c
      | .keyword .print => if c.isPrintCall then expressionStatement c else print c
      | .keyword .when => branch stmt (c.remaining + 1) c.current c.advance
      | .keyword .loop => loop stmt c
      | .keyword .function => function stmt c
      | .keyword .giveBack => giveBack c
      | .keyword .stop => bare .stop .stop c
      | .keyword .skip => bare .skip .skip c
      | .symbol .openBrace => (Stmt.block <$> block stmt) c
      | .keyword word =>
        if word.builtin?.isSome then expressionStatement c else fail (.expected .statement) c
      | _ => fail (.expected .statement) c := by
  obtain ⟨passed, ⟨kind, value, position⟩, ahead, n, hn⟩ := c
  cases kind with
  | identifier => exact ite_run
  | keyword word =>
    cases word with
    | print => exact ite_run
    | _ => rfl
  | symbol sign => cases sign <;> rfl
  | _ => rfl

/-- An expression that starts with a name stands for its effects. -/
theorem opens_identifier (e : Expr) : Opens .identifier e :=
  ⟨.inl rfl, fun _ _ _ hprint => nomatch hprint⟩

/-- So does one that starts with a function of the language other than the print function. -/
theorem opens_of_builtin {e : Expr} {word : Keyword} (hword : word.builtin?.isSome)
    (hne : word ≠ .print) : Opens (.keyword word) e := by
  obtain ⟨b, hb⟩ := Option.isSome_iff_exists.1 hword
  refine ⟨.inr ⟨b, mem_builtins.2 ⟨word, rfl, hb⟩⟩, fun _ _ _ hprint => ?_⟩
  exact absurd (Kind.keyword.inj hprint) hne

/-- Every statement that is read is one of the forms of the grammar. -/
theorem statementWith_sound {stmt : Parser Stmt} (hstmt : SoundStatement stmt) :
    SoundStatement (statementWith stmt) := by
  intro c s c' hc h
  rw [statementWith_run] at h
  split at h
  · next hk => exact declaration_sound hc hk h
  · next hk =>
    split at h
    · exact assignment_sound hc hk h
    · refine expressionStatement_sound hc (fun e ts c₁ _ _ => ?_) h
      rw [hk]
      exact opens_identifier e
  · next hk =>
    split at h
    · next hcall =>
      refine expressionStatement_sound hc (fun e ts c₁ hpass hd => ?_) h
      -- the look ahead has told the call from the print statement by its arguments
      refine ⟨.inr ⟨.print, ?_⟩, fun line callee args _ hleading => ?_⟩
      · rw [hk]
        decide
      · obtain ⟨_, _, o, us, u, vs, rfl, ho, hitems, hu, hleading'⟩ := call_of_derives hd hk
        cases hleading.symm.trans hleading'
        have hahead : c.ahead = o :: (us ++ u :: (vs ++ c₁.rest)) := by
          rw [hpass.ahead_eq, List.cons_append, List.append_assoc, List.cons_append]
        exact (Cursor.isPrintCall_iff hahead ho hitems hu).1 hcall
    · exact print_sound hc hk h
  · next hk =>
    have hword := passes_of_kind hc hk (by simp)
    obtain ⟨ts, hpass, hb⟩ := branch_sound hstmt _ _ (hword.ended hc) h
    exact ⟨_, hword.trans hpass, .branch hk hb⟩
  · next hk => exact loop_sound hstmt hc hk h
  · next hk => exact function_sound hstmt hc hk h
  · next hk => exact giveBack_sound hc hk h
  · next hk => exact bare_sound hc hk .stop h
  · next hk => exact bare_sound hc hk .skip h
  · obtain ⟨b, hb, rfl⟩ := map_eq_ok.1 h
    obtain ⟨ts, hpass, hblock⟩ := block_sound hstmt hc hb
    exact ⟨ts, hpass, .block hblock⟩
  · next word _ hne _ _ _ _ _ _ hk =>
    split at h
    · next hword =>
      refine expressionStatement_sound hc (fun e ts c₁ _ _ => ?_) h
      rw [hk]
      exact opens_of_builtin hword hne
    · exact absurd h fail_ne_ok
  · exact absurd h fail_ne_ok

theorem statementWithin_sound (depth : Nat) : SoundStatement (statementWithin depth) := by
  induction depth with
  | zero =>
    intro c s c' _ h
    exact absurd h fail_ne_ok
  | succ depth ih => exact statementWith_sound ih

theorem statement_sound : SoundStatement statement := by
  intro c s c' hc h
  simp only [statement, bind_eq_ok, remaining_eq_ok] at h
  obtain ⟨_, _, ⟨rfl, rfl⟩, h⟩ := h
  exact statementWithin_sound _ hc h

end Parser

end Boli
