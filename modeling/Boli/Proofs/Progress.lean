import Boli.Proofs.Tracking

/-!
# Progress

The steps and readings on a cursor can be called one after the other, in any order, whether they
succeed or complain (`Call`).  Wherever such calls lead, the index is inside the list of tokens and
belongs to the current token, and the next call finds its tokens there.  It comes to an end, within a
depth of sixteen levels for each token of the list.  No token is taken back, and a reading of a phrase
that succeeds has passed a token (`Place.after?_progresses`).  This holds for token lists that no
program text gives, too, and the mark of the end may stand in the middle of them.

The relation of `Tracking` is shown here for statements and programs, then for every call and for
every list of calls.
-/

namespace Boli

namespace Walk

variable {c : Cursor} {n m spare : Nat}

/-! ## Statements that hold no others -/

theorem semicolon_tracks {clause : Clause} :
    Tracks n 1 spare (fun _ => semicolon clause) (Parser.semicolon clause) :=
  .bind (.expect (by simp)) fun _ => .pure _

/-- A condition passes its parentheses. -/
theorem condition_tracks {word : String} :
    Tracks n 1 spare (condition · word) (Parser.condition word) := by
  refine .bind (.expect (by simp)) fun _ => (expression_tracks.deepen (by omega)).bind fun e => ?_
  exact .bind (.expect (by simp)) fun _ => .pure _

/-- A declaration passes its name first, which pays for its value. -/
theorem declaration_tracks : Tracks n 1 spare declaration Parser.declaration := by
  have hvalue : Tracks (n - 1) 1 (spare + 16) expression Parser.expression :=
    expression_tracks.deepen (by omega)
  have hinitial : Tracks (n - 1) 0 (spare + 16) initial? Parser.initial? :=
    .bind .accept fun sign => .ite hvalue.map.weaken (.pure _)
  refine .bind .advance fun t => .bind (.expect (by simp)) fun name => ?_
  exact hinitial.bind fun initial => semicolon_tracks.bind fun _ => .pure _

/-- An assignment passes its sign first, which pays for its value. -/
theorem assignment_tracks : Tracks n 1 spare assignment Parser.assignment := by
  refine .bind .advance fun t => .bind (.eat (by simp)) fun _ => ?_
  refine (expression_tracks.deepen (by omega)).bind fun value => ?_
  exact semicolon_tracks.bind fun _ => .pure _

/-- Nothing is sure to be passed in front of the values, so their depth has to be spared. -/
theorem print_tracks : Tracks n 1 11 print Parser.print := by
  refine .bind .advance fun t => .remaining fun fuel => ?_
  refine (expressions_tracks expression_tracks (by omega)).bind fun values => ?_
  exact semicolon_tracks.bind fun _ => .pure _

theorem giveBack_tracks : Tracks n 1 10 giveBack Parser.giveBack := by
  have hgiven : Tracks n 0 10 given? Parser.given? :=
    .bind .isAt fun closed => .ite (.pure _) expression_tracks.map.weaken
  exact .bind .advance fun t => hgiven.bind fun value => semicolon_tracks.bind fun _ => .pure _

theorem bare_tracks {make : Line → Stmt} {clause : Clause} :
    Tracks n 1 spare (fun _ => bare make clause) (Parser.bare make clause) :=
  .bind .advance fun _ => semicolon_tracks.bind fun _ => .pure _

theorem expressionStatement_tracks :
    Tracks n 1 10 expressionStatement Parser.expressionStatement :=
  .bind .current fun _ => expression_tracks.bind fun _ => semicolon_tracks.bind fun _ => .pure _

/-- The lookahead behind the print keyword sees the same at a place. -/
theorem isPrintCall_place : isPrintCall c.place = some (.ok c.isPrintCall, c.place) := by
  rw [isPrintCall, bind_of_ok peek_place, Cursor.isPrintCall]
  by_cases hopen : (c.peek 1).kind = .symbol .openParen
  · rw [if_pos hopen, bind_of_ok peek_place, decide_eq_true hopen]
    by_cases hclose : (c.peek 2).kind = .symbol .closeParen
    · rw [if_pos hclose, decide_eq_true hclose]
      rfl
    · rw [if_neg hclose, decide_eq_false hclose, ← c.drop_tokens_position]
      rfl
  · rw [if_neg hopen, decide_eq_false hopen]
    rfl

/-- Each parameter is a token. -/
theorem parameters_tracks {seen : List String} {fuel : Nat} (hfuel : n ≤ fuel) :
    Tracks n 1 1 (parameters · seen) (Parser.parameters seen fuel) := by
  induction fuel generalizing n seen with
  | zero => exact .of_eq_zero (by omega)
  | succ fuel ih =>
    refine .succ (.bind (.expect (by simp)) fun t => .ite .failAt (.bind .accept fun comma => ?_))
    have hrest := @ih (n - 1) (t.value :: seen) (by omega)
    exact .ite (hrest.deepen (by omega)).weaken (.pure _)

theorem parameterList_tracks : Tracks n 0 1 parameterList Parser.parameterList := by
  refine .bind .isAt fun closed => .ite (.pure _) (.remaining fun fuel => ?_)
  exact (parameters_tracks (by omega)).weaken

/-! ## Statements in others -/

section Statements

variable {stmt : Parser Stmt}

/-- Each statement passes a token, so there are no more statements than tokens. -/
theorem statementsUntil_tracks (h : Tracks n 1 12 statement stmt) {close : Kind} {fuel : Nat}
    (hfuel : n ≤ fuel + 1) :
    Tracks n 0 13 (statementsUntil · close) (Parser.statementsUntil close stmt fuel) := by
  induction fuel generalizing n with
  | zero =>
    -- a reading without fuel is at the mark of the end, where the walk stops
    refine .succ fun c depth hc _ => ?_
    have heof := (hc.mono hfuel).eof_of_one
    refine (Agrees.pure []).congr ((bind_of_ok (a := c.current) rfl).trans ?_) rfl
    rw [if_pos (.inr heof)]
  | succ fuel ih =>
    refine .succ (.bind .current fun t => .ite (.pure _) (h.bind fun first => ?_))
    have hrest := ih (h.within (Nat.sub_le n 1)) (by omega)
    exact (hrest.deepen (by omega)).bind fun rest => .pure _

/-- The statements of a block stand behind its brace. -/
theorem block_tracks (h : Tracks n 1 12 statement stmt) :
    Tracks (n + 1) 1 1 block (Parser.block stmt) := by
  refine .succ (.bind (.expect (by simp)) fun t => .remaining fun fuel => ?_)
  have hstatements := @statementsUntil_tracks _ _ (h.within (Nat.min_le_right (fuel + 1) n))
    (.symbol .closeBrace) fuel (Nat.min_le_left _ _)
  refine (hstatements.deepen (by omega)).bind fun statements => ?_
  exact .bind (.expect (by simp)) fun _ => .pure _

/-- The alternative of a choice stands behind a keyword, or there is none. -/
theorem alternate?_tracks (h : Tracks n 1 1 block (Parser.block stmt))
    {next : Token → Parser Stmt} (hnext : ∀ t, Tracks n 1 1 (branch · t) (next t)) :
    Tracks n 0 3 alternate? (Parser.alternate? stmt next) := by
  have hchoice : Tracks n 1 2 choice (Parser.advance >>= next) :=
    .succ (.bind .advance fun keyword => hnext keyword)
  refine .succ (.bind .accept fun keyword? => ?_)
  cases keyword? with
  | some keyword => exact ((hnext keyword).deepen (by omega)).map.weaken
  | none =>
    refine .bind .accept fun other => .ite (.bind .isAt fun further => .ite ?_ ?_) (.pure _)
    · rw [← map_bind]
      exact hchoice.map.weaken
    · exact (h.deepen (by omega)).map.weaken

/-- Each further choice has a condition, which passes a token. -/
theorem branch_tracks (h : Tracks n 1 12 statement stmt) {fuel : Nat} (hm : m ≤ n + 1)
    (hfuel : m ≤ fuel) {keyword : Token} :
    Tracks m 1 1 (branch · keyword) (Parser.branch stmt fuel keyword) := by
  induction fuel generalizing m keyword with
  | zero => exact .of_eq_zero (by omega)
  | succ fuel ih =>
    have hblock : Tracks (m - 1) 1 1 block (Parser.block stmt) :=
      (block_tracks h).within (by omega)
    have hother := alternate?_tracks (hblock.within (Nat.sub_le _ 1)) fun t =>
      @ih (m - 1 - 1) (by omega) (by omega) t
    refine .succ (condition_tracks.bind fun test => ?_)
    refine (hblock.deepen (by omega)).bind fun consequent => ?_
    exact (hother.deepen (by omega)).bind fun other => .pure _

theorem choice_tracks (h : Tracks n 1 12 statement stmt) :
    Tracks (n + 1) 1 2 choice (Parser.choiceStatement stmt) := by
  refine .remaining fun fuel => .succ (.bind .advance fun keyword => ?_)
  exact branch_tracks h (by omega) (by omega)

theorem loop_tracks (h : Tracks n 1 12 statement stmt) :
    Tracks (n + 1) 1 1 loop (Parser.loop stmt) := by
  refine .succ (.bind .advance fun t => condition_tracks.bind fun test => ?_)
  exact ((block_tracks h).mono (by omega) le_rfl (by omega)).bind fun body => .pure _

/-- A function passes its keyword, its name and its parentheses in front of its block. -/
theorem function_tracks (h : Tracks n 1 12 statement stmt) :
    Tracks (n + 1) 1 1 function (Parser.function stmt) := by
  refine .succ (.bind .advance fun t => .bind (.expect (by simp)) fun name => ?_)
  refine .bind (.expect (by simp)) fun _ => (parameterList_tracks.deepen (by omega)).bind
    fun params => .bind (.expect (by simp)) fun _ => ?_
  exact ((block_tracks h).mono (by omega) le_rfl (by omega)).bind fun body => .pure _

/-- One case for each token that a statement starts with. -/
theorem statementWith_tracks (h : Tracks n 1 12 statement stmt) :
    Tracks (n + 1) 1 12 statement (Parser.statementWith stmt) := by
  refine .succ fun c depth hc hdepth => Agrees.get ?_
  refine Agrees.congr (w := _) ?_ (bind_of_ok (a := c.current) rfl) rfl
  have hplain := expressionStatement_tracks hc (Nat.le_trans (by omega) hdepth)
  generalize c.current.kind = kind
  cases kind with
  | identifier => exact Agrees.peek (.ite (assignment_tracks hc hdepth) hplain)
  | symbol sign =>
    cases sign with
    | openBrace => exact ((block_tracks h).deepen (by omega)).map hc hdepth
    | _ => exact .fail
  | keyword word =>
    cases word with
    | declare => exact declaration_tracks hc hdepth
    | print =>
      have hforms : Agrees 1 (if c.isPrintCall then expressionStatement depth else print depth)
          (if c.isPrintCall then Parser.expressionStatement else Parser.print) c :=
        .ite hplain (print_tracks hc hdepth)
      exact hforms.congr (bind_of_ok isPrintCall_place) rfl
    | when => exact ((choice_tracks h).deepen (by omega) hc hdepth).congr rfl rfl
    | loop => exact (loop_tracks h).deepen (by omega) hc hdepth
    | function => exact (function_tracks h).deepen (by omega) hc hdepth
    | giveBack => exact giveBack_tracks.deepen (by omega) hc hdepth
    | stop | skip => exact bare_tracks hc hdepth
    | input | list | append | length => exact hplain
    | _ => exact .fail
  | _ => exact .fail

/-- The fuel of a nested statement is the number of tokens that are left for it. -/
theorem statementWithin_tracks (depth : Nat) :
    Tracks depth 1 12 statement (Parser.statementWithin depth) := by
  induction depth with
  | zero => exact .of_eq_zero rfl
  | succ depth ih => exact statementWith_tracks ih

theorem statement_tracks : Tracks n 1 12 statement Parser.statement :=
  .remaining fun fuel => (statementWithin_tracks (fuel + 1)).within (by omega)

end Statements

/-- A program passes its first marker, which pays for the statements. -/
theorem program_tracks : Tracks n 1 spare program Parser.program := by
  refine .bind (.expect (by simp)) fun t => semicolon_tracks.bind fun _ => .remaining fun fuel => ?_
  have hstatements := @statementsUntil_tracks _ _ (@statement_tracks (fuel + 1)) .finish fuel le_rfl
  refine (hstatements.mono (by omega) le_rfl (by omega)).bind fun statements => ?_
  refine .bind (.expect (by simp)) fun _ => semicolon_tracks.bind fun _ => ?_
  exact Tracks.demand_any.bind fun _ => .pure _

end Walk

/-! ## Calls -/

/-- What can be asked of a cursor. -/
inductive Call : Type → Type where
  | peek (offset : Nat) : Call Token
  | advance : Call Token
  | accept (kinds : List Kind) : Call (Option Token)
  | demand (kind : Kind) (complaint : Complaint) : Call Token
  | eat (kind : Kind) : Call Token
  | expression : Call Expr
  | ranked (rank : Rank) : Call Expr
  | declaration : Call Stmt
  | assignment : Call Stmt
  | print : Call Stmt
  | choice : Call Stmt
  | loop : Call Stmt
  | function : Call Stmt
  | giveBack : Call Stmt
  | expressionStatement : Call Stmt
  | statement : Call Stmt
  | block : Call Block
  | program : Call Program

namespace Call

/-- The call reads an expression, a statement, a block or a program, and not a single token. -/
def isPhrase : Call α → Bool
  | peek _ | advance | accept _ | demand _ _ | eat _ => false
  | _ => true

/-- What the call does to a cursor. -/
def read : Call α → Parser α
  | peek offset => do return (← get).peek offset
  | advance => Parser.advance
  | accept kinds => Parser.acceptAny kinds
  | demand kind complaint => Parser.demand kind complaint
  | eat kind => Parser.eat kind
  | expression => Parser.expression
  | ranked rank => Parser.ofRank rank Parser.expression
  | declaration => Parser.declaration
  | assignment => Parser.assignment
  | print => Parser.print
  | choice => Parser.choiceStatement Parser.statement
  | loop => Parser.loop Parser.statement
  | function => Parser.function Parser.statement
  | giveBack => Parser.giveBack
  | expressionStatement => Parser.expressionStatement
  | statement => Parser.statement
  | block => Parser.block Parser.statement
  | program => Parser.program

/-- What the call does to a place, down to a depth. -/
def walk (depth : Nat) : Call α → Walk α
  | peek offset => Walk.peek offset
  | advance => Walk.advance
  | accept kinds => Walk.acceptAny kinds
  | demand kind complaint => Walk.demand kind complaint
  | eat kind => Walk.eat kind
  | expression => Walk.expression depth
  | ranked rank => Walk.ranked depth rank
  | declaration => Walk.declaration depth
  | assignment => Walk.assignment depth
  | print => Walk.print depth
  | choice => Walk.choice depth
  | loop => Walk.loop depth
  | function => Walk.function depth
  | giveBack => Walk.giveBack depth
  | expressionStatement => Walk.expressionStatement depth
  | statement => Walk.statement depth
  | block => Walk.block depth
  | program => Walk.program depth

open Walk in
/-- Every call is a step or a reading that was tracked. -/
theorem walk_tracks (call : Call α) (n : Nat) :
    Tracks n (if call.isPhrase then 1 else 0) 12 (call.walk ·) call.read := by
  have hn := Nat.le_succ n
  cases call with
  | peek offset => exact fun c _ _ _ => .ok rfl peek_place (.refl c) (Nat.zero_le _)
  | advance => exact .advance
  | accept kinds => exact .acceptAny
  | demand kind complaint => exact .demand_any
  | eat kind => exact .bind .current fun t => .demand_any
  | expression => exact expression_tracks.deepen (by omega)
  | ranked rank => exact (ranked_tracks expression_tracks rank).mono hn le_rfl (by omega)
  | declaration => exact declaration_tracks
  | assignment => exact assignment_tracks
  | print => exact print_tracks.deepen (by omega)
  | choice => exact (choice_tracks statement_tracks).mono hn le_rfl (by omega)
  | loop => exact (loop_tracks statement_tracks).mono hn le_rfl (by omega)
  | function => exact (function_tracks statement_tracks).mono hn le_rfl (by omega)
  | giveBack => exact giveBack_tracks.deepen (by omega)
  | expressionStatement => exact expressionStatement_tracks.deepen (by omega)
  | statement => exact statement_tracks
  | block => exact (block_tracks statement_tracks).mono hn le_rfl (by omega)
  | program => exact program_tracks

/-- Sixteen levels for each token are enough for every call. -/
theorem walk_agrees (call : Call α) {c : Cursor} {depth : Nat} (hc : c.Ended)
    (hdepth : 16 * c.tokens.length ≤ depth) :
    Walk.Agrees (if call.isPhrase then 1 else 0) (call.walk depth) call.read c := by
  rw [c.length_tokens] at hdepth
  exact call.walk_tracks _ (.of_ended hc) (by omega)

end Call

/-! ## Calls one after the other -/

/-- The cursor behind some calls, each of which may have succeeded or complained. -/
def Cursor.after (c : Cursor) : List (Σ α, Call α) → Cursor
  | [] => c
  | call :: calls =>
    match call.2.read c with
    | .ok _ c' => c'.after calls
    | .error _ c' => c'.after calls

/-- The place behind some calls, if all of them end above the depth. -/
def Place.after? (depth : Nat) (s : Place) : List (Σ α, Call α) → Option Place
  | [] => some s
  | call :: calls =>
    match call.2.walk depth s with
    | some (_, s') => s'.after? depth calls
    | none => none

/-- The place is one of a list of tokens, and its token is the one there. -/
structure Place.LiesIn (s : Place) (tokens : List Token) : Prop where
  tokens_eq : s.tokens = tokens
  index_lt : s.index < tokens.length
  current_eq : tokens[s.index]? = some s.current

theorem Cursor.place_liesIn (c : Cursor) : c.place.LiesIn c.tokens :=
  ⟨rfl, c.position_lt, c.getElem?_tokens_position⟩

/-- Calls lead the place of a cursor to the place of the cursor that they lead to. -/
theorem Cursor.after?_place {c : Cursor} {depth : Nat} (hc : c.Ended)
    (hdepth : 16 * c.tokens.length ≤ depth) (calls : List (Σ α, Call α)) :
    c.place.after? depth calls = some (c.after calls).place ∧
      ∃ ts, c.Passes ts (c.after calls) := by
  induction calls generalizing c with
  | nil => exact ⟨rfl, [], .refl c⟩
  | cons call calls ih =>
    have hnext {c' : Cursor} {ts : List Token} (hpass : c.Passes ts c') :
        c'.place.after? depth calls = some (c'.after calls).place ∧
          ∃ us, c.Passes us (c'.after calls) := by
      obtain ⟨hafter, us, hpass'⟩ := ih (hpass.ended hc) (by rwa [hpass.tokens_eq])
      exact ⟨hafter, _, hpass.trans hpass'⟩
    rw [Place.after?, Cursor.after]
    cases call.2.walk_agrees hc hdepth with
    | ok hp hw hpass _ =>
      rw [hp, hw]
      exact hnext hpass
    | error hp hw hpass =>
      rw [hp, hw]
      exact hnext hpass

/-- Wherever calls lead from the first of some tokens, the place lies in the tokens.  The next call ends
there, within sixteen levels for each token, with a value or with a complaint about a token, so it
finds every token that it asks for.  The index does not go back, and it goes on if the call has read a
phrase.  The reading from the cursor has the same outcome. -/
theorem Place.after?_progresses {tokens : List Token} {start : Cursor} {depth : Nat}
    (h : Cursor.ofTokens? tokens = some start) (hdepth : 16 * tokens.length ≤ depth)
    (calls : List (Σ α, Call α)) :
    ∃ s, start.place.after? depth calls = some s ∧ (start.after calls).place = s ∧
      s.LiesIn tokens ∧ ∀ {α : Type} (call : Call α),
        (∃ a c', call.read (start.after calls) = .ok a c' ∧
          call.walk depth s = some (.ok a, c'.place) ∧ s.index ≤ c'.place.index ∧
          (call.isPhrase → s.index < c'.place.index)) ∨
        ∃ e c', call.read (start.after calls) = .error e c' ∧
          call.walk depth s = some (.error (.complaint e), c'.place) ∧
          s.index ≤ c'.place.index := by
  obtain ⟨hrest, hpassed, hstart⟩ := Parser.ofTokens?_eq_some.1 h
  have htokens : start.tokens = tokens := by
    rw [← hrest, Cursor.tokens, hpassed]
    rfl
  rw [← htokens] at hdepth
  obtain ⟨hafter, ts, hpass⟩ := Cursor.after?_place hstart hdepth calls
  have hlies := (start.after calls).place_liesIn
  rw [hpass.tokens_eq, htokens] at hlies
  rw [← hpass.tokens_eq] at hdepth
  refine ⟨_, hafter, rfl, hlies, fun call => ?_⟩
  have hindex {c' : Cursor} {us : List Token} (hpass' : (start.after calls).Passes us c') :
      c'.place.index = (start.after calls).place.index + us.length :=
    hpass'.position_eq
  cases call.walk_agrees (hpass.ended hstart) hdepth with
  | @ok a c' us hp hw hpass' hk =>
    have hgoes := hindex hpass'
    refine .inl ⟨a, c', hp, hw, by omega, fun hphrase => ?_⟩
    rw [if_pos hphrase] at hk
    omega
  | @error e c' us hp hw hpass' =>
    have hgoes := hindex hpass'
    exact .inr ⟨e, c', hp, hw, by omega⟩

/-- A print keyword without a value, and a mark of the end in the middle. -/
def strayEnd : List Token :=
  [⟨.keyword .print, "dakhava", .first⟩, ⟨.eof, "", .first⟩, ⟨.symbol .plus, "+", .first⟩,
    ⟨.eof, "", .first⟩]

/-- The statement fails behind its keyword, and nothing passes the mark in the middle. -/
theorem Place.after?_strayEnd :
    ∃ start s, Cursor.ofTokens? strayEnd = some start ∧ 16 * strayEnd.length ≤ 64 ∧
      start.place.after? 64 [⟨_, .statement⟩, ⟨_, .advance⟩, ⟨_, .peek 7⟩] = some s ∧
      s.index = 1 ∧ s.LiesIn strayEnd ∧
      ∃ e s', Call.walk 64 .statement s = some (.error (.complaint e), s') := by
  have hstart : Cursor.ofTokens? strayEnd = some _ := rfl
  obtain ⟨s, hafter, hplace, hlies, hcall⟩ := Place.after?_progresses hstart
    (by decide : 16 * strayEnd.length ≤ 64) [⟨_, .statement⟩, ⟨_, .advance⟩, ⟨_, .peek 7⟩]
  refine ⟨_, s, hstart, by decide, hafter, ?_, hlies, ?_⟩
  · rw [← hplace]
    rfl
  · rcases hcall .statement with ⟨_, _, hread, _⟩ | ⟨e, c', _, hwalk, _⟩
    · cases hread
    · exact ⟨e, c'.place, hwalk⟩

end Boli
