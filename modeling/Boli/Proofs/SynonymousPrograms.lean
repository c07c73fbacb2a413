import Boli.Proofs.FirstMisfit
import Boli.Proofs.Synonyms
import Boli.Proofs.WellFormedness

/-!
# Programs with synonyms

The readings of statements and programs go through two spellings in parallel, as those of expressions
do.  So synonyms can be put for each other anywhere (`program_of_synonymous`).  The token lists are
both programs, which differ in their lines at most, or both are none, and what is wrong is wrong at
the same place of both.

A further choice is the only phrase that the two readings go through in different ways.  Where one
keyword of the first list stands for two of the second, the first reading takes one step and the
second one takes two (`Spellings.alternate?_parallel`).
-/

namespace Boli

namespace Parser

/-- No statement starts with a token that has a synonym. -/
theorem statementAt_of_hasSynonym {s : Parser Stmt} {k : Kind} (h : k.hasSynonym) :
    statementAt s k = fail (.expected .statement) := by
  cases k with
  | keyword word => cases word <;> cases h <;> rfl
  | symbol sign => cases sign <;> cases h <;> rfl
  | _ => cases h

/-! ## The other side of a choice -/

/-- What stands behind the keyword for the other side of a choice. -/
def otherSide (stmt : Parser Stmt) (choice : Token → Parser Stmt) : Parser (Option Stmt) := do
  if ← isAt (.keyword .when) then
    some <$> choice (← advance)
  else
    (some ∘ Stmt.block) <$> block stmt

variable {stmt : Parser Stmt} {choice : Token → Parser Stmt} {c : Cursor}

/-- Behind the keyword, another choice may follow. -/
theorem otherSide_of_when (h : c.current.kind = .keyword .when) :
    otherSide stmt choice c = (some <$> choice c.current) c.advance := by
  rw [otherSide, bind_of_ok (isAt_eq_ok.2 ⟨rfl, rfl⟩), if_pos (decide_eq_true h),
    bind_of_ok (advance_eq_ok.2 ⟨rfl, rfl⟩)]

theorem otherSide_of_ne (h : c.current.kind ≠ .keyword .when) :
    otherSide stmt choice c = ((some ∘ Stmt.block) <$> block stmt) c := by
  rw [otherSide, bind_of_ok (isAt_eq_ok.2 ⟨rfl, rfl⟩), if_neg (by simpa using h)]

/-- One keyword announces a further choice. -/
theorem alternate?_of_otherwiseWhen (h : c.current.kind = .keyword .otherwiseWhen) :
    alternate? stmt choice c = (some <$> choice c.current) c.advance := by
  rw [alternate?, bind_of_ok (accept_of_eq h)]

/-- The other keyword leaves open what the other side is. -/
theorem alternate?_of_otherwise (h : c.current.kind = .keyword .otherwise) :
    alternate? stmt choice c = otherSide stmt choice c.advance := by
  rw [alternate?, bind_of_ok (accept_of_ne (by simp [h]))]
  simp only
  rw [bind_of_ok (accept_of_eq h)]
  rfl

/-- A choice may have no other side. -/
theorem alternate?_of_ne (hw : c.current.kind ≠ .keyword .otherwiseWhen)
    (ho : c.current.kind ≠ .keyword .otherwise) : alternate? stmt choice c = .ok none c := by
  rw [alternate?, bind_of_ok (accept_of_ne hw)]
  simp only
  rw [bind_of_ok (accept_of_ne ho)]
  rfl

end Parser

namespace Token

/-- The keywords that are no comparison are those of both tokens or of none. -/
theorem Synonym.keyword_iff {free : Prop} {t u : Token} {word : Keyword} (h : t.Synonym free u)
    (hword : word.sign? = none) : t.kind = .keyword word ↔ u.kind = .keyword word := by
  cases h with
  | same h =>
    have hkind : t.kind = u.kind := congrArg Word.kind h
    rw [hkind]
  | sign _ hsign ht hu =>
    rw [ht, hu]
    refine iff_of_false (fun heq => ?_) (by simp)
    cases heq
    cases hsign.symm.trans hword
  | word _ hsign ht hu =>
    rw [ht, hu]
    refine iff_of_false (by simp) (fun heq => ?_)
    cases heq
    cases hsign.symm.trans hword

end Token

/-- The keyword for a further choice stands in the other list too, or two keywords stand there for
it. -/
theorem Synonymous.cases_of_otherwiseWhen {free : Prop} {t : Token} {ts us : List Token}
    (h : Synonymous free (t :: ts) us) (ht : t.kind = .keyword .otherwiseWhen) :
    (∃ u us', us = u :: us' ∧ t.word = u.word ∧ Synonymous free ts us') ∨
      free ∧ ∃ u v us', us = u :: v :: us' ∧ u.kind = .keyword .otherwise ∧
        v.kind = .keyword .when ∧ Synonymous free ts us' := by
  cases h with
  | joined hfree _ hu hv hs => exact .inr ⟨hfree, _, _, _, rfl, hu, hv, hs⟩
  | cons h hs =>
    cases h with
    | same h => exact .inl ⟨_, _, rfl, h, hs⟩
    | sign _ hsign ht' =>
      cases ht.symm.trans ht'
      cases hsign
    | word _ _ ht' => cases ht.symm.trans ht'

namespace Spellings

variable {free : Prop} {L : Spellings free} {c d : Cursor} {n m i j : Nat}

/-! ## Statements without blocks -/

theorem semicolon_parallel {clause : Clause} :
    L.Parallel n m Eq (Parser.semicolon clause) (Parser.semicolon clause) :=
  .expect rfl (by decide) fun _ _ => .pure rfl

/-- The word of the keyword is only for complaints, which may differ in it. -/
theorem condition_parallel {word word' : String} (h : free ∨ word = word') :
    L.Parallel n m Expr.Relined (Parser.condition word) (Parser.condition word') := by
  have hagrees : (Complaint.expected (.parenAfterKeyword word)).Agrees free
      (.expected (.parenAfterKeyword word')) := by
    rcases h with hfree | rfl
    · exact .inr ⟨hfree, word, word', rfl, rfl⟩
    · exact .inl rfl
  exact .demand rfl (by decide) hagrees rfl fun _ _ => .bind expression_parallel fun he =>
    .expect rfl (by decide) fun _ _ => .pure he

theorem initial?_parallel :
    L.Parallel n m (Option.Rel Expr.Relined) Parser.initial? Parser.initial? :=
  .accept rfl (by decide) (fun _ _ => .map expression_parallel .some) (.pure .none)

theorem declaration_concurs (hc : L.Abreast i j c d) (hk : c.current.kind = .keyword .declare) :
    L.Concur i j Stmt.Relined (Parser.declaration c) (Parser.declaration d) :=
  .step hc le_rfl le_rfl (by simp [hk]) (by simp [hk]) (.expect rfl (by decide) fun _ hname =>
    .bind initial?_parallel fun he => .bind semicolon_parallel fun _ => .pure (.declare hname he))

/-- The sign behind the name has no synonym, so both readings see it. -/
theorem assignment_concurs (hc : L.Abreast i j c d) (hk : c.current.kind = .identifier)
    (hassign : (c.peek 1).kind = .symbol .assign) :
    L.Concur i j Stmt.Relined (Parser.assignment c) (Parser.assignment d) := by
  have hk' := (hc.counterpart.kind_iff rfl).1 hk
  have hvalue : c.current.value = d.current.value := hc.counterpart.value_eq (by rw [hk]; rfl)
  have hnext := hc.advance_of_kind hk rfl (by decide)
  rw [Cursor.peek_one_eq hc.within.ended (by simp [hk])] at hassign
  have hassign' := (hnext.counterpart.kind_iff rfl).1 hassign
  have hrun {c : Cursor} (hassign : c.advance.current.kind = .symbol .assign) :
      Parser.assignment c = (do
        let value ← Parser.expression
        Parser.semicolon .assignment
        return .assign (some c.current.line) c.current.value value : Parser Stmt)
          c.advance.advance := by
    rw [Parser.assignment, Parser.bind_of_ok (Parser.advance_eq_ok.2 ⟨rfl, rfl⟩),
      Parser.bind_of_ok (Parser.eat_eq_ok.2 ⟨hassign, rfl, rfl⟩)]
  have hread : L.Parallel (i - 1 - 1) (j - 1 - 1) Stmt.Relined
      (do
        let value ← Parser.expression
        Parser.semicolon .assignment
        return .assign (some c.current.line) c.current.value value)
      (do
        let value ← Parser.expression
        Parser.semicolon .assignment
        return .assign (some d.current.line) d.current.value value) :=
    .bind expression_parallel fun he => .bind semicolon_parallel fun _ => .pure (.assign hvalue he)
  rw [hrun hassign, hrun hassign']
  exact (hread le_rfl le_rfl (hnext.advance_of_kind hassign rfl (by decide))).mono (by omega)
    (by omega)

/-- A print statement and its values are the same on both sides. -/
theorem print_concurs (hc : L.Abreast i j c d) (hk : c.current.kind = .keyword .print) :
    L.Concur i j Stmt.Relined (Parser.print c) (Parser.print d) :=
  .step hc le_rfl le_rfl (by simp [hk]) (by simp [hk]) (.remaining fun _ _ =>
    .bind (commaSeparated_parallel (Nat.min_le_left _ _) (Nat.min_le_left _ _) expression_parallel)
      fun hes => .bind semicolon_parallel fun _ => .pure (.print hes))

theorem given?_parallel :
    L.Parallel n m (Option.Rel Expr.Relined) Parser.given? Parser.given? := by
  refine .bind (.isAt rfl) ?_
  rintro b _ rfl
  exact .ite Iff.rfl (.pure .none) (.map expression_parallel .some)

theorem giveBack_concurs (hc : L.Abreast i j c d) (hk : c.current.kind = .keyword .giveBack) :
    L.Concur i j Stmt.Relined (Parser.giveBack c) (Parser.giveBack d) :=
  .step hc le_rfl le_rfl (by simp [hk]) (by simp [hk]) (.bind given?_parallel fun he =>
    .bind semicolon_parallel fun _ => .pure (.giveBack he))

theorem bare_concurs {make : Line → Stmt} {clause : Clause} (hc : L.Abreast i j c d)
    (hk : c.current.kind ≠ .eof) (hw : c.current.kind ≠ .keyword .otherwiseWhen)
    (h : ∀ line line', (make line).Relined (make line')) :
    L.Concur i j Stmt.Relined (Parser.bare make clause c) (Parser.bare make clause d) :=
  .step hc le_rfl le_rfl hk hw (.bind semicolon_parallel fun _ => .pure (h _ _))

theorem expressionStatement_parallel :
    L.Parallel n m Stmt.Relined Parser.expressionStatement Parser.expressionStatement := by
  intro i j c d hi hj hc
  have hread : L.Parallel n m Stmt.Relined
      (do
        let e ← Parser.expression
        Parser.semicolon .expression
        return .expression (some c.current.line) e)
      (do
        let e ← Parser.expression
        Parser.semicolon .expression
        return .expression (some d.current.line) e) :=
    .bind expression_parallel fun he => .bind semicolon_parallel fun _ => .pure (.expression he)
  exact hread hi hj hc

/-- One look behind the name decides on both sides alike whether it is assigned to. -/
theorem nameStatement_concurs (hc : L.Abreast i j c d) (hk : c.current.kind = .identifier) :
    L.Concur i j Stmt.Relined (Parser.nameStatement c) (Parser.nameStatement d) := by
  have hnext := hc.peek_one (by rw [hk]; rfl) (by simp [hk])
  rw [Parser.nameStatement_run, Parser.nameStatement_run]
  by_cases hassign : (c.peek 1).kind = .symbol .assign
  · rw [if_pos hassign, if_pos ((hnext.kind_iff rfl).1 hassign)]
    exact assignment_concurs hc hk hassign
  · rw [if_neg hassign, if_neg (mt (hnext.kind_iff rfl).2 hassign)]
    exact expressionStatement_parallel le_rfl le_rfl hc

/-- Both lookaheads behind the print keyword give the same answer. -/
theorem printStatement_concurs (hc : L.Abreast i j c d) (hk : c.current.kind = .keyword .print) :
    L.Concur i j Stmt.Relined (Parser.printStatement c) (Parser.printStatement d) := by
  rw [Parser.printStatement_run, Parser.printStatement_run, ← hc.isPrintCall_eq hk]
  split
  · exact expressionStatement_parallel le_rfl le_rfl hc
  · exact print_concurs hc hk

/-- The names seen so far are the same, so the same name is the first to come twice. -/
theorem parameters_parallel (seen : List String) {k l : Nat} (hk : n ≤ k) (hl : m ≤ l) :
    L.Parallel n m Eq (Parser.parameters seen k) (Parser.parameters seen l) := by
  induction k generalizing seen l n m with
  | zero => exact fun _ _ _ _ hi _ hc => absurd (hc.within.mono (hi.trans hk)) Cursor.Within.not_zero
  | succ k ih =>
    cases l with
    | zero =>
      exact fun _ _ _ _ _ hj hc => absurd (hc.within'.mono (hj.trans hl)) Cursor.Within.not_zero
    | succ l =>
      refine .expect rfl (by decide) fun ht hvalue => ?_
      rw [hvalue]
      exact .ite Iff.rfl (.failAt ht rfl) (.accept rfl (by decide)
        (fun _ _ => ih _ (by omega) (by omega)) (.pure rfl))

theorem parameterList_parallel :
    L.Parallel n m Eq Parser.parameterList Parser.parameterList := by
  refine .bind (.isAt rfl) ?_
  rintro b _ rfl
  exact .ite Iff.rfl (.pure rfl) (.remaining fun k l =>
    parameters_parallel [] (Nat.min_le_left _ _) (Nat.min_le_left _ _))

/-! ## Statements with blocks -/

/-- A statement takes at least one token. -/
theorem remaining_lt_of_statement {s : Parser Stmt} (hs : Parser.SoundStatement s) {a : Stmt}
    {c' : Cursor} (hc : c.Ended) (h : s c = .ok a c') : c'.remaining < c.remaining := by
  obtain ⟨ts, hpass, hbuilds⟩ := hs hc h
  have hlength := List.length_pos_of_ne_nil (Parser.ne_nil_of_builds hbuilds)
  have hremaining := hpass.remaining_eq
  omega

section Blocks

variable {s t : Parser Stmt} (hs : Parser.SoundStatement s) (ht : Parser.SoundStatement t)
  (h : L.Parallel n m Stmt.Relined s t)

include hs ht h

/-- What follows a statement has fewer tokens ahead on both sides. -/
theorem bind_statement {α : Type} {S : α → α → Prop} {f g : Stmt → Parser α}
    (hf : ∀ {a b}, a.Relined b → L.Parallel (n - 1) (m - 1) S (f a) (g b)) :
    L.Parallel n m S (s >>= f) (t >>= g) := by
  intro i j c d hi hj hc
  have hcases := h hi hj hc
  show L.Concur i j S (EStateM.bind s f c) (EStateM.bind t g d)
  rw [EStateM.bind, EStateM.bind]
  generalize hx : s c = x at hcases
  generalize hy : t d = y at hcases
  cases hcases with
  | error htwins hagrees hgrammatical => exact .error htwins hagrees hgrammatical
  | ok hab hc' =>
    have hlt := remaining_lt_of_statement hs hc.within.ended hx
    have hlt' := remaining_lt_of_statement ht hc.within'.ended hy
    have hbound := hc.within.lt
    have hbound' := hc.within'.lt
    have hnext := hf hab (i := i - 1) (j := j - 1) (by omega) (by omega)
      (hc'.tighten (by omega) (by omega))
    exact hnext.mono (Nat.sub_le _ _) (Nat.sub_le _ _)

/-- Every statement takes a token, so each side has enough fuel for its statements. -/
theorem statementsUntil_parallel {close : Kind} (hclose : close.hasSynonym = false) {k l : Nat}
    (hk : n ≤ k + 1) (hl : m ≤ l + 1) : L.Parallel n m (List.Forall₂ Stmt.Relined)
      (Parser.statementsUntil close s k) (Parser.statementsUntil close t l) := by
  induction k using Nat.strong_induction_on generalizing l n m with
  | _ k ih =>
    intro i j c d hi hj hc
    have hstops : c.current.kind = close ∨ c.current.kind = .eof ↔
        d.current.kind = close ∨ d.current.kind = .eof :=
      or_congr (hc.counterpart.kind_iff hclose) (hc.counterpart.kind_iff rfl)
    by_cases hstop : c.current.kind = close ∨ c.current.kind = .eof
    · rw [Parser.statementsUntil_of_stop hstop, Parser.statementsUntil_of_stop (hstops.1 hstop)]
      exact .ok .nil hc
    · obtain ⟨k, l, rfl, rfl⟩ := hc.exists_fuel (k := k) (l := l) (fun heof => hstop (.inr heof))
        (by omega) (by omega)
      rw [Parser.statementsUntil_of_go hstop,
        Parser.statementsUntil_of_go (mt hstops.2 hstop)]
      have hrest {a b : Stmt} (hab : a.Relined b) : L.Parallel (n - 1) (m - 1)
          (List.Forall₂ Stmt.Relined) (do return a :: (← Parser.statementsUntil close s k))
          (do return b :: (← Parser.statementsUntil close t l)) :=
        .bind (ih k (Nat.lt_succ_self k) (h.mono (Nat.sub_le n 1) (Nat.sub_le m 1)) (by omega)
          (by omega)) fun hss => .pure (.cons hab hss)
      exact bind_statement hs ht h hrest hi hj hc

theorem block_parallel :
    L.Parallel (n + 1) (m + 1) Block.Relined (Parser.block s) (Parser.block t) :=
  .expect rfl (by decide) fun _ _ => .remaining fun _ _ =>
    .bind (statementsUntil_parallel hs ht (h.mono (Nat.min_le_right _ _) (Nat.min_le_right _ _)) rfl
      (Nat.min_le_left _ _) (Nat.min_le_left _ _)) fun hss =>
      .expect rfl (by decide) fun _ _ => .pure (Block.relined_mk hss)

/-- The other side of a choice starts with the same keyword in both lists. -/
theorem otherSide_parallel {choice choice' : Token → Parser Stmt}
    (hchoice : ∀ {t u}, free ∨ t.value = u.value →
      L.Parallel n m Stmt.Relined (choice t) (choice' u)) :
    L.Parallel n m (Option.Rel Stmt.Relined) (Parser.otherSide s choice)
      (Parser.otherSide t choice') := by
  intro i j c d hi hj hc
  by_cases hwhen : c.current.kind = .keyword .when
  · have hvalue : c.current.value = d.current.value :=
      hc.counterpart.value_eq (by rw [hwhen]; rfl)
    rw [Parser.otherSide_of_when hwhen,
      Parser.otherSide_of_when ((hc.counterpart.kind_iff rfl).1 hwhen)]
    have hnext := hc.advance_of_kind hwhen rfl (by decide)
    exact (Parallel.map (hchoice (.inr hvalue)) .some (by omega) (by omega) hnext).mono
      (Nat.sub_le _ _) (Nat.sub_le _ _)
  · rw [Parser.otherSide_of_ne hwhen,
      Parser.otherSide_of_ne (mt (hc.counterpart.kind_iff rfl).2 hwhen)]
    have hblock := (block_parallel hs ht h).mono (Nat.le_succ n) (Nat.le_succ m)
    exact Parallel.map hblock (fun hb => .some (.block hb)) hi hj hc

/-- One keyword of the first list may be two of the second, and both ways lead to a further
choice. -/
theorem alternate?_parallel {choice choice' : Token → Parser Stmt}
    (hchoice : ∀ {t u}, free ∨ t.value = u.value →
      L.Parallel (n - 1) (m - 1) Stmt.Relined (choice t) (choice' u)) :
    L.Parallel n m (Option.Rel Stmt.Relined) (Parser.alternate? s choice)
      (Parser.alternate? t choice') := by
  intro i j c d hi hj hc
  by_cases hw : c.current.kind = .keyword .otherwiseWhen
  · -- one keyword, for which the second list has the same or two
    have hk : c.current.kind ≠ .eof := by simp [hw]
    have hk' : d.current.kind ≠ .eof := mt (hc.counterpart.kind_iff rfl).2 hk
    have hpass := Cursor.passes_advance hc.within.ended hk
    have hpass' := Cursor.passes_advance hc.within'.ended hk'
    have hrest := hc.rest
    rw [hpass.rest_eq] at hrest
    rw [Parser.alternate?_of_otherwiseWhen hw]
    rcases hrest.cases_of_otherwiseWhen hw with
      ⟨u, us, hd, hword, htail⟩ | ⟨hfree, u, v, us, hd, hu, hv, htail⟩
    · obtain ⟨rfl, rfl⟩ := List.cons.inj (hpass'.rest_eq.symm.trans hd)
      have hkind : c.current.kind = d.current.kind := congrArg Word.kind hword
      have hvalue : c.current.value = d.current.value := congrArg Word.value hword
      rw [Parser.alternate?_of_otherwiseWhen (hkind.symm.trans hw)]
      have hnext : L.Abreast (i - 1) (j - 1) c.advance d.advance :=
        hc.passes hpass hpass' (.cons (.same hword) .nil) htail
      exact (Parallel.map (hchoice (.inr hvalue)) .some (by omega) (by omega) hnext).mono
        (Nat.sub_le _ _) (Nat.sub_le _ _)
    · obtain ⟨rfl, hd'⟩ := List.cons.inj (hpass'.rest_eq.symm.trans hd)
      obtain ⟨rfl, rfl⟩ := List.cons.inj hd'
      have hpass'' := Cursor.passes_advance (hpass'.ended hc.within'.ended) (by simp [hv])
      rw [Parser.alternate?_of_otherwise hu, Parser.otherSide_of_when hv]
      have hnext : L.Abreast (i - 1) (j - 2) c.advance d.advance.advance := by
        refine hc.passes hpass (hpass'.trans hpass'') (.joined hfree hw hu hv .nil) ?_
        rwa [hpass''.ahead_eq] at htail
      exact (Parallel.map (hchoice (.inl hfree)) .some (by omega) (by omega) hnext).mono
        (Nat.sub_le _ _) (Nat.sub_le _ _)
  · have hsynonym := (hc.rest.tail hw).1
    have hw' := mt (hsynonym.keyword_iff rfl).2 hw
    by_cases ho : c.current.kind = .keyword .otherwise
    · rw [Parser.alternate?_of_otherwise ho,
        Parser.alternate?_of_otherwise ((hsynonym.keyword_iff rfl).1 ho)]
      have hnext := hc.advance (by simp [ho]) hw
      have hother := otherSide_parallel hs ht (h.mono (Nat.sub_le n 1) (Nat.sub_le m 1)) hchoice
      exact (hother (by omega) (by omega) hnext).mono (Nat.sub_le _ _) (Nat.sub_le _ _)
    · rw [Parser.alternate?_of_ne hw ho,
        Parser.alternate?_of_ne hw' (mt (hsynonym.keyword_iff rfl).2 ho)]
      exact .ok .none hc

/-- A choice goes on in its other side with less fuel. -/
theorem branch_parallel {k l : Nat} (hk : n ≤ k) (hl : m ≤ l) {t₁ t₂ : Token}
    (hvalue : free ∨ t₁.value = t₂.value) :
    L.Parallel n m Stmt.Relined (Parser.branch s k t₁) (Parser.branch t l t₂) := by
  induction k generalizing l n m t₁ t₂ with
  | zero => exact fun _ _ _ _ hi _ hc => absurd (hc.within.mono (hi.trans hk)) Cursor.Within.not_zero
  | succ k ih =>
    cases l with
    | zero =>
      exact fun _ _ _ _ _ hj hc => absurd (hc.within'.mono (hj.trans hl)) Cursor.Within.not_zero
    | succ l =>
      have hblock := (block_parallel hs ht h).mono (Nat.le_succ n) (Nat.le_succ m)
      have hless := h.mono (Nat.sub_le n 1) (Nat.sub_le m 1)
      have halternate := alternate?_parallel hs ht h fun hvalue =>
        ih (l := l) hless (by omega) (by omega) hvalue
      exact .bind (condition_parallel hvalue) fun he => .bind hblock fun hb =>
        .bind halternate fun ha => .pure (.branch he (.block hb) ha)

theorem loop_concurs (hc : L.Abreast i j c d) (hi : i ≤ n + 1) (hj : j ≤ m + 1)
    (hk : c.current.kind = .keyword .loop) :
    L.Concur i j Stmt.Relined (Parser.loop s c) (Parser.loop t d) := by
  have hblock := (block_parallel hs ht h).mono (Nat.le_succ n) (Nat.le_succ m)
  exact .step hc hi hj (by simp [hk]) (by simp [hk]) (.bind (condition_parallel (.inr rfl))
    fun he => .bind hblock fun hb => .pure (.loop he hb))

theorem function_concurs (hc : L.Abreast i j c d) (hi : i ≤ n + 1) (hj : j ≤ m + 1)
    (hk : c.current.kind = .keyword .function) :
    L.Concur i j Stmt.Relined (Parser.function s c) (Parser.function t d) := by
  refine .step hc hi hj (by simp [hk]) (by simp [hk]) (.expect rfl (by decide) fun _ hname =>
    .expect rfl (by decide) fun _ _ => .bind parameterList_parallel ?_)
  rintro params _ rfl
  have hblock := (block_parallel hs ht h).mono (i := n) (j := m) (Nat.le_succ n) (Nat.le_succ m)
  exact .expect rfl (by decide) fun _ _ => .bind (hblock.mono (by omega) (by omega)) fun hb =>
    .pure (.function hname hb)

theorem choiceStatement_concurs (hc : L.Abreast i j c d) (hi : i ≤ n + 1) (hj : j ≤ m + 1)
    (hk : c.current.kind = .keyword .when) :
    L.Concur i j Stmt.Relined (Parser.choiceStatement s c) (Parser.choiceStatement t d) := by
  have hvalue : c.current.value = d.current.value := hc.counterpart.value_eq (by rw [hk]; rfl)
  have hlt := hc.within.lt
  have hlt' := hc.within'.lt
  have htight : L.Abreast (c.remaining + 1) (d.remaining + 1) c d :=
    hc.tighten (Nat.lt_succ_self _) (Nat.lt_succ_self _)
  have hbranch : L.Parallel c.remaining d.remaining Stmt.Relined
      (Parser.branch s (c.remaining + 1) c.current) (Parser.branch t (d.remaining + 1) d.current) :=
    branch_parallel hs ht (h.mono (by omega) (by omega)) (Nat.le_succ _) (Nat.le_succ _)
      (.inr hvalue)
  have hread := hbranch le_rfl le_rfl (htight.advance_of_kind hk rfl (by decide))
  exact hread.mono (by omega) (by omega)

/-- The kind of the current token decides on the statement, and on both sides it decides alike. -/
theorem statementAt_concurs {k : Kind} (hc : L.Abreast i j c d) (hi : i ≤ n + 1) (hj : j ≤ m + 1)
    (hk : c.current.kind = k) :
    L.Concur i j Stmt.Relined (Parser.statementAt s k c) (Parser.statementAt t k d) := by
  have hfail : L.Concur i j Stmt.Relined (Parser.fail (.expected .statement) c)
      (Parser.fail (.expected .statement) d) := Parallel.fail rfl hi hj hc
  unfold Parser.statementAt
  split
  · exact declaration_concurs hc hk
  · exact nameStatement_concurs hc hk
  · exact printStatement_concurs hc hk
  · exact choiceStatement_concurs hs ht h hc hi hj hk
  · exact loop_concurs hs ht h hc hi hj hk
  · exact function_concurs hs ht h hc hi hj hk
  · exact giveBack_concurs hc hk
  · exact bare_concurs hc (by simp [hk]) (by simp [hk]) fun _ _ => rfl
  · exact bare_concurs hc (by simp [hk]) (by simp [hk]) fun _ _ => rfl
  · exact Parallel.map (block_parallel hs ht h) .block hi hj hc
  · split
    · exact expressionStatement_parallel hi hj hc
    · exact hfail
  · exact hfail

theorem statementWith_parallel : L.Parallel (n + 1) (m + 1) Stmt.Relined
    (Parser.statementWith s) (Parser.statementWith t) := by
  intro i j c d hi hj hc
  rw [Parser.statementWith_eq, Parser.statementWith_eq]
  cases hsynonym : c.current.kind.hasSynonym with
  | true =>
    have hsynonym' : d.current.kind.hasSynonym := hc.counterpart.hasSynonym_eq.symm.trans hsynonym
    rw [Parser.statementAt_of_hasSynonym hsynonym, Parser.statementAt_of_hasSynonym hsynonym']
    exact Parallel.fail rfl hi hj hc
  | false =>
    rw [← hc.counterpart.kind_eq hsynonym]
    exact statementAt_concurs hs ht h hc hi hj rfl

end Blocks

/-- The two sides may have different fuel for statements, as long as each has enough for its
tokens. -/
theorem statementWithin_parallel (n m : Nat) : L.Parallel n m Stmt.Relined
    (Parser.statementWithin n) (Parser.statementWithin m) := by
  induction n generalizing m with
  | zero => exact fun _ _ _ _ hi _ hc => absurd (hc.within.mono hi) Cursor.Within.not_zero
  | succ n ih =>
    cases m with
    | zero => exact fun _ _ _ _ _ hj hc => absurd (hc.within'.mono hj) Cursor.Within.not_zero
    | succ m =>
      exact statementWith_parallel (Parser.statementWithin_sound n)
        (Parser.statementWithin_sound m) (ih m)

theorem statement_parallel :
    L.Parallel n m Stmt.Relined Parser.statement Parser.statement := by
  refine .remaining fun k l => ?_
  exact (statementWithin_parallel (k + 1) (l + 1)).mono (Nat.min_le_left _ _) (Nat.min_le_left _ _)

/-! ## Programs -/

/-- The mark of the end, which is not passed. -/
theorem demandEnd_parallel {α : Type} {R : α → α → Prop} {a b : α} (h : R a b) :
    L.Parallel n m R (do let _ ← Parser.demand .eof .afterProgram; return a)
      (do let _ ← Parser.demand .eof .afterProgram; return b) := by
  intro i j c d hi hj hc
  by_cases hk : c.current.kind = .eof
  · have hk' := (hc.counterpart.kind_iff rfl).1 hk
    rw [Parser.bind_of_ok (Parser.demand_eq_ok.2 ⟨hk, rfl, Parser.advance_of_eof hk⟩),
      Parser.bind_of_ok (Parser.demand_eq_ok.2 ⟨hk', rfl, Parser.advance_of_eof hk'⟩)]
    exact .ok h hc
  · have hk' := mt (hc.counterpart.kind_iff rfl).2 hk
    rw [Parser.bind_of_error (Parser.demand_of_ne hk),
      Parser.bind_of_error (Parser.demand_of_ne hk')]
    exact .error hc.current (.inl rfl) rfl

/-- The frame of a program has no synonyms. -/
theorem program_parallel : L.Parallel n m Block.Relined Parser.program Parser.program := by
  refine .expect rfl (by decide) fun _ _ => .bind semicolon_parallel fun _ => .remaining fun k l => ?_
  have hbody : L.Parallel (min (k + 1) (n - 1)) (min (l + 1) (m - 1)) (List.Forall₂ Stmt.Relined)
      (Parser.statementsUntil .finish Parser.statement k)
      (Parser.statementsUntil .finish Parser.statement l) :=
    statementsUntil_parallel Parser.statement_sound Parser.statement_sound statement_parallel rfl
      (Nat.min_le_left _ _) (Nat.min_le_left _ _)
  exact .bind hbody fun hss => .expect rfl (by decide) fun _ _ => .bind semicolon_parallel fun _ =>
    demandEnd_parallel (Block.relined_mk hss)

/-! ## Whole token lists -/

/-- If a reading can start at the first list, then also at the second one, and abreast. -/
theorem exists_abreast (hs : Synonymous free L.first L.second)
    (h : Cursor.ofTokens? L.first = some c) :
    ∃ d, Cursor.ofTokens? L.second = some d ∧
      L.Abreast (c.remaining + 1) (d.remaining + 1) c d := by
  obtain ⟨hrest, hpassed, hended⟩ := Parser.ofTokens?_eq_some.1 h
  have hlast : ∃ t, L.first.getLast? = some t ∧ t.kind = .eof :=
    ⟨c.last, by rw [← hrest, c.getLast?_rest], hended⟩
  obtain ⟨z, hz, hzkind⟩ := hs.ended hlast
  cases hsecond : L.second with
  | nil =>
    rw [hsecond] at hz
    cases hz
  | cons u us =>
    let d : Cursor := ⟨[], u, us, us.length, rfl⟩
    have hended' : d.Ended := by
      have hlast' := d.getLast?_rest
      rw [show d.rest = L.second from hsecond.symm, hz] at hlast'
      rwa [Cursor.Ended, ← Option.some.inj hlast']
    refine ⟨d, Parser.ofTokens?_eq_some.2 ⟨rfl, rfl, hended'⟩, ?_⟩
    refine ⟨?_, hsecond.symm, ?_, ?_, .of_ended hended, .of_ended hended'⟩
    · rw [Cursor.tokens, hpassed, ← hrest]
      rfl
    · rw [hpassed]
      exact .nil
    · rwa [hrest, show d.rest = L.second from hsecond.symm]

/-- A whole reading of two spellings ends alike. -/
theorem ofTokens_cases {α : Type} {R : α → α → Prop} {phrase : Parser α}
    (hphrase : ∀ n m, L.Parallel n m R phrase phrase) (hs : Synonymous free L.first L.second)
    (h : Cursor.ofTokens? L.first = some c) :
    (∃ a b, phrase.ofTokens L.first = .ok a ∧ phrase.ofTokens L.second = .ok b ∧ R a b) ∨
    ∃ x y t u, phrase.ofTokens L.first = .error (.parse ⟨x, t.position⟩) ∧
      phrase.ofTokens L.second = .error (.parse ⟨y, u.position⟩) ∧ x.Agrees free y ∧
      x.isGrammatical ∧ L.Twins t u := by
  obtain ⟨d, hd, habreast⟩ := exists_abreast hs h
  have hconcur := hphrase _ _ le_rfl le_rfl habreast
  simp only [Parser.ofTokens, h, hd]
  generalize phrase c = x at hconcur
  generalize phrase d = y at hconcur
  cases hconcur with
  | ok hab _ => exact .inl ⟨_, _, rfl, rfl, hab⟩
  | error htwins hagrees hgrammatical =>
    exact .inr ⟨_, _, _, _, rfl, rfl, hagrees, hgrammatical, htwins⟩

end Spellings

/-! ## Texts -/

/-- The number tokens of a text can be read as numbers. -/
theorem Token.numerals_of_ofText {text : String} {tokens : List Token}
    (h : ofText text = .ok tokens) :
    ∀ t ∈ tokens, t.kind = .number → (Numeral.ofLexeme? t.value).isSome := by
  intro t ht hk
  obtain ⟨ts, q, rfl, hfits⟩ := fits_of_scan h
  rcases List.mem_append.1 ht with ht | ht
  · exact Numeral.isSome_ofLexeme? ((hfits t ht).isNumber hk)
  · rw [List.mem_singleton.1 ht] at hk
    cases hk

/-- Synonyms can be put for each other anywhere in the tokens of a text.  If there was a program
before, there still is, and the two differ in their lines at most.  If there was none, there still is
none, and the same is wrong at the token for the one that was wrong before. -/
theorem program_of_synonymous {text : String} {tokens tokens' : List Token}
    (h : Token.ofText text = .ok tokens) (hs : Synonymous True tokens tokens') :
    (∃ p p', Parser.program.ofTokens tokens = .ok p ∧ Parser.program.ofTokens tokens' = .ok p' ∧
      p.unlined = p'.unlined) ∨
    ∃ e e' ts t us ts' t' us', Parser.program.ofTokens tokens = .error (.parse e) ∧
      Parser.program.ofTokens tokens' = .error (.parse e') ∧
      e.complaint.Agrees True e'.complaint ∧ e.complaint.isGrammatical ∧
      tokens = ts ++ t :: us ∧ tokens' = ts' ++ t' :: us' ∧
      Synonymous True ts ts' ∧ Synonymous True (t :: us) (t' :: us') ∧
      e.position = t.position ∧ e'.position = t'.position := by
  let L : Spellings True := ⟨tokens, tokens', Token.numerals_of_ofText h⟩
  obtain ⟨c, hc⟩ := Parser.exists_ofTokens? h
  rcases L.ofTokens_cases (fun _ _ => Spellings.program_parallel) hs hc with
    ⟨p, p', hp, hp', hrelined⟩ |
      ⟨x, y, t, t', he, he', hagrees, hgrammatical, ts, ts', us, us', hsplit, hsplit', hfront, hback⟩
  · exact .inl ⟨p, p', hp, hp', hrelined⟩
  · exact .inr ⟨_, _, ts, t, us, ts', t', us', he, he', hagrees, hgrammatical, hsplit, hsplit',
      hfront, hback, rfl, rfl⟩

/-- The tokens of a program with a further choice, in words where there are any but for one sign. -/
def wordedChoice : List Token :=
  [⟨.start, "chala suru karu", ⟨1, 1⟩⟩, ⟨.symbol .semicolon, ";", ⟨1, 16⟩⟩,
    ⟨.keyword .when, "jar", ⟨2, 1⟩⟩, ⟨.symbol .openParen, "(", ⟨2, 5⟩⟩, ⟨.identifier, "a", ⟨2, 6⟩⟩,
    ⟨.keyword .greater, "mothaAheKa", ⟨2, 8⟩⟩, ⟨.identifier, "b", ⟨2, 19⟩⟩,
    ⟨.symbol .closeParen, ")", ⟨2, 20⟩⟩, ⟨.symbol .openBrace, "\x7b", ⟨2, 22⟩⟩,
    ⟨.symbol .closeBrace, "\x7d", ⟨2, 24⟩⟩, ⟨.keyword .otherwiseWhen, "nahitarJar", ⟨3, 1⟩⟩,
    ⟨.symbol .openParen, "(", ⟨3, 12⟩⟩, ⟨.identifier, "a", ⟨3, 13⟩⟩, ⟨.symbol .equal, "==", ⟨3, 15⟩⟩,
    ⟨.identifier, "b", ⟨3, 18⟩⟩, ⟨.symbol .closeParen, ")", ⟨3, 19⟩⟩,
    ⟨.symbol .openBrace, "\x7b", ⟨3, 21⟩⟩, ⟨.symbol .closeBrace, "\x7d", ⟨3, 23⟩⟩,
    ⟨.finish, "bas re ata", ⟨4, 1⟩⟩, ⟨.symbol .semicolon, ";", ⟨4, 11⟩⟩, ⟨.eof, "", ⟨4, 12⟩⟩]

/-- The same program with the other synonym in all three places. -/
def signedChoice : List Token :=
  [⟨.start, "chala suru karu", ⟨1, 1⟩⟩, ⟨.symbol .semicolon, ";", ⟨1, 16⟩⟩,
    ⟨.keyword .when, "jar", ⟨2, 1⟩⟩, ⟨.symbol .openParen, "(", ⟨2, 5⟩⟩, ⟨.identifier, "a", ⟨2, 6⟩⟩,
    ⟨.symbol .greater, ">", ⟨2, 8⟩⟩, ⟨.identifier, "b", ⟨2, 10⟩⟩,
    ⟨.symbol .closeParen, ")", ⟨2, 11⟩⟩, ⟨.symbol .openBrace, "\x7b", ⟨2, 13⟩⟩,
    ⟨.symbol .closeBrace, "\x7d", ⟨2, 15⟩⟩, ⟨.keyword .otherwise, "nahitar", ⟨3, 1⟩⟩,
    ⟨.keyword .when, "jar", ⟨4, 1⟩⟩, ⟨.symbol .openParen, "(", ⟨4, 5⟩⟩, ⟨.identifier, "a", ⟨4, 6⟩⟩,
    ⟨.keyword .equal, "sarkhaAheKa", ⟨4, 8⟩⟩, ⟨.identifier, "b", ⟨4, 20⟩⟩,
    ⟨.symbol .closeParen, ")", ⟨4, 21⟩⟩, ⟨.symbol .openBrace, "\x7b", ⟨4, 23⟩⟩,
    ⟨.symbol .closeBrace, "\x7d", ⟨4, 25⟩⟩, ⟨.finish, "bas re ata", ⟨5, 1⟩⟩,
    ⟨.symbol .semicolon, ";", ⟨5, 11⟩⟩, ⟨.eof, "", ⟨5, 12⟩⟩]

theorem wordedChoice_synonymous : Synonymous True wordedChoice signedChoice := by
  iterate 5 refine .cons (.same rfl) ?_
  refine .cons (.sign trivial rfl rfl rfl) ?_
  iterate 4 refine .cons (.same rfl) ?_
  refine .joined trivial rfl rfl rfl ?_
  iterate 2 refine .cons (.same rfl) ?_
  refine .cons (.word trivial rfl rfl rfl) ?_
  exact .of_words rfl

/-- The tokens of a text where a further choice follows nothing. -/
def strayChoice : List Token :=
  [⟨.start, "chala suru karu", ⟨1, 1⟩⟩, ⟨.symbol .semicolon, ";", ⟨1, 16⟩⟩,
    ⟨.keyword .otherwiseWhen, "nahitarJar", ⟨1, 18⟩⟩, ⟨.eof, "", ⟨1, 28⟩⟩]

/-- The same text with two keywords for the one, on a line of their own. -/
def splitStrayChoice : List Token :=
  [⟨.start, "chala suru karu", ⟨1, 1⟩⟩, ⟨.symbol .semicolon, ";", ⟨1, 16⟩⟩,
    ⟨.keyword .otherwise, "nahitar", ⟨2, 1⟩⟩, ⟨.keyword .when, "jar", ⟨2, 9⟩⟩, ⟨.eof, "", ⟨2, 12⟩⟩]

/-- All three synonyms change and the program stays.  A choice that follows nothing is wrong in
either spelling, where its first keyword stands. -/
theorem program_of_synonymous_choices :
    (∃ p p', Parser.program.ofTokens wordedChoice = .ok p ∧
      Parser.program.ofTokens signedChoice = .ok p' ∧ p.unlined = p'.unlined) ∧
    ∃ e e', Parser.program.ofTokens strayChoice = .error (.parse e) ∧
      Parser.program.ofTokens splitStrayChoice = .error (.parse e') ∧
      e.complaint.Agrees True e'.complaint ∧ e.position = ⟨1, 18⟩ ∧ e'.position = ⟨2, 1⟩ := by
  constructor
  · have htext : Token.ofText ("chala suru karu;\njar (a mothaAheKa b) \x7b \x7d\n" ++
        "nahitarJar (a == b) \x7b \x7d\nbas re ata;") = .ok wordedChoice := by decide +kernel
    have hread : (Parser.program.ofTokens wordedChoice).isOk = true := by cbv
    rcases program_of_synonymous htext wordedChoice_synonymous with
      hok | ⟨e, _, _, _, _, _, _, _, he, _⟩
    · exact hok
    · rw [he] at hread
      cases hread
  · have htext : Token.ofText "chala suru karu; nahitarJar" = .ok strayChoice := by decide +kernel
    have hread : Parser.program.ofTokens strayChoice =
        .error (.parse ⟨.expected .statement, ⟨1, 18⟩⟩) := by cbv
    have hstray : Synonymous True strayChoice splitStrayChoice :=
      .cons (.same rfl) (.cons (.same rfl) (.joined trivial rfl rfl rfl (.of_words rfl)))
    rcases program_of_synonymous htext hstray with
      ⟨p, _, hp, _⟩ |
        ⟨e, e', ts, t, us, ts', t', us', he, he', hagrees, _, hsplit, hsplit', hfront, _, hpos, hpos'⟩
    · cases hp.symm.trans hread
    · cases he.symm.trans hread
      refine ⟨_, _, he, he', hagrees, rfl, ?_⟩
      -- no other token stands where the first complaint does, so two tokens come before the place
      have ht : strayChoice[ts.length]? = some t := by
        rw [hsplit, List.getElem?_append_right le_rfl, Nat.sub_self]
        rfl
      have hlen : 2 = ts.length := Token.eq_of_position_eq htext rfl ht hpos
      obtain ⟨rfl, _⟩ := List.append_inj ((List.take_append_drop 2 strayChoice).trans hsplit) hlen
      cases hfront with
      | joined _ hjoined => cases hjoined
      | cons _ hfront =>
        cases hfront with
        | joined _ hjoined => cases hjoined
        | cons _ hfront =>
          cases hfront
          cases hsplit'
          exact hpos'

end Boli
