import Boli.Proofs.StatementTandem

/-!
# Programs in tandem

The readings of whole statements go in tandem, and so do those of programs (`program_tandem`).

Two statements are not known by their first token.  The reading looks ahead for the assignment sign
behind a name, and for a comma behind the print keyword, and the tokens that it sees there need not be
those that the two cursors share.  What saves the day is `Tandem.looking`: if only one of the readings
takes the first way, then the tokens up to the one that does not fit can still go on so that the first
way accepts them, but that token should have stopped it.
-/

namespace Boli

open Grammar

/-- The token that does not fit is one of some tokens, or it lies behind them and the next one. -/
theorem append_cons_cases {good ts us rest : List Token} {bad w : Token}
    (h : good ++ bad :: us = ts ++ w :: rest) :
    (∃ more, ts = good ++ bad :: more) ∨ ∀ vs, ∃ ws, good ++ bad :: vs = ts ++ w :: ws := by
  rcases List.append_eq_append_iff.1 h with ⟨as, rfl, has⟩ | ⟨bs, rfl, hbs⟩
  · cases as with
    | nil =>
      cases has
      exact .inr fun vs => ⟨vs, by rw [List.append_nil]⟩
    | cons a as =>
      cases has
      exact .inl ⟨as, rfl⟩
  · cases bs with
    | nil =>
      cases hbs
      exact .inr fun vs => ⟨vs, by rw [List.append_nil]⟩
    | cons b bs =>
      cases hbs
      exact .inr fun vs => ⟨bs ++ bad :: vs, by rw [List.append_assoc]; rfl⟩

namespace Grammar

/-! ## The print keyword and its argument -/

/-- An expression that starts with the print keyword and one argument is still an expression without
the keyword. -/
def Phrase.Unprinted : Phrase → List Token → Prop
  | .expr rank e, ts => ∀ t us, ts = t :: us → t.kind = .keyword .print →
    (∀ line callee args, leading e = .call line callee args → args.length = 1) →
    ∃ e', Derives (.expr rank e') us
  | _, _ => True

/-- The argument in its parentheses is a group when the keyword is gone. -/
theorem unprinted_of_derives {φ : Phrase} {ts : List Token} (h : Derives φ ts) : φ.Unprinted ts := by
  -- all but a call of a function of the language either start with another token or with a phrase
  have hother {rank : Rank} {e : Expr} {t : Token} {us : List Token} (ht : t.kind ≠ .keyword .print) :
      (Phrase.expr rank e).Unprinted (t :: us) := by
    intro t' us' heq ht'
    cases heq
    exact absurd ht' ht
  induction h with
  | operand _ ih =>
    intro t us heq ht hargs
    obtain ⟨e', hd⟩ := ih t us heq ht hargs
    exact ⟨e', .operand hd⟩
  | binary hl hop hr ihl _ =>
    intro t us heq ht hargs
    obtain ⟨v, vs, rfl, _⟩ := (started_of_derives hl).expr
    cases heq
    obtain ⟨e', hd⟩ := ihl _ vs rfl ht hargs
    exact ⟨_, .binary hd hop hr⟩
  | unsigned _ ih =>
    intro t us heq ht hargs
    obtain ⟨e', hd⟩ := ih t us heq ht hargs
    exact ⟨e', .unsigned hd⟩
  | signed hop _ _ =>
    refine hother fun ht => ?_
    rw [ht] at hop
    simp [signs] at hop
  | plain _ ih =>
    intro t us heq ht hargs
    obtain ⟨e', hd⟩ := ih t us heq ht hargs
    exact ⟨e', .plain hd⟩
  | index hd hb hi hu ih _ =>
    intro t us heq ht hargs
    obtain ⟨v, vs, rfl, _⟩ := (started_of_derives hd).expr
    cases heq
    obtain ⟨e', hd⟩ := ih _ vs rfl ht hargs
    exact ⟨_, .index hd hb hi hu⟩
  | property hd hdot hn ih =>
    intro t us heq ht hargs
    obtain ⟨v, vs, rfl, _⟩ := (started_of_derives hd).expr
    cases heq
    obtain ⟨e', hd⟩ := ih _ vs rfl ht hargs
    exact ⟨_, .property hd hdot hn⟩
  | constant hv =>
    refine hother fun ht => ?_
    rw [ht] at hv
    simp [constants] at hv
  | number hk _ => exact hother (by simp [hk])
  | text hk => exact hother (by simp [hk])
  | name hk => exact hother (by simp [hk])
  | call hk _ _ _ _ => exact hother (by simp [hk])
  | builtin _ ho hd hu _ =>
    intro t us heq ht hargs
    cases heq
    have hone := hargs _ _ _ rfl
    cases hd with
    | nothing => cases hone
    | something hd =>
      cases hd with
      | one hd => exact ⟨_, .group ho hd hu⟩
      | more _ _ hds =>
        cases hds <;> cases hone
  | list hk _ _ _ => exact hother (by simp [hk])
  | group hk _ _ _ => exact hother (by simp [hk])
  | one _ _ => trivial
  | more _ _ _ _ _ => trivial
  | nothing => trivial
  | something _ _ => trivial

/-- An expression that starts with the print keyword goes on to a statement, which prints if the
keyword takes one argument. -/
theorem exists_stmt_of_print {e : Expr} {t : Token} {ts : List Token}
    (h : Derives (.expr .loosest e) (t :: ts)) (ht : t.kind = .keyword .print) :
    ∃ s us, Builds (.stmt s) (t :: (ts ++ us)) := by
  obtain ⟨callee, args, _, _, _, _, _, _, _, _, hleading⟩ := call_of_derives h ht
  by_cases hargs : args.length = 1
  · obtain ⟨e', hd⟩ := unprinted_of_derives h t ts rfl ht fun _ _ _ heq => by
      cases heq.symm.trans hleading
      exact hargs
    exact ⟨_, _, .print ht (.one hd) (Token.kind_ofKind _)⟩
  · refine ⟨_, _, .expression h ⟨.inr ⟨.print, ?_⟩, fun _ _ _ _ heq => ?_⟩ (Token.kind_ofKind _)⟩
    · rw [ht]
      decide
    · cases heq.symm.trans hleading
      exact hargs

end Grammar

namespace Cursor

/-- The parentheses hold an expression and a comma. -/
theorem isPrintCall_of_comma {c : Cursor} {o u : Token} {e : Expr} {us vs : List Token}
    (h : c.ahead = o :: (us ++ u :: vs)) (ho : o.kind = .symbol .openParen)
    (hd : Derives (.expr .loosest e) us) (hu : u.kind = .symbol .comma) : c.isPrintCall = true := by
  have hbalanced := balanced_of_derives hd 0 (u :: vs)
  have hcomma : commaInside 1 (u :: vs) = true := by simp [commaInside, hu]
  obtain ⟨v, ws, rfl, _⟩ := (started_of_derives hd).expr
  rw [List.cons_append] at h
  rw [isPrintCall_eq h ho, ← List.cons_append, hbalanced, hcomma, Bool.or_true]

/-- A cursor in front of some tokens. -/
theorem exists_passes (ts : List Token) : ∃ c c' : Cursor, c.Passes ts c' ∧ c.Ended ∧
    c.rest = ts ++ [Token.ofKind .eof] := by
  let z : Cursor := ⟨ts.reverse, .ofKind .eof, [], 0, rfl⟩
  have hz : z.Ended := rfl
  have hwhole : ∃ c : Cursor, c.passed = [] ∧ c.rest = ts ++ z.rest := by
    cases ts with
    | nil => exact ⟨⟨[], .ofKind .eof, [], 0, rfl⟩, rfl, rfl⟩
    | cons t ts => exact ⟨⟨[], t, ts ++ [.ofKind .eof], _, rfl⟩, rfl, rfl⟩
  obtain ⟨c, hpassed, hrest⟩ := hwhole
  have hpass : c.Passes ts z := ⟨hrest, by rw [hpassed, List.append_nil]⟩
  refine ⟨c, z, hpass, ?_, hrest⟩
  rw [Ended, ← hpass.last_eq]
  exact hz

end Cursor

namespace Parser

variable {α : Type} {s t : Parser Stmt} {n m : Nat} {V : List Token → Prop} {c : Cursor}

/-! ## Looking ahead -/

/-- Some tokens show that a way is not to be taken.  Those in front of the last of them, with some
others behind them, are tokens that the way accepts. -/
def Diverts (look : Cursor → Prop) (p : Parser α) (d : Cursor) : Prop :=
  ∃ ts w rest, d.rest = ts ++ w :: rest ∧ (∀ c ws, c.rest = ts ++ w :: ws → ¬look c) ∧
    ∃ more a, ∀ c c', c.Passes (ts ++ more) c' → p c = .ok a c'

/-- A reading that looks ahead takes one of two ways. -/
theorem Tandem.looking (look : Cursor → Prop) {p q r : Parser α} (h : ∀ m, Tandem V m p p c)
    (hlook : look c) (hp : ∀ d, d.current = c.current → look d → r d = p d)
    (hq : ∀ d, d.current = c.current → ¬look d → r d = q d)
    (hkept : ∀ a ts c' d us, p c = .ok a c' → c.Passes ts c' → d.rest = ts ++ c'.current :: us →
      look d)
    (hother : ∀ d a d', d.Ended → d.current = c.current → ¬look d → q d = .ok a d' →
      Diverts look p d) :
    Tandem V m r r c := by
  cases heq : p c with
  | ok a c' =>
    obtain ⟨ts, hpass, hrun⟩ := (h m).ok heq
    refine of_ok ((hp c rfl hlook).trans heq) hpass fun d us hd hrest => ?_
    have hcurrent := Cursor.current_eq_of_rest hpass.rest_eq hrest
    rw [hp d hcurrent (hkept a ts c' d us heq hpass hrest)]
    exact hrun d us hd hrest
  | error e c' =>
    obtain ⟨good, bad, hfault, hV, hrun⟩ := (h m).error heq
    obtain ⟨rest, hcrest⟩ := hfault.exists_rest
    refine of_error ((hp c rfl hlook).trans heq) hfault hV fun d us hd hrest a d' hok => ?_
    have hcurrent := Cursor.current_eq_of_rest hcrest hrest
    by_cases hdlook : look d
    · rw [hp d hcurrent hdlook] at hok
      exact hrun d us hd hrest a d' hok
    · rw [hq d hcurrent hdlook] at hok
      obtain ⟨ts, w, ws, hts, hnot, more, a₁, hread⟩ := hother d a d' hd.ended hcurrent hdlook hok
      rcases append_cons_cases (hrest.symm.trans hts) with ⟨xs, rfl⟩ | hbeyond
      · obtain ⟨d₁, d₁', hpass, hd₁, hrest₁⟩ := Cursor.exists_passes (good ++ bad :: xs ++ more)
        rw [List.append_assoc, List.append_assoc] at hrest₁
        exact refutes h heq hfault hd₁ hrest₁ a₁ d₁' (hread d₁ d₁' hpass)
      · obtain ⟨xs, hxs⟩ := hbeyond rest
        exact hnot c xs (hcrest.trans hxs) hlook

/-- A reading that looks at the token behind the current one only. -/
theorem Tandem.peeking (look : Token → Prop) {p q r : Parser α} (h : ∀ m, Tandem V m p p c)
    (hne : c.current.kind ≠ .eof) (hlook : look (c.peek 1))
    (hp : ∀ d : Cursor, look (d.peek 1) → r d = p d)
    (hq : ∀ d : Cursor, ¬look (d.peek 1) → r d = q d)
    (hmore : ∀ a c', p c = .ok a c' → ∃ ts, c.Passes ts c' ∧ ts ≠ [])
    (hread : ∃ more a, ∀ d d', d.Passes (c.current :: more) d' → p d = .ok a d') :
    Tandem V m r r c := by
  refine .looking (fun c => look (c.peek 1)) h hlook (fun d _ => hp d) (fun d _ => hq d) ?_ ?_
  · intro a ts c' d us hok hpass hrest
    obtain ⟨ts', hpass', hts⟩ := hmore a c' hok
    obtain rfl := hpass.unique hpass'
    obtain ⟨v, ts, rfl⟩ := List.exists_cons_of_ne_nil hts
    obtain ⟨w, ws, ws', hws, hws'⟩ : ∃ w ws ws', ts ++ c'.rest = w :: ws ∧
        ts ++ c'.current :: us = w :: ws' := by
      cases ts with
      | nil => exact ⟨_, _, _, rfl, rfl⟩
      | cons w ts => exact ⟨w, _, _, rfl, rfl⟩
    have hcrest := hpass.rest_eq
    rw [List.cons_append, hws] at hcrest
    rw [List.cons_append, hws'] at hrest
    rwa [peek_one_of_rest hrest, ← peek_one_of_rest hcrest]
  · intro d a d' hd hcurrent hnot _
    obtain ⟨w, rest, hrest, hpeek⟩ := exists_rest_of_ended hd (by rwa [hcurrent])
    refine ⟨[c.current], w, rest, by rw [← hcurrent]; exact hrest, fun c' ws hc' => ?_, hread⟩
    show ¬look (c'.peek 1)
    rwa [peek_one_of_rest hc', ← hpeek]

/-! ## Statements that start with a name -/

/-- An assignment, or an expression for its effects. -/
def nameStatement : Parser Stmt := do
  if ((← get).peek 1).kind = .symbol .assign then assignment else expressionStatement

theorem nameStatement_run (c : Cursor) : nameStatement c =
    if (c.peek 1).kind = .symbol .assign then assignment c else expressionStatement c :=
  ite_run

/-- Up to the assignment sign, an assignment could have been an expression, and the other way
round. -/
theorem nameStatement_tandem (hV : Completes V fun s ts => Builds (.stmt s) ts) (hc : c.Within n)
    (hk : c.current.kind = .identifier) : Tandem V m nameStatement nameStatement c := by
  have hne : c.current.kind ≠ .eof := by simp [hk]
  have hname : (Token.ofKind .identifier).kind = .identifier := Token.kind_ofKind _
  have hassign : (Token.ofKind (.symbol .assign)).kind = .symbol .assign := Token.kind_ofKind _
  have hsemicolon : (Token.ofKind (.symbol .semicolon)).kind = .symbol .semicolon := Token.kind_ofKind _
  have hopens (e : Expr) : Opens c.current.kind e := by
    rw [hk]
    exact opens_identifier e
  have hmore {s : Stmt} {c' : Cursor} (h : ∃ ts, c.Passes ts c' ∧ Builds (.stmt s) ts) :
      ∃ ts, c.Passes ts c' ∧ ts ≠ [] := by
    obtain ⟨ts, hpass, hb⟩ := h
    exact ⟨ts, hpass, ne_nil_of_builds hb⟩
  by_cases hpeek : (c.peek 1).kind = .symbol .assign
  · refine .peeking (·.kind = .symbol .assign) (fun m => assignment_tandem hV hc hk) hne hpeek
      (fun d h => (nameStatement_run d).trans (if_pos h))
      (fun d h => (nameStatement_run d).trans (if_neg h))
      (fun s c' h => hmore (assignment_sound hc.ended hk h)) ?_
    exact ⟨.ofKind (.symbol .assign) :: ([.ofKind .identifier] ++ [.ofKind (.symbol .semicolon)]), _,
      fun d d' hpass => assignment_of_passes hpass hk hassign (derives_name hname) hsemicolon⟩
  · refine .peeking (·.kind ≠ .symbol .assign) (fun m => expressionStatement_tandem ?_ ?_ hc) hne
      hpeek (fun d h => (nameStatement_run d).trans (if_neg h))
      (fun d h => (nameStatement_run d).trans (if_pos (not_not.1 h)))
      (fun s c' h => hmore (expressionStatement_sound hc.ended (fun e _ _ _ _ => hopens e) h)) ?_
    · exact hV.start [] (.assign hname hassign (derives_name hname) hsemicolon)
    · exact fun e ts hd => hV.start (c.current :: ts) (.expression hd (hopens e) hsemicolon)
    · exact ⟨[] ++ [.ofKind (.symbol .semicolon)], _,
        fun d d' hpass => expressionStatement_of_passes hpass (derives_name hk) hsemicolon⟩

/-! ## Statements that start with the print keyword -/

/-- A print statement, or a call of the print function for its effects. -/
def printStatement : Parser Stmt := do
  if (← get).isPrintCall then expressionStatement else print

theorem printStatement_run (c : Cursor) : printStatement c =
    if c.isPrintCall then expressionStatement c else print c :=
  ite_run

/-- A print statement that is read has values behind its keyword. -/
theorem values_of_print {c c' : Cursor} {s : Stmt} (hc : c.Ended)
    (hk : c.current.kind = .keyword .print) (h : print c = .ok s c') :
    ∃ es ts us, c.Passes (c.current :: (ts ++ us)) c' ∧ Derives (.exprs es) ts := by
  have hword := passes_of_kind hc hk (by simp)
  simp only [print, bind_eq_ok, advance_eq_ok, remaining_eq_ok, semicolon_eq_ok, pure_eq_ok] at h
  obtain ⟨_, _, ⟨rfl, rfl⟩, _, _, ⟨rfl, rfl⟩, es, c₁, hes, _, _, ⟨hu, rfl⟩, _, rfl⟩ := h
  obtain ⟨ts, hpass, hd⟩ := commaSeparated_sound expression_sound _ (hword.ended hc) hes
  have hend := passes_of_kind (hpass.ended (hword.ended hc)) hu (by simp)
  exact ⟨es, ts, _, hword.trans (hpass.trans hend), hd⟩

/-- An expression that is read from the print keyword on is a call. -/
theorem arguments_of_expressionStatement {c c' : Cursor} {s : Stmt} (hc : c.Ended)
    (hk : c.current.kind = .keyword .print) (h : expressionStatement c = .ok s c') :
    ∃ args o ts u us, c.Passes (c.current :: o :: (ts ++ u :: us)) c' ∧
      o.kind = .symbol .openParen ∧ Derives (.items args) ts ∧ u.kind = .symbol .closeParen := by
  simp only [expressionStatement, bind_eq_ok, current_eq_ok, semicolon_eq_ok, pure_eq_ok] at h
  obtain ⟨_, _, ⟨rfl, rfl⟩, e, c₁, he, _, _, ⟨hu, rfl⟩, _, rfl⟩ := h
  obtain ⟨ts, hpass, hd⟩ := expression_sound hc he
  have hend := hpass.trans (passes_of_kind (hpass.ended hc) hu (by simp))
  obtain ⟨t, ts, rfl, _⟩ := (started_of_derives hd).expr
  obtain rfl := hpass.current_eq
  obtain ⟨_, args, o, us, u, vs, rfl, ho, hitems, hu, _⟩ := call_of_derives hd hk
  exact ⟨args, o, us, u, _, by simpa using hend, ho, hitems, hu⟩

/-- A call with a comma or nothing in its parentheses is no print statement, but could have been one up
to there. -/
theorem diverts_of_call {d d' : Cursor} {s : Stmt} (hd : d.Ended)
    (hk : d.current.kind = .keyword .print) (hcall : d.isPrintCall = true)
    (h : expressionStatement d = .ok s d') : Diverts (·.isPrintCall = false) print d := by
  obtain ⟨args, o, ts, u, us, hpass, ho, hitems, hu⟩ := arguments_of_expressionStatement hd hk h
  have hahead : d.ahead = o :: (ts ++ u :: (us ++ d'.rest)) := by rw [hpass.ahead_eq]; simp
  have hargs := (Cursor.isPrintCall_iff hahead ho hitems hu).1 hcall
  -- with another end, the parentheses hold the only value that is printed
  have hread {e : Expr} {ts : List Token} (hd : Derives (.expr .loosest e) ts) :
      ∃ s, ∀ c c', c.Passes (d.current :: (o :: (ts ++ [u]) ++ [.ofKind (.symbol .semicolon)])) c' →
        print c = .ok s c' :=
    ⟨_, fun c c' hpass => print_of_passes hpass hk
      (.one ((Derives.group ho hd hu).loosen (Rank.tightness_le _))) rfl⟩
  cases hitems with
  | nothing =>
    obtain ⟨s, hread⟩ := hread (derives_name (t := .ofKind .identifier) rfl)
    refine ⟨[d.current, o], u, us ++ d'.rest, by rw [Cursor.rest, hahead]; rfl, fun c ws hc => ?_,
      _, s, hread⟩
    have hcahead : c.ahead = o :: ([] ++ u :: ws) := (List.cons.inj hc).2
    simp [(Cursor.isPrintCall_iff hcahead ho .nothing hu).2 hargs]
  | something hexprs =>
    cases hexprs with
    | one => exact absurd rfl hargs
    | @more e ts es us' w hd' hw hds =>
      obtain ⟨s, hread⟩ := hread hd'
      refine ⟨d.current :: o :: ts, w, us' ++ u :: (us ++ d'.rest), ?_, fun c ws hc => ?_,
        [u, .ofKind (.symbol .semicolon)], s, fun c c' hpass => hread c c' (by simpa using hpass)⟩
      · rw [Cursor.rest, hahead]
        simp
      · simp [Cursor.isPrintCall_of_comma (List.cons.inj hc).2 ho hd' hw]

/-- A print statement with a closed pair of parentheses or none at its start is no call, but could have
been one up to there. -/
theorem diverts_of_print {d d' : Cursor} {s : Stmt} (hd : d.Ended)
    (hk : d.current.kind = .keyword .print) (h : print d = .ok s d') :
    Diverts (·.isPrintCall = true) expressionStatement d := by
  obtain ⟨es, ts, us, hpass, hexprs⟩ := values_of_print hd hk h
  obtain ⟨e, vs, ws, rfl, he⟩ : ∃ e vs ws, ts = vs ++ ws ∧ Derives (.expr .loosest e) vs := by
    cases hexprs with
    | one hd => exact ⟨_, ts, [], (List.append_nil ts).symm, hd⟩
    | more hd _ _ => exact ⟨_, _, _, rfl, hd⟩
  obtain ⟨o, vs, rfl, _⟩ := (started_of_derives he).expr
  -- with another end, there is a comma or nothing in the parentheses
  have hread {o : Token} {args : List Expr} {ts : List Token} (ho : o.kind = .symbol .openParen)
      (hd : Derives (.items args) ts) :
      ∃ s, ∀ c c', c.Passes (d.current :: (o :: (ts ++ [Token.ofKind (.symbol .closeParen)]) ++
        [.ofKind (.symbol .semicolon)])) c' → expressionStatement c = .ok s c' := by
    have hprint : (d.current.kind, Builtin.print) ∈ builtins := by rw [hk]; decide
    exact ⟨_, fun c c' hpass => expressionStatement_of_passes hpass
      ((Derives.builtin hprint ho hd rfl).loosen (Rank.tightness_le _)) rfl⟩
  by_cases ho : o.kind = .symbol .openParen
  · obtain ⟨e', gs, u, vs, rfl, hgroup, hu⟩ := group_of_derives he ho
    have hname := derives_name (Token.kind_ofKind .identifier)
    obtain ⟨s, hread⟩ := hread ho (.something (.more hgroup (Token.kind_ofKind _) (.one hname)))
    refine ⟨d.current :: o :: gs, u, vs ++ ws ++ us ++ d'.rest, ?_, fun c xs hc => ?_,
      [.ofKind (.symbol .comma), .ofKind .identifier, .ofKind (.symbol .closeParen),
        .ofKind (.symbol .semicolon)], s, fun c c' hpass => hread c c' (by simpa using hpass)⟩
    · rw [hpass.rest_eq]
      simp
    · simp [Cursor.isPrintCall_of_group (List.cons.inj hc).2 ho hgroup hu]
  · obtain ⟨s, hread⟩ := hread (Token.kind_ofKind _) .nothing
    refine ⟨[d.current], o, vs ++ ws ++ us ++ d'.rest, ?_, fun c xs hc => ?_, _, s, hread⟩
    · rw [hpass.rest_eq]
      simp
    · have hpeek : c.peek 1 = o := peek_one_of_rest hc
      simp [Cursor.isPrintCall, hpeek, ho]

/-- A print statement could have been a call up to the token that decides, and the other way
round. -/
theorem printStatement_tandem (hV : Completes V fun s ts => Builds (.stmt s) ts) (hc : c.Within n)
    (hk : c.current.kind = .keyword .print) : Tandem V m printStatement printStatement c := by
  have hword {d : Cursor} (hcurrent : d.current = c.current) : d.current.kind = .keyword .print := by
    rwa [hcurrent]
  cases hcall : c.isPrintCall with
  | false =>
    refine .looking (·.isPrintCall = false) (fun m => print_tandem hV hc hk) hcall
      (fun d _ h => (printStatement_run d).trans (if_neg (by simp [h])))
      (fun d _ h => (printStatement_run d).trans (if_pos (by simpa using h))) ?_ ?_
    · intro s ts c' d us hok hpass hrest
      obtain ⟨es, vs, ws, hpass', hd⟩ := values_of_print hc.ended hk hok
      obtain rfl := hpass.unique hpass'
      have hahead : d.ahead = vs ++ (ws ++ c'.current :: us) := by
        simpa [Cursor.rest] using (List.cons.inj hrest).2
      exact Cursor.isPrintCall_of_exprs hahead hd
    · intro d s d' hd hcurrent hnot hok
      exact diverts_of_call hd (hword hcurrent) (by simpa using hnot) hok
  | true =>
    refine .looking (·.isPrintCall = true) (fun m => expressionStatement_tandem ?_ ?_ hc) hcall
      (fun d _ h => (printStatement_run d).trans (if_pos h))
      (fun d _ h => (printStatement_run d).trans (if_neg h)) ?_ ?_
    · exact hV.start [] (.block builds_emptyBlock)
    · intro e ts hd
      obtain ⟨s, us, hb⟩ := exists_stmt_of_print hd hk
      exact hV.start (c.current :: ts) hb
    · intro s ts c' d us hok hpass hrest
      obtain ⟨args, o, vs, u, ws, hpass', ho, hitems, hu⟩ :=
        arguments_of_expressionStatement hc.ended hk hok
      obtain rfl := hpass.unique hpass'
      have hcahead : c.ahead = o :: (vs ++ u :: (ws ++ c'.rest)) := by rw [hpass.ahead_eq]; simp
      have hdahead : d.ahead = o :: (vs ++ u :: (ws ++ c'.current :: us)) := by
        simpa [Cursor.rest] using (List.cons.inj hrest).2
      exact (Cursor.isPrintCall_iff hdahead ho hitems hu).2
        ((Cursor.isPrintCall_iff hcahead ho hitems hu).1 hcall)
    · intro d s d' hd hcurrent _ hok
      exact diverts_of_print hd (hword hcurrent) hok

/-! ## Whole statements -/

/-- A choice behind its keyword. -/
def choiceStatement (stmt : Parser Stmt) : Parser Stmt := do
  let fuel ← remaining
  branch stmt (fuel + 1) (← advance)

/-- The reading of a statement whose first token is of the kind. -/
def statementAt (stmt : Parser Stmt) : Kind → Parser Stmt
  | .keyword .declare => declaration
  | .identifier => nameStatement
  | .keyword .print => printStatement
  | .keyword .when => choiceStatement stmt
  | .keyword .loop => loop stmt
  | .keyword .function => function stmt
  | .keyword .giveBack => giveBack
  | .keyword .stop => bare .stop .stop
  | .keyword .skip => bare .skip .skip
  | .symbol .openBrace => Stmt.block <$> block stmt
  | .keyword word => if word.builtin?.isSome then expressionStatement else fail (.expected .statement)
  | _ => fail (.expected .statement)

/-- A statement is read by the kind of its first token. -/
theorem statementWith_eq (stmt : Parser Stmt) (c : Cursor) :
    statementWith stmt c = statementAt stmt c.current.kind c := by
  obtain ⟨passed, ⟨kind, value, position⟩, ahead, n, hn⟩ := c
  cases kind with
  | keyword word => cases word <;> rfl
  | symbol sign => cases sign <;> rfl
  | _ => rfl

theorem choiceStatement_tandem (hs : SoundStatement s) (hst : TandemStatement n m s t)
    (hV : Completes V fun s ts => Builds (.stmt s) ts) (hc : c.Within (n + 1))
    (hk : c.current.kind = .keyword .when) :
    Tandem V (m + 1) (choiceStatement s) (choiceStatement t) c := by
  have hne : c.current.kind ≠ .eof := by simp [hk]
  have hlt := hc.lt
  refine .remaining fun k => .advance hc.ended hne ?_
  refine branch_tandem hs (n := c.remaining) (by omega) (by omega) (hst.mono (by omega) (by omega)) ?_ ?_
  · exact hV.inside [c.current] fun s us hb => ⟨s, [], by simpa using Builds.branch hk hb⟩
  · exact (Cursor.Within.of_ended hc.ended).advance hne

/-- Whichever form the first token selects goes in tandem. -/
theorem statementAt_tandem (hs : SoundStatement s) (hst : TandemStatement n m s t)
    (hV : Completes V fun s ts => Builds (.stmt s) ts) (hc : c.Within (n + 1)) {k : Kind}
    (hk : c.current.kind = k) : Tandem V (m + 1) (statementAt s k) (statementAt t k) c := by
  have hfirst : ∃ more, V more := hV.start [] (.block builds_emptyBlock)
  have hfail : Tandem V (m + 1) (fail (.expected .statement) : Parser Stmt)
      (fail (.expected .statement)) c :=
    .fail rfl (fun hcall => nomatch hcall.1) hfirst
  unfold statementAt
  split
  · exact declaration_tandem hV hc hk
  · exact nameStatement_tandem hV hc hk
  · exact printStatement_tandem hV hc hk
  · exact choiceStatement_tandem hs hst hV hc hk
  · exact loop_tandem hs hst hV hc hk
  · exact function_tandem hs hst hV hc hk
  · exact giveBack_tandem hV hc hk
  · exact bare_tandem hV hc hk .stop
  · exact bare_tandem hV hc hk .skip
  · refine .map _ (block_tandem hs ?_ (fun b ts hb => hV _ ts (.block hb)) hc)
    exact hst
  · next word _ hne _ _ _ _ _ _ =>
    split
    · next hword =>
      refine expressionStatement_tandem hfirst (fun e ts hd => ?_) hc
      refine hV.start (c.current :: ts) (.expression hd ?_ (Token.kind_ofKind _))
      rw [hk]
      exact opens_of_builtin hword hne
    · exact hfail
  · exact hfail

theorem statementWith_tandem (hs : SoundStatement s) (hst : TandemStatement n m s t) :
    TandemStatement (n + 1) (m + 1) (statementWith s) (statementWith t) := by
  intro V hV c hc
  refine (statementAt_tandem hs hst hV hc rfl).congr (statementWith_eq s c) fun d _ hd => ?_
  rw [statementWith_eq, hd]

/-- Each side has its own fuel for nested statements. -/
theorem statementWithin_tandem (n m : Nat) :
    TandemStatement n m (statementWithin n) (statementWithin m) := by
  induction n generalizing m with
  | zero => exact fun _ _ _ hc => absurd hc Cursor.Within.not_zero
  | succ n ih =>
    cases m with
    | succ m => exact statementWith_tandem (statementWithin_sound n) (ih m)
    | zero =>
      intro V hV c hc
      have hone := statementWith_tandem (statementWithin_sound n) (ih 0) V hV c hc
      refine (hone.mono (Nat.zero_le 1)).congr rfl fun d hd => ?_
      exact absurd hd Cursor.Within.not_zero

theorem statement_tandem (n m : Nat) : TandemStatement n m statement statement := by
  intro V hV c hc
  refine .remaining fun k => ?_
  have hwithin := statementWithin_tandem (c.remaining + 1) (k + 1) V hV c (.of_ended hc.ended)
  exact hwithin.mono (Nat.min_le_left _ _)

/-! ## Whole programs -/

/-- The mark of the end, which is not passed. -/
theorem demandEnd_tandem {a : α} (hV : ∃ more, V more) :
    Tandem V m (do let _ ← demand .eof .afterProgram; return a)
      (do let _ ← demand .eof .afterProgram; return a) c := by
  by_cases hk : c.current.kind = .eof
  · have hrun {d : Cursor} (hd : d.current = c.current) :
        (do let _ ← demand .eof .afterProgram; return a : Parser α) d = (pure a : Parser α) d := by
      have hdk : d.current.kind = .eof := by rwa [hd]
      rw [bind_of_ok (demand_eq_ok.2 ⟨hdk, rfl, advance_of_eof hdk⟩)]
    exact (Tandem.pure a).congr (hrun rfl) fun d _ hd => hrun hd
  · have hrun {d : Cursor} (hd : d.current = c.current) :
        (do let _ ← demand .eof .afterProgram; return a : Parser α) d =
          (fail .afterProgram : Parser α) d :=
      bind_of_error (demand_of_ne (by rwa [hd]))
    have hfail : Tandem V m (fail .afterProgram : Parser α) (fail .afterProgram) c :=
      .fail rfl (fun hcall => nomatch hcall.1) hV
    exact hfail.congr (hrun rfl) fun d _ hd => hrun hd

/-- The readings of programs go in tandem from every cursor whose tokens end with the mark. -/
theorem program_tandem (hc : c.Ended) (m : Nat) :
    Tandem (fun us => ∃ p, IsProgram p us) m program program c := by
  have hstart : (Token.ofKind .start).kind = .start := Token.kind_ofKind _
  have hsemicolon : (Token.ofKind (.symbol .semicolon)).kind = .symbol .semicolon := Token.kind_ofKind _
  have hfinish : (Token.ofKind .finish).kind = .finish := Token.kind_ofKind _
  have heof : (Token.ofKind .eof).kind = .eof := Token.kind_ofKind _
  refine .expect (.of_ended hc) (by simp) (by simp) ?_ fun hk₁ hc₁ => ?_
  · exact ⟨_, _, .mk hstart hsemicolon .none hfinish hsemicolon heof⟩
  refine .semicolon hc₁ ?_ fun hk₂ hc₂ => ?_
  · exact ⟨_, _, .mk hk₁ hsemicolon .none hfinish hsemicolon heof⟩
  have hbody : Completes (fun us => ∃ p, IsProgram p (c.current :: c.advance.current :: us))
      fun ss ts => Builds (.stmts ss) ts :=
    fun ss ts hb => ⟨_, _, .mk hk₁ hk₂ hb hfinish hsemicolon heof⟩
  refine .remaining fun k => ?_
  have hstatements := statementsUntil_tandem statement_sound .finish (Nat.min_le_left (k + 1) (m - 1 - 1))
    (statement_tandem _ _) hbody (.of_ended hc₂.ended)
  refine hstatements.next hc₂ (statementsUntil_sound statement_sound _ _) fun ss ts c₃ hb hc₃ => ?_
  refine .expect hc₃ (by simp) (by simp) (hbody ss ts hb) fun hk₃ hc₄ => ?_
  refine .semicolon hc₄ ?_ fun hk₄ _ => demandEnd_tandem ?_
  · exact ⟨_, _, .mk hk₁ hk₂ hb hk₃ hsemicolon heof⟩
  · exact ⟨_, _, .mk hk₁ hk₂ hb hk₃ hk₄ heof⟩

end Parser

end Boli
