import Boli.Proofs.ExpressionTandem

/-!
# Statements in tandem

The readings of each form of statement go in tandem, if those of the statements inside it do.  As for
expressions, the phrases inside a statement can be completed since the statement can be: a block is
closed, a condition gets its block, and a parameter a name that was not used before.
-/

namespace Boli

open Grammar

namespace Parser

variable {s t : Parser Stmt} {n m : Nat} {V : List Token → Prop} {c : Cursor}

/-! ## Parts of statements -/

/-- The semicolon behind a clause, and what follows it. -/
theorem Tandem.semicolon {β : Type} {clause : Clause} {f g : Unit → Parser β} (hc : c.Within n)
    (hV : ∃ more, V more)
    (h : c.current.kind = .symbol .semicolon → c.advance.Within (n - 1) →
      Tandem (fun us => V (c.current :: us)) (m - 1) (f ()) (g ()) c.advance) :
    Tandem V m (semicolon clause >>= f) (Parser.semicolon clause >>= g) c := by
  have hrun : ∀ f : Unit → Parser β, Parser.semicolon clause >>= f =
      Parser.expect (.symbol .semicolon) (.semicolon clause) >>= fun _ => f () := by
    intro f
    rw [Parser.semicolon, bind_assoc]
    rfl
  rw [hrun, hrun]
  exact .expect hc (by simp) (by simp) hV h

/-- A token that has to stand here, and what follows it. -/
theorem Tandem.eat {β : Type} {k : Kind} {f g : Token → Parser β} (hc : c.Within n) (hk : k ≠ .eof)
    (hV : ∃ more, V more)
    (h : c.current.kind = k → c.advance.Within (n - 1) →
      Tandem (fun us => V (c.current :: us)) (m - 1) (f c.current) (g c.current) c.advance) :
    Tandem V m (eat k >>= f) (Parser.eat k >>= g) c := by
  have hrun : ∀ f : Token → Parser β, Parser.eat k >>= f =
      Parser.current >>= fun t => Parser.demand k (.wrongKind k t.shown) >>= f := by
    intro f
    rw [Parser.eat, bind_assoc]
  rw [hrun, hrun]
  exact .current (.demand hc hk rfl (by simp) hV h)

/-- The value that is given back may be missing. -/
theorem given?_sound : Sound given? fun v ts =>
    v = none ∧ ts = [] ∨ ∃ e, Derives (.expr .loosest e) ts ∧ v = some e := by
  intro c v c' hc h
  simp only [given?, bind_eq_ok, isAt_eq_ok] at h
  obtain ⟨_, _, ⟨rfl, rfl⟩, h⟩ := h
  split at h
  · obtain ⟨rfl, rfl⟩ := pure_eq_ok.1 h
    exact ⟨[], .refl c, .inl ⟨rfl, rfl⟩⟩
  · obtain ⟨e, he, rfl⟩ := map_eq_ok.1 h
    obtain ⟨ts, hpass, hd⟩ := expression_sound hc he
    exact ⟨ts, hpass, .inr ⟨e, hd, rfl⟩⟩

/-- A statement has at least one token. -/
theorem ne_nil_of_builds {s : Stmt} {ts : List Token} (h : Builds (.stmt s) ts) : ts ≠ [] := by
  obtain ⟨t, us, rfl, _⟩ := started_of_stmt h
  exact List.cons_ne_nil t us

/-- The language of conditions in parentheses. -/
abbrev IsCondition (e : Expr) (ts : List Token) : Prop :=
  ∃ o us u, o.kind = .symbol .openParen ∧ Derives (.expr .loosest e) us ∧
    u.kind = .symbol .closeParen ∧ ts = o :: (us ++ [u])

theorem condition_sound (word : String) : Sound (condition word) IsCondition := by
  intro c e c' hc h
  simp only [condition, bind_eq_ok, expect_eq_ok, pure_eq_ok] at h
  obtain ⟨_, _, ⟨ho, rfl, rfl⟩, _, c₁, he, _, _, ⟨hu, rfl, rfl⟩, rfl, rfl⟩ := h
  have hopen := passes_of_kind hc ho (by simp)
  obtain ⟨us, hpass, hd⟩ := expression_sound (hopen.ended hc) he
  have hclose := passes_of_kind (hpass.ended (hopen.ended hc)) hu (by simp)
  exact ⟨_, hopen.trans (hpass.trans hclose), _, us, _, ho, hd, hu, rfl⟩

/-- A condition that has been opened can be closed. -/
theorem condition_tandem (word : String) (hV : Completes V IsCondition) (hc : c.Within n) :
    Tandem V m (condition word) (condition word) c := by
  have hname : IsCondition _
      ([] ++ [Token.ofKind (.symbol .openParen), .ofKind .identifier, .ofKind (.symbol .closeParen)]) :=
    ⟨_, [Token.ofKind .identifier], _, rfl, derives_name rfl, rfl, rfl⟩
  refine .expect hc (by simp) (by simp) (hV.start [] hname) fun ho hc' => ?_
  have hclosed {e : Expr} {us : List Token} (hd : Derives (.expr .loosest e) us) :
      IsCondition e ([c.current] ++ (us ++ [Token.ofKind (.symbol .closeParen)])) :=
    ⟨_, us, _, ho, hd, rfl, rfl⟩
  have htest := expression_tandem (hV.inside [c.current] fun e us hd => ⟨e, _, hclosed hd⟩)
    hc'.ended (m - 1)
  refine htest.next hc' expression_sound fun e us c'' hd hc'' => ?_
  refine .expect hc'' (by simp) (by simp) ?_ fun _ _ => .pure e
  exact hV.start (c.current :: us) (hclosed hd)

/-! ## Blocks -/

/-- The readings of statements go in tandem, from cursors with fewer than `n` and `m` tokens
ahead. -/
def TandemStatement (n m : Nat) (s t : Parser Stmt) : Prop :=
  ∀ V, (Completes V fun s ts => Builds (.stmt s) ts) → ∀ c : Cursor, c.Within n → Tandem V m s t c

theorem TandemStatement.mono {n' m' : Nat} (h : TandemStatement n m s t) (hn : n' ≤ n)
    (hm : m' ≤ m) : TandemStatement n' m' s t :=
  fun V hV c hc => (h V hV c (hc.mono hn)).mono hm

/-- Statements end in front of the closing token, or at the end of all. -/
theorem statementsUntil_of_stop {close : Kind} {fuel : Nat}
    (h : c.current.kind = close ∨ c.current.kind = .eof) :
    statementsUntil close s fuel c = .ok [] c := by
  cases fuel with
  | zero => rfl
  | succ fuel =>
    rw [statementsUntil, bind_of_ok (current_eq_ok.2 ⟨rfl, rfl⟩)]
    exact ite_run.trans (if_pos h)

/-- Elsewhere another statement follows. -/
theorem statementsUntil_of_go {close : Kind} {fuel : Nat}
    (h : ¬(c.current.kind = close ∨ c.current.kind = .eof)) :
    statementsUntil close s (fuel + 1) c =
      (do return (← s) :: (← statementsUntil close s fuel) : Parser (List Stmt)) c := by
  rw [statementsUntil, bind_of_ok (current_eq_ok.2 ⟨rfl, rfl⟩)]
  exact ite_run.trans (if_neg h)

/-- Statements can be completed by nothing, and each takes a token. -/
theorem statementsUntil_tandem (hs : SoundStatement s) (close : Kind) {k l : Nat} (hl : m ≤ l + 1)
    (hst : TandemStatement (k + 1) m s t)
    (hV : Completes V fun ss ts => Builds (.stmts ss) ts) (hc : c.Within (k + 1)) :
    Tandem V m (statementsUntil close s k) (statementsUntil close t l) c := by
  induction k generalizing l m V c with
  | zero =>
    have hstop {d : Cursor} (hd : d.current = c.current) :
        d.current.kind = close ∨ d.current.kind = .eof := .inr (by rw [hd, hc.eof_of_one])
    exact (Tandem.pure []).congr (statementsUntil_of_stop (hstop rfl))
      fun d _ hd => statementsUntil_of_stop (hstop hd)
  | succ k ih =>
    by_cases hstop : c.current.kind = close ∨ c.current.kind = .eof
    · refine (Tandem.pure []).congr (statementsUntil_of_stop hstop) fun d _ hd => ?_
      exact statementsUntil_of_stop (by rwa [hd])
    · have hround : Tandem V m (do return (← s) :: (← statementsUntil close s k))
          (do return (← t) :: (← statementsUntil close t (l - 1))) c := by
        have hfirst := hst V (fun s ts hb => hV [s] ts (by simpa using Builds.more hb .none)) c hc
        refine hfirst.nextMore hc hs ne_nil_of_builds fun s ts c' hb hc' => ?_
        have hrest := ih (l := l - 1) (m := m - 1) (by omega)
          (hst.mono (Nat.le_succ _) (Nat.sub_le _ _))
          (hV.inside ts fun ss us hbs => ⟨_, [], by simpa using Builds.more hb hbs⟩) hc'
        exact hrest.bind fun ss _ _ _ _ => .pure (s :: ss)
      refine hround.congr (statementsUntil_of_go hstop) fun d hd hcurrent => ?_
      rw [← hcurrent] at hstop
      have hlt := hd.one_lt (not_or.1 hstop).2
      obtain ⟨l, rfl⟩ : ∃ l', l = l' + 1 := ⟨l - 1, by omega⟩
      exact statementsUntil_of_go hstop

/-- A block may be empty, so it can always be completed. -/
theorem builds_emptyBlock : Builds (.block (.mk (some (Token.ofKind (.symbol .openBrace)).line) []))
    [Token.ofKind (.symbol .openBrace), .ofKind (.symbol .closeBrace)] :=
  .braces rfl .none rfl

/-- A block that has been opened can be closed. -/
theorem block_tandem (hs : SoundStatement s) (hst : TandemStatement (n - 1) (m - 1) s t)
    (hV : Completes V fun b ts => Builds (.block b) ts) (hc : c.Within n) :
    Tandem V m (block s) (block t) c := by
  have hempty : Builds (.block _)
      ([] ++ [Token.ofKind (.symbol .openBrace), .ofKind (.symbol .closeBrace)]) :=
    builds_emptyBlock
  refine .expect hc (by simp) (by simp) (hV.start [] hempty) fun ho hc' => ?_
  have hclosed {ss : List Stmt} {us : List Token} (hb : Builds (.stmts ss) us) :
      Builds (.block (.mk (some c.current.line) ss))
        ([c.current] ++ (us ++ [Token.ofKind (.symbol .closeBrace)])) :=
    .braces ho hb rfl
  refine .remaining fun k => ?_
  have hstatements := statementsUntil_tandem hs (.symbol .closeBrace) (Nat.min_le_left (k + 1) (m - 1))
    (hst.mono hc'.lt (Nat.min_le_right _ _))
    (hV.inside [c.current] fun ss us hb => ⟨_, _, hclosed hb⟩) (.of_ended hc'.ended)
  refine hstatements.next hc' (statementsUntil_sound hs _ _) fun ss us c'' hb hc'' => ?_
  refine .expect hc'' (by simp) (by simp) ?_ fun _ _ => .pure _
  exact hV.start (c.current :: us) (hclosed hb)

/-! ## Loops and choices -/

/-- A condition and a block make a guarded block. -/
theorem guarded_of_condition {e : Expr} {b : Block} {ts us : List Token} (h : IsCondition e ts)
    (hb : Builds (.block b) us) : Builds (.guarded e b) (ts ++ us) := by
  obtain ⟨o, vs, u, ho, hd, hu, rfl⟩ := h
  simpa using Builds.guard ho hd hu hb

/-- A loop can be completed by an empty block. -/
theorem loop_tandem (hs : SoundStatement s) (hst : TandemStatement n m s t)
    (hV : Completes V fun s ts => Builds (.stmt s) ts) (hc : c.Within (n + 1))
    (hk : c.current.kind = .keyword .loop) : Tandem V (m + 1) (loop s) (loop t) c := by
  have hne : c.current.kind ≠ .eof := by simp [hk]
  refine .advance hc.ended hne ?_
  have htest : Completes (fun us => V (c.current :: us)) IsCondition := fun e us he =>
    hV.start (c.current :: us) (.loop hk (guarded_of_condition he builds_emptyBlock))
  refine (condition_tandem _ htest (hc.advance hne)).next (hc.advance hne) (condition_sound _)
    fun e us c' he hc' => ?_
  have hbody : Completes (fun vs => V (c.current :: (us ++ vs))) fun b ts => Builds (.block b) ts :=
    hV.inside (c.current :: us) fun b vs hb =>
      ⟨_, [], by simpa using Builds.loop hk (guarded_of_condition he hb)⟩
  have hblock := block_tandem hs (hst.mono (Nat.sub_le _ _) (Nat.sub_le _ _)) hbody hc'
  exact hblock.bind fun b _ _ _ _ => .pure _

/-- The other side of a choice goes on where the guarded block ends. -/
theorem alternate?_tandem (hs : SoundStatement s) (hst : TandemStatement n m s t)
    {choice choice' : Token → Parser Stmt}
    (hchoice : ∀ V k, (Completes V fun s ts => Builds (.choice k s) ts) →
      ∀ c : Cursor, c.Within (n - 1) → Tandem V (m - 1) (choice k) (choice' k) c)
    (k : Token) {e : Expr} {b : Block} {ts : List Token} (hguarded : Builds (.guarded e b) ts)
    (hV : Completes V fun v us =>
      Builds (.choice k (.branch (some k.line) e (.block b) v)) (ts ++ us))
    (hc : c.Within n) : Tandem V m (alternate? s choice) (alternate? t choice') c := by
  refine .accept hc (by simp) (fun ht hc' => ?_) fun _ => ?_
  · refine .map some (hchoice _ _ (fun s us hb => ?_) _ hc')
    exact hV (some s) (c.current :: us) (.otherwiseWhen hguarded ht hb)
  · refine .accept hc (by simp) (fun ht hc' => .isAt ?_) fun _ => .pure none
    by_cases hw : c.advance.current.kind = .keyword .when
    · rw [if_pos (decide_eq_true hw), if_pos (decide_eq_true hw)]
      refine .advance hc'.ended (by simp [hw]) (.map some ?_)
      have hc'' := (hc'.advance (by simp [hw])).mono (Nat.sub_le (n - 1) 1)
      refine (hchoice _ _ (fun s us hb => ?_) _ hc'').mono (Nat.sub_le _ _)
      exact hV (some s) (c.current :: c.advance.current :: us) (.otherwiseBranch hguarded ht hw hb)
    · rw [if_neg (by simpa using hw), if_neg (by simpa using hw)]
      refine .map _ (block_tandem hs (hst.mono (by omega) (by omega)) (fun a us hb => ?_) hc')
      exact hV (some (.block a)) (c.current :: us) (.otherwiseBlock hguarded ht hb)

/-- A choice can be completed by an empty block, and its other side may be missing. -/
theorem branch_tandem (hs : SoundStatement s) {k l : Nat} (hk : n ≤ k) (hl : m ≤ l)
    (hst : TandemStatement n m s t) {keyword : Token}
    (hV : Completes V fun s ts => Builds (.choice keyword s) ts) (hc : c.Within n) :
    Tandem V m (branch s k keyword) (branch t l keyword) c := by
  induction k generalizing l n m V c keyword with
  | zero => exact absurd (hc.mono hk) Cursor.Within.not_zero
  | succ k ih =>
    have hround : Tandem V m (branch s (k + 1) keyword) (branch t (l - 1 + 1) keyword) c := by
      have htest : Completes V IsCondition := fun e ts he =>
        hV.start ts (.alone (guarded_of_condition he builds_emptyBlock))
      refine (condition_tandem _ htest hc).nextMore hc (condition_sound _) ?_
        fun e ts c' he hc' => ?_
      · rintro e ts ⟨o, us, u, _, _, _, rfl⟩
        exact List.cons_ne_nil _ _
      have hst' : TandemStatement (n - 1) (m - 1) s t := hst.mono (Nat.sub_le _ _) (Nat.sub_le _ _)
      have hbody : Completes (fun us => V (ts ++ us)) fun b us => Builds (.block b) us :=
        hV.inside ts fun b us hb => ⟨_, [], by simpa using Builds.alone (guarded_of_condition he hb)⟩
      have hblock := block_tandem hs (hst'.mono (Nat.sub_le _ _) (Nat.sub_le _ _)) hbody hc'
      refine hblock.next hc' (block_sound hs) fun b us c'' hb hc'' => ?_
      have hchoice : ∀ V w, (Completes V fun s ts => Builds (.choice w s) ts) → ∀ c : Cursor,
          c.Within (n - 1 - 1) → Tandem V (m - 1 - 1) (branch s k w) (branch t (l - 1) w) c :=
        fun V w hV c hc => ih (by omega) (by omega)
          (hst'.mono (Nat.sub_le _ _) (Nat.sub_le _ _)) hV hc
      refine (alternate?_tandem hs hst' hchoice keyword (guarded_of_condition he hb)
        (fun v vs hb => ?_) hc'').bind fun v _ _ _ _ => .pure _
      obtain ⟨more, hmore⟩ := hV _ _ hb
      exact ⟨more, by simpa using hmore⟩
    refine hround.congr rfl fun d hd _ => ?_
    have hlt := hd.lt
    rw [show l - 1 + 1 = l by omega]

/-! ## Functions -/

/-- The language of the parameters of a function. -/
abbrev IsParameters (ns : List String) (ts : List Token) : Prop :=
  ns = [] ∧ ts = [] ∨ Names ns ts ∧ ns.Nodup

theorem parameterList_sound : Sound parameterList IsParameters := by
  intro c ns c' hc h
  simp only [parameterList, bind_eq_ok, isAt_eq_ok] at h
  obtain ⟨_, _, ⟨rfl, rfl⟩, h⟩ := h
  split at h
  · obtain ⟨rfl, rfl⟩ := pure_eq_ok.1 h
    exact ⟨[], .refl c, .inl ⟨rfl, rfl⟩⟩
  · simp only [bind_eq_ok, remaining_eq_ok] at h
    obtain ⟨_, _, ⟨rfl, rfl⟩, h⟩ := h
    obtain ⟨ms, ps, hpass, hms, rfl, hnodup, _⟩ := parameters_sound _ hc (Nat.lt_succ_self _) h
    exact ⟨ps, hpass, .inr ⟨hms, hnodup⟩⟩

/-- There is always another name. -/
theorem exists_fresh (seen : List String) : ∃ name, name ∉ seen := by
  have hlonger : ∃ n, ∀ s ∈ seen, s.length < n := by
    induction seen with
    | nil => exact ⟨0, nofun⟩
    | cons s seen ih =>
      obtain ⟨n, hn⟩ := ih
      refine ⟨max (s.length + 1) n, fun s' hs' => ?_⟩
      rcases List.mem_cons.1 hs' with rfl | hs'
      · exact Nat.le_max_left _ _
      · exact Nat.lt_of_lt_of_le (hn s' hs') (Nat.le_max_right _ _)
  obtain ⟨n, hn⟩ := hlonger
  refine ⟨String.ofList (List.replicate n 'x'), fun hmem => ?_⟩
  have hlt := hn _ hmem
  simp at hlt

/-- A name that was seen before is complained about behind it. -/
theorem parameters_of_seen {seen : List String} {fuel : Nat} (hk : c.current.kind = .identifier)
    (hseen : c.current.value ∈ seen) :
    parameters seen (fuel + 1) c =
      .error ⟨.duplicateParameter c.current.value, c.current.position⟩ c.advance := by
  rw [parameters, bind_of_ok (expect_eq_ok.2 ⟨hk, rfl, rfl⟩), if_pos (by simpa using hseen)]
  rfl

/-- A comma can be completed by a name that was not used before. -/
theorem parameters_tandem {seen : List String} {k l : Nat} (hk : n ≤ k) (hl : m ≤ l)
    (hV : ∀ ns ps, Names ns ps → ns.Nodup → (∀ x ∈ ns, x ∉ seen) → ∃ more, V (ps ++ more))
    (hc : c.Within n) : Tandem V m (parameters seen k) (parameters seen l) c := by
  induction k generalizing l n m V c seen with
  | zero => exact absurd (hc.mono hk) Cursor.Within.not_zero
  | succ k ih =>
    obtain ⟨name, hname⟩ := exists_fresh seen
    have hfresh : Names [name] [⟨.identifier, name, .first⟩] :=
      .one (rfl : (Token.mk .identifier name .first).kind = _)
    obtain ⟨more, hmore⟩ := hV _ _ hfresh (List.nodup_singleton _) (by simpa using hname)
    -- a cursor that counts leaves fuel for another name
    suffices hround : Tandem V m (parameters seen (k + 1)) (parameters seen (l - 1 + 1)) c by
      refine hround.congr rfl fun d hd _ => ?_
      have hlt := hd.lt
      rw [show l - 1 + 1 = l by omega]
    by_cases hseen : c.current.kind = .identifier ∧ c.current.value ∈ seen
    · have hpass : c.Passes ([] ++ [c.current]) c.advance := passes_of_kind hc.ended hseen.1 (by simp)
      refine .of_error (parameters_of_seen hseen.1 hseen.2) (.behind hpass rfl rfl) ⟨_, hmore⟩ ?_
      intro d us _ hrest ns d' hok
      have hcurrent : d.current = c.current := (List.cons.inj hrest).1
      rw [← hcurrent] at hseen
      rw [parameters_of_seen hseen.1 hseen.2] at hok
      cases hok
    · refine .expect hc (by simp) (by simp) ⟨_, hmore⟩ fun hi hc' => ?_
      have hnew : c.current.value ∉ seen := fun hmem => hseen ⟨hi, hmem⟩
      rw [if_neg (by simpa using hnew), if_neg (by simpa using hnew)]
      refine .accept hc' (by simp) (fun ht hc'' => ?_) fun _ => .pure _
      refine ih (by omega) (by omega) (fun ns ps hns hnodup hfresh => ?_) hc''
      refine hV _ _ (.more hi ht hns)
        (List.nodup_cons.2 ⟨fun hmem => hfresh _ hmem (.head _), hnodup⟩) fun x hx => ?_
      rcases List.mem_cons.1 hx with rfl | hx
      · exact hnew
      · exact fun hmem => hfresh x hx (.tail _ hmem)

/-- A function may have no parameters. -/
theorem parameterList_tandem (hV : Completes V IsParameters) (hc : c.Ended) :
    Tandem V m parameterList parameterList c := by
  refine .isAt ?_
  split
  · exact .pure []
  · refine .remaining fun k => ?_
    refine parameters_tandem (Nat.le_refl _) (Nat.min_le_left _ _) ?_ (.of_ended hc)
    exact fun ns ps hns hnodup _ => hV ns ps (.inr ⟨hns, hnodup⟩)

/-- A function is made of its name, its parameters and its block. -/
theorem function_of_parameters {f n o u : Token} {ns : List String} {b : Block}
    {ps ts : List Token} (hf : f.kind = .keyword .function) (hn : n.kind = .identifier)
    (ho : o.kind = .symbol .openParen) (hps : IsParameters ns ps) (hu : u.kind = .symbol .closeParen)
    (hb : Builds (.block b) ts) :
    Builds (.stmt (.function (some f.line) n.value ns b)) (f :: n :: o :: (ps ++ u :: ts)) := by
  rcases hps with ⟨rfl, rfl⟩ | ⟨hns, hnodup⟩
  · exact .function hf hn ho hu hb
  · exact .functionOf hf hn ho hns hnodup hu hb

/-- A function can be completed at each of its tokens. -/
theorem function_tandem (hs : SoundStatement s) (hst : TandemStatement n m s t)
    (hV : Completes V fun s ts => Builds (.stmt s) ts) (hc : c.Within (n + 1))
    (hk : c.current.kind = .keyword .function) :
    Tandem V (m + 1) (function s) (function t) c := by
  have hne : c.current.kind ≠ .eof := by simp [hk]
  -- whatever is missing can be filled in, up to an empty block
  have hfilled {n o : Token} {ns : List String} {ps : List Token} (hn : n.kind = .identifier)
      (ho : o.kind = .symbol .openParen) (hps : IsParameters ns ps) :=
    function_of_parameters hk hn ho hps (Token.kind_ofKind (.symbol .closeParen))
      builds_emptyBlock
  have hnone : IsParameters [] [] := .inl ⟨rfl, rfl⟩
  refine .advance hc.ended hne (.expect (hc.advance hne) (by simp) (by simp) ?_ fun hn hc₁ => ?_)
  · exact hV.start [c.current] (hfilled (Token.kind_ofKind _) (Token.kind_ofKind _) hnone)
  refine .expect hc₁ (by simp) (by simp) ?_ fun ho hc₂ => ?_
  · exact hV.start [c.current, c.advance.current] (hfilled hn (Token.kind_ofKind _) hnone)
  generalize c.advance.current = name at *
  generalize c.advance.advance.current = o at *
  have hparams : Completes (fun us => V (c.current :: name :: o :: us)) IsParameters :=
    hV.inside [c.current, name, o] fun ns ps hps => ⟨_, _, hfilled hn ho hps⟩
  refine (parameterList_tandem hparams hc₂.ended).next hc₂ parameterList_sound
    fun ns ps c' hps hc' => ?_
  refine .expect hc' (by simp) (by simp) ?_ fun hu hc'' => ?_
  · exact hV.start (c.current :: name :: o :: ps) (hfilled hn ho hps)
  generalize c'.current = u at *
  have hbody : Completes (fun us => V (c.current :: name :: o :: (ps ++ u :: us))) fun b ts =>
      Builds (.block b) ts := by
    intro b ts hb
    obtain ⟨more, hmore⟩ := hV _ _ (function_of_parameters hk hn ho hps hu hb)
    exact ⟨more, by simpa using hmore⟩
  exact (block_tandem hs (hst.mono (by omega) (by omega)) hbody hc'').bind fun b _ _ _ _ => .pure _

/-! ## Statements without a block -/

/-- A declaration may have a value, and behind the sign it has to. -/
theorem initial?_tandem (hc : c.Within n)
    (hV : ∀ a e ts, a.kind = .symbol .assign → Derives (.expr .loosest e) ts →
      ∃ more, V (a :: (ts ++ more))) : Tandem V m initial? initial? c := by
  refine .accept hc (by simp) (fun ha hc' => .map some ?_) fun _ => .pure none
  exact expression_tandem (fun e ts hd => hV _ e ts ha hd) hc'.ended _

theorem declaration_tandem (hV : Completes V fun s ts => Builds (.stmt s) ts) (hc : c.Within n)
    (hk : c.current.kind = .keyword .declare) : Tandem V m declaration declaration c := by
  have hne : c.current.kind ≠ .eof := by simp [hk]
  refine .advance hc.ended hne (.expect (hc.advance hne) (by simp) (by simp) ?_ fun hn hc₁ => ?_)
  · exact hV.start [c.current] (.declare hk (Token.kind_ofKind _) (Token.kind_ofKind _))
  have hvalue := initial?_tandem (m := m - 1 - 1) hc₁
    (V := fun us => V (c.current :: c.advance.current :: us)) fun a e ts ha hd =>
      hV.start (c.current :: c.advance.current :: a :: ts)
        (.declareAs hk hn ha hd (Token.kind_ofKind _))
  refine hvalue.next hc₁ initial?_sound fun v ts c' hv hc' => ?_
  refine .semicolon hc' ?_ fun _ _ => .pure _
  rcases hv with ⟨rfl, rfl⟩ | ⟨a, e, us, ha, hd, rfl, rfl⟩
  · exact hV.start [c.current, c.advance.current] (.declare hk hn (Token.kind_ofKind _))
  · exact hV.start (c.current :: c.advance.current :: a :: us)
      (.declareAs hk hn ha hd (Token.kind_ofKind _))

/-- An assignment can be completed by a value and a semicolon. -/
theorem assignment_tandem (hV : Completes V fun s ts => Builds (.stmt s) ts) (hc : c.Within n)
    (hk : c.current.kind = .identifier) : Tandem V m assignment assignment c := by
  have hne : c.current.kind ≠ .eof := by simp [hk]
  have hsemicolon : (Token.ofKind (.symbol .semicolon)).kind = .symbol .semicolon := Token.kind_ofKind _
  refine .advance hc.ended hne (.eat (hc.advance hne) (by simp) ?_ fun ha hc₁ => ?_)
  · have hassign : (Token.ofKind (.symbol .assign)).kind = .symbol .assign := Token.kind_ofKind _
    have hname : (Token.ofKind .identifier).kind = .identifier := Token.kind_ofKind _
    exact hV.start [c.current] (.assign hk hassign (derives_name hname) hsemicolon)
  have hvalue : Completes (fun us => V (c.current :: c.advance.current :: us)) fun e ts =>
      Derives (.expr .loosest e) ts := fun e ts hd =>
    hV.start (c.current :: c.advance.current :: ts) (.assign hk ha hd hsemicolon)
  refine (expression_tandem hvalue hc₁.ended _).next hc₁ expression_sound fun e ts c' hd hc' => ?_
  exact .semicolon hc' (hvalue e ts hd) fun _ _ => .pure _

theorem print_tandem (hV : Completes V fun s ts => Builds (.stmt s) ts) (hc : c.Within n)
    (hk : c.current.kind = .keyword .print) : Tandem V m print print c := by
  have hne : c.current.kind ≠ .eof := by simp [hk]
  have hvalues : Completes (fun us => V (c.current :: us)) fun es ts => Derives (.exprs es) ts :=
    fun es ts hd => hV.start (c.current :: ts)
      (.print hk hd (Token.kind_ofKind (.symbol .semicolon)))
  have hc' := hc.advance hne
  refine .advance hc.ended hne (.remaining fun k => ?_)
  have hprinted := commaSeparated_tandem expression_sound (Nat.min_le_left (k + 1) (m - 1))
    (fun V hV c hc => expression_tandem hV hc.ended _) hvalues (.of_ended hc'.ended)
  refine hprinted.next hc' (commaSeparated_sound expression_sound _) fun es ts c'' hd hc'' => ?_
  exact .semicolon hc'' (hvalues es ts hd) fun _ _ => .pure _

theorem giveBack_tandem (hV : Completes V fun s ts => Builds (.stmt s) ts) (hc : c.Within n)
    (hk : c.current.kind = .keyword .giveBack) : Tandem V m giveBack giveBack c := by
  have hne : c.current.kind ≠ .eof := by simp [hk]
  have hvalue : Completes (fun us => V (c.current :: us)) fun e ts => Derives (.expr .loosest e) ts :=
    fun e ts hd => hV.start (c.current :: ts) (.giveBackOf hk hd (Token.kind_ofKind _))
  have hc' := hc.advance hne
  refine .advance hc.ended hne ?_
  have hgiven : Tandem (fun us => V (c.current :: us)) (m - 1) given? given? c.advance := by
    refine .isAt ?_
    split
    · exact .pure none
    · exact .map some (expression_tandem hvalue hc'.ended _)
  refine hgiven.next hc' given?_sound fun v ts c'' hv hc'' => ?_
  refine .semicolon hc'' ?_ fun _ _ => .pure _
  rcases hv with ⟨_, rfl⟩ | ⟨e, hd, _⟩
  · exact hV.start [c.current] (.giveBack hk (Token.kind_ofKind _))
  · exact hvalue e ts hd

/-- A statement of one keyword can be completed by a semicolon. -/
theorem bare_tandem {word : Keyword} {clause : Clause} {make : Line → Stmt}
    (hV : Completes V fun s ts => Builds (.stmt s) ts) (hc : c.Within n)
    (hk : c.current.kind = .keyword word)
    (hmake : ∀ {t u : Token}, t.kind = .keyword word → u.kind = .symbol .semicolon →
      Builds (.stmt (make (some t.line))) [t, u]) :
    Tandem V m (bare make clause) (bare make clause) c := by
  have hne : c.current.kind ≠ .eof := by simp [hk]
  refine .advance hc.ended hne (.semicolon (hc.advance hne) ?_ fun _ _ => .pure _)
  exact hV.start [c.current] (hmake hk (Token.kind_ofKind (.symbol .semicolon)))

/-- The completions have to start with the token at the cursor, which tells what the expression may
be. -/
theorem expressionStatement_tandem (hfirst : ∃ more, V more)
    (hV : ∀ e ts, Derives (.expr .loosest e) (c.current :: ts) →
      ∃ more, V (c.current :: (ts ++ more))) (hc : c.Within n) :
    Tandem V m expressionStatement expressionStatement c := by
  refine .strengthen (.current ?_) hfirst
  have hwhole : Completes (fun us => us.head? = some c.current → V us) fun e ts =>
      Derives (.expr .loosest e) ts := by
    intro e ts hd
    obtain ⟨t, us, rfl, _⟩ := (started_of_derives hd).expr
    by_cases ht : t = c.current
    · subst ht
      obtain ⟨more, hmore⟩ := hV e us hd
      exact ⟨more, fun _ => hmore⟩
    · exact ⟨[], fun heq => absurd (Option.some.inj heq) ht⟩
  refine (expression_tandem hwhole hc.ended m).next hc expression_sound fun e ts c' hd hc' => ?_
  exact .semicolon hc' (hwhole e ts hd) fun _ _ => .pure _

end Parser

end Boli
