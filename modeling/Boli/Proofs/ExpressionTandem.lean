import Boli.Proofs.Tandem

/-!
# Expressions in tandem

The readings of expressions go in tandem on all ranks, from the primaries up to `expression_tandem`.
Each rank takes for granted that its phrases can be completed, and shows it of the phrases inside them:
a bracket can be closed, an operator gets an operand, and a function of the language its arguments.
-/

namespace Boli

open Grammar

/-- Some token of a kind. -/
def Token.ofKind (k : Kind) : Token := ⟨k, k.spelling?.getD "x", .first⟩

theorem Token.kind_ofKind (k : Kind) : (Token.ofKind k).kind = k := rfl

/-- Nothing binds tighter than a primary. -/
theorem Rank.tightness_le (rank : Rank) : rank.tightness ≤ Rank.primary.tightness := by
  cases rank with
  | binary level => cases level <;> decide
  | _ => decide

/-- An expression has at least one token. -/
theorem Grammar.ne_nil_of_derives {rank : Rank} {e : Expr} {ts : List Token}
    (h : Derives (.expr rank e) ts) : ts ≠ [] := by
  obtain ⟨t, us, rfl, _⟩ := (started_of_derives h).expr
  exact List.cons_ne_nil t us

namespace Completes

variable {α β : Type} {V : List Token → Prop} {L : α → List Token → Prop}

/-- The tokens can be completed, since a phrase starts with them. -/
theorem start (hV : Completes V L) (ts : List Token) {a : α} {us : List Token} (h : L a (ts ++ us)) :
    ∃ more, V (ts ++ more) := by
  obtain ⟨more, hmore⟩ := hV a _ h
  exact ⟨us ++ more, by rwa [← List.append_assoc]⟩

/-- A phrase of another language can be completed behind some tokens, since a phrase of the language
starts with them and it. -/
theorem inside {L' : β → List Token → Prop} (hV : Completes V L) (ts : List Token)
    (h : ∀ b us, L' b us → ∃ a vs, L a (ts ++ (us ++ vs))) :
    Completes (fun us => V (ts ++ us)) L' := by
  intro b us hb
  obtain ⟨a, vs, ha⟩ := h b us hb
  rw [← List.append_assoc] at ha
  obtain ⟨more, hmore⟩ := hV.start _ ha
  refine ⟨more, ?_⟩
  rwa [List.append_assoc] at hmore

/-- Any expression will do to complete a phrase. -/
theorem expr {rank : Rank} (hV : Completes V fun e ts => Derives (.expr rank e) ts) :
    ∃ more, V more := by
  have hname : Derives (.expr rank _) [Token.ofKind .identifier] :=
    (Derives.name rfl).loosen rank.tightness_le
  exact hV.start [] hname

end Completes

namespace Parser

variable {x y : Parser Expr} {n m : Nat} {rank : Rank}

/-- The readings of expressions of a rank go in tandem, from cursors with fewer than `n` and `m`
tokens ahead. -/
def TandemAs (rank : Rank) (n m : Nat) (x y : Parser Expr) : Prop :=
  ∀ V, (Completes V fun e ts => Derives (.expr rank e) ts) → ∀ c : Cursor, c.Within n → Tandem V m x y c

theorem TandemAs.mono {n' m' : Nat} (h : TandemAs rank n m x y) (hn : n' ≤ n) (hm : m' ≤ m) :
    TandemAs rank n' m' x y :=
  fun V hV c hc => (h V hV c (hc.mono hn)).mono hm

/-! ## Items between commas -/

/-- Behind a comma there has to be an item on both sides. -/
theorem commaSeparated_tandem (hx : SoundExpression x) {k l : Nat} (hl : m ≤ l + 1)
    (hxy : TandemAs .loosest (k + 1) m x y) {V : List Token → Prop}
    (hV : Completes V fun es ts => Derives (.exprs es) ts) {c : Cursor} (hc : c.Within (k + 1)) :
    Tandem V m (commaSeparated x k) (commaSeparated y l) c := by
  induction k generalizing l m V c with
  | zero =>
    obtain ⟨g, hg⟩ : ∃ g, commaSeparated y l = y >>= g := by cases l <;> exact ⟨_, rfl⟩
    have hitem := hxy V (fun e ts hd => hV [e] ts (.one hd)) c hc
    rw [hg]
    exact hitem.nextMore hc hx ne_nil_of_derives fun _ _ _ _ hc' => absurd hc' Cursor.Within.not_zero
  | succ k ih =>
    have hitem := hxy V (fun e ts hd => hV [e] ts (.one hd)) c hc
    have hxy' : TandemAs .loosest (k + 1) (m - 1) x y := hxy.mono (Nat.le_succ _) (Nat.sub_le _ _)
    have htail {e : Expr} {ts : List Token} {c' : Cursor} (hd : Derives (.expr .loosest e) ts)
        (hc' : c'.Within (k + 1)) {l : Nat} (hl : m - 1 ≤ l + 1) :
        Tandem (fun us => V (ts ++ us)) (m - 1)
          (do
            if (← accept (.symbol .comma)).isSome then
              return e :: (← commaSeparated x k)
            else
              return [e])
          (do
            if (← accept (.symbol .comma)).isSome then
              return e :: (← commaSeparated y l)
            else
              return [e]) c' := by
      refine .accept hc' (by simp) (fun ht hc'' => ?_) fun _ => .pure [e]
      have hrest : Completes (fun us => V (ts ++ c'.current :: us)) fun es us =>
          Derives (.exprs es) us := by
        intro es us hds
        obtain ⟨more, hmore⟩ := hV (e :: es) _ (.more hd ht hds)
        exact ⟨more, by simpa using hmore⟩
      have hmore := ih hl hxy' hrest (hc''.mono (Nat.le_succ k))
      exact (hmore.mono (Nat.sub_le _ _)).bind fun es _ _ _ _ => .pure (e :: es)
    cases l with
    | zero =>
      refine hitem.nextMore hc hx ne_nil_of_derives fun e ts c' hd hc' => ?_
      have hnone : m - 1 = 0 := by omega
      refine (htail (l := 0) hd hc' (by omega)).congr rfl fun d hd => ?_
      rw [hnone] at hd
      exact absurd hd Cursor.Within.not_zero
    | succ l =>
      refine hitem.nextMore hc hx ne_nil_of_derives fun e ts c' hd hc' => ?_
      exact htail hd hc' (by omega)

/-- The closing token in place of the first item means that there are none. -/
theorem itemsUntil_tandem (hx : SoundExpression x) (hxy : TandemAs .loosest n m x y)
    (close : Kind) {V : List Token → Prop} (hV : Completes V fun es ts => Derives (.items es) ts)
    {c : Cursor} (hc : c.Within n) : Tandem V m (itemsUntil close x) (itemsUntil close y) c := by
  refine .isAt ?_
  split
  · exact .pure []
  · refine .remaining fun k => ?_
    have hxy' : TandemAs .loosest (c.remaining + 1) (min (k + 1) m) x y :=
      hxy.mono hc.lt (Nat.min_le_right _ _)
    refine commaSeparated_tandem hx (Nat.min_le_left _ _) hxy' ?_ (.of_ended hc.ended)
    exact fun es ts hd => hV es ts (.something hd)

/-- The language of arguments in parentheses. -/
abbrev IsArguments (args : List Expr) (ts : List Token) : Prop :=
  ∃ o us u, o.kind = .symbol .openParen ∧ Derives (.items args) us ∧
    u.kind = .symbol .closeParen ∧ ts = o :: (us ++ [u])

/-- Arguments that have been opened can be closed. -/
theorem arguments_tandem (hx : SoundExpression x) (hxy : TandemAs .loosest n m x y)
    {V : List Token → Prop} (hV : Completes V IsArguments) {c : Cursor} (hc : c.Within n) :
    Tandem V m (arguments x) (arguments y) c := by
  have hnothing : IsArguments []
      ([] ++ [Token.ofKind (.symbol .openParen), .ofKind (.symbol .closeParen)]) :=
    ⟨_, [], _, rfl, .nothing, rfl, rfl⟩
  refine .expect hc (by simp) (by simp) (hV.start [] hnothing) fun ho hc' => ?_
  have hclosed {args : List Expr} {us : List Token} (hd : Derives (.items args) us) :
      IsArguments args ([c.current] ++ (us ++ [Token.ofKind (.symbol .closeParen)])) :=
    ⟨_, us, _, ho, hd, rfl, rfl⟩
  have hitems := itemsUntil_tandem hx (hxy.mono (Nat.sub_le _ 1) (Nat.sub_le _ 1))
    (.symbol .closeParen) (hV.inside [c.current] fun args us hd => ⟨args, _, hclosed hd⟩) hc'
  refine hitems.next hc' (itemsUntil_sound hx _) fun args us c'' hd hc'' => ?_
  refine .expect hc'' (by simp) (by simp) ?_ fun _ _ => .pure args
  exact hV.start (c.current :: us) (hclosed hd)

/-! ## Primaries -/

theorem constant_tandem {V : List Token → Prop} {c : Cursor} (hc : c.Ended)
    (hk : c.current.kind ≠ .eof) (v : Value) : Tandem V m (constant v) (constant v) c :=
  .advance hc hk (.pure _)

/-- A number that cannot be read is at fault on both sides. -/
theorem numberLiteral_tandem {V : List Token → Prop} {c : Cursor} (hc : c.Ended)
    (hk : c.current.kind ≠ .eof) (hV : ∃ more, V more) :
    Tandem V m numberLiteral numberLiteral c := by
  cases hx : Numeral.ofLexeme? c.current.value with
  | some x =>
    refine .advance hc hk ?_
    simp only [hx]
    exact .pure _
  | none =>
    have hrun {d : Cursor} (hd : d.current = c.current) : numberLiteral d =
        .error ⟨.notANumber c.current.value, c.current.position⟩ d.advance := by
      rw [numberLiteral, bind_of_ok (advance_eq_ok.2 ⟨hd, rfl⟩)]
      simp only [hx]
      rfl
    have hpass : c.Passes ([] ++ [c.current]) c.advance := Cursor.passes_advance hc hk
    refine .of_error (hrun rfl) (.behind hpass rfl rfl) hV ?_
    intro d us _ hrest a d' hok
    rw [hrun (List.cons.inj hrest).1] at hok
    cases hok

/-- A parenthesis behind the name makes it a call on both sides. -/
theorem nameOrCall_tandem (hx : SoundExpression x) (hxy : TandemAs .loosest n m x y)
    {V : List Token → Prop} (hV : Completes V fun e ts => Derives (.expr .primary e) ts)
    {c : Cursor} (hc : c.Within (n + 1)) (hk : c.current.kind = .identifier) :
    Tandem V (m + 1) (nameOrCall x) (nameOrCall y) c := by
  have hne : c.current.kind ≠ .eof := by simp [hk]
  refine .advance hc.ended hne (.isAt ?_)
  split
  · have hargs : Completes (fun us => V (c.current :: us)) IsArguments := by
      refine hV.inside [c.current] ?_
      rintro args _ ⟨o, us, u, ho, hd, hu, rfl⟩
      exact ⟨_, [], by simpa using Derives.call hk ho hd hu⟩
    refine (arguments_tandem hx hxy hargs (hc.advance hne)).bind fun args _ _ _ _ => ?_
    exact .pure _
  · exact .pure _

/-- The token behind one that is not the mark of the end. -/
theorem exists_rest_of_ended {c : Cursor} (hc : c.Ended) (hk : c.current.kind ≠ .eof) :
    ∃ u rest, c.rest = c.current :: u :: rest ∧ c.peek 1 = u := by
  have hpass := Cursor.passes_advance hc hk
  exact ⟨c.advance.current, c.advance.ahead, hpass.rest_eq, by
    rw [Cursor.peek, hpass.ahead_eq]
    rfl⟩

theorem peek_one_of_rest {c : Cursor} {t u : Token} {us : List Token} (h : c.rest = t :: u :: us) :
    c.peek 1 = u := by
  rw [Cursor.peek, (List.cons.inj h).2]
  rfl

/-- A call of a function of the language, once the parenthesis is known to follow. -/
def calledWith (expr : Parser Expr) (b : Builtin) : Parser Expr := do
  let t ← advance
  return .call (some t.line) ⟨some t.line, b.name⟩ (← arguments expr)

/-- A function of the language has to be called. -/
theorem builtinCall_run (x : Parser Expr) (b : Builtin) (c : Cursor) :
    builtinCall x b c =
      if (c.peek 1).kind = .symbol .openParen then calledWith x b c
      else fail (.expected .expression) c :=
  ite_run

/-- A function of the language that is not called is at fault in place of the token behind it. -/
theorem builtinCall_tandem (hx : SoundExpression x) (hxy : TandemAs .loosest n m x y)
    {V : List Token → Prop} (hV : Completes V fun e ts => Derives (.expr .primary e) ts)
    {c : Cursor} (hc : c.Within (n + 1)) {b : Builtin} (hb : (c.current.kind, b) ∈ builtins) :
    Tandem V (m + 1) (builtinCall x b) (builtinCall y b) c := by
  have hne : c.current.kind ≠ .eof := by
    intro heq
    rw [heq] at hb
    simp [builtins] at hb
  have hargs : Completes (fun us => V (c.current :: us)) IsArguments := by
    refine hV.inside [c.current] ?_
    rintro args _ ⟨o, us, u, ho, hd, hu, rfl⟩
    exact ⟨_, [], by simpa using Derives.builtin hb ho hd hu⟩
  have hcall : Tandem V (m + 1) (calledWith x b) (calledWith y b) c := by
    refine .advance hc.ended hne ?_
    exact (arguments_tandem hx hxy hargs (hc.advance hne)).bind fun args _ _ _ _ => .pure _
  by_cases hopen : (c.peek 1).kind = .symbol .openParen
  · have hrun := (builtinCall_run x b c).trans (if_pos hopen)
    cases hend : builtinCall x b c with
    | ok e c' =>
      obtain ⟨ts, hpass, hq⟩ := hcall.ok (hrun.symm.trans hend)
      refine .of_ok hend hpass fun d us hd hrest => ?_
      -- the second reading sees the parenthesis too, since the first one has taken it
      have hsecond : (d.peek 1).kind = .symbol .openParen := by
        have hcall' := hrun.symm.trans hend
        simp only [calledWith, bind_eq_ok, advance_eq_ok] at hcall'
        obtain ⟨_, _, ⟨rfl, rfl⟩, args, c₁, harguments, hc₁⟩ := hcall'
        obtain ⟨_, hpass', o, vs, u, ho, _, _, rfl⟩ :=
          arguments_sound hx (hc.advance hne).ended harguments
        obtain ⟨_, rfl⟩ := pure_eq_ok.1 hc₁
        obtain rfl := hpass.unique ((Cursor.passes_advance hc.ended hne).trans hpass')
        have hpeek : d.peek 1 = o := peek_one_of_rest hrest
        rw [hpeek, ho]
      obtain ⟨d', hd', hdpass⟩ := hq d us hd hrest
      exact ⟨d', by rw [builtinCall_run, if_pos hsecond, hd'], hdpass⟩
    | error e c' =>
      obtain ⟨good, bad, hfault, hmore, hq⟩ := hcall.error (hrun.symm.trans hend)
      refine .of_error hend hfault hmore fun d us hd hrest a d' hok => ?_
      rw [builtinCall_run] at hok
      split at hok
      · exact hq d us hd hrest a d' hok
      · exact fail_ne_ok hok
  · obtain ⟨u, rest, hrest, hpeek⟩ := exists_rest_of_ended hc.ended hne
    have hbad : u.kind ≠ .symbol .openParen := by rwa [← hpeek]
    have hrun := (builtinCall_run x b c).trans (if_neg hopen)
    have hpass : c.Passes [] c := .refl c
    refine .of_error hrun (.ahead hpass hrest ⟨rfl, b, hb⟩ hbad rfl) ?_ ?_
    · have hempty : Derives (.expr .primary _)
          ([c.current] ++ [Token.ofKind (.symbol .openParen), .ofKind (.symbol .closeParen)]) :=
        .builtin hb rfl .nothing rfl
      exact hV.start [c.current] hempty
    · intro d us _ hdrest a d' hok
      rw [builtinCall_run, if_neg] at hok
      · exact fail_ne_ok hok
      · rwa [peek_one_of_rest hdrest]

/-- A list that has been opened can be closed. -/
theorem listLiteral_tandem (hx : SoundExpression x) (hxy : TandemAs .loosest n m x y)
    {V : List Token → Prop} (hV : Completes V fun e ts => Derives (.expr .primary e) ts)
    {c : Cursor} (hc : c.Within (n + 1)) (hk : c.current.kind = .symbol .openBracket) :
    Tandem V (m + 1) (listLiteral x) (listLiteral y) c := by
  have hne : c.current.kind ≠ .eof := by simp [hk]
  have hclosed {es : List Expr} {us : List Token} (hd : Derives (.items es) us) :
      Derives (.expr .primary (.list (some c.current.line) es))
        ([c.current] ++ (us ++ [Token.ofKind (.symbol .closeBracket)])) :=
    .list hk hd rfl
  refine .advance hc.ended hne ?_
  have hitems := itemsUntil_tandem hx hxy (.symbol .closeBracket)
    (hV.inside [c.current] fun es us hd => ⟨_, _, hclosed hd⟩) (hc.advance hne)
  refine hitems.next (hc.advance hne) (itemsUntil_sound hx _) fun es us c' hd hc' => ?_
  refine .expect hc' (by simp) (by simp) ?_ fun _ _ => .pure _
  exact hV.start (c.current :: us) (hclosed hd)

/-- A group that has been opened can be closed. -/
theorem group_tandem (hx : SoundExpression x) (hxy : TandemAs .loosest n m x y)
    {V : List Token → Prop} (hV : Completes V fun e ts => Derives (.expr .primary e) ts)
    {c : Cursor} (hc : c.Within (n + 1)) (hk : c.current.kind = .symbol .openParen) :
    Tandem V (m + 1) (group x) (group y) c := by
  have hne : c.current.kind ≠ .eof := by simp [hk]
  have hclosed {e : Expr} {us : List Token} (hd : Derives (.expr .loosest e) us) :
      Derives (.expr .primary e)
        ([c.current] ++ (us ++ [Token.ofKind (.symbol .closeParen)])) :=
    .group hk hd rfl
  refine .advance hc.ended hne ?_
  have hinner := hxy _ (hV.inside [c.current] fun e us hd => ⟨_, _, hclosed hd⟩) _
    (hc.advance hne)
  refine hinner.next (hc.advance hne) hx fun e us c' hd hc' => ?_
  refine .expect hc' (by simp) (by simp) ?_ fun _ _ => .pure e
  exact hV.start (c.current :: us) (hclosed hd)

/-- The kind of the current token selects the same reading on both sides. -/
theorem primary_tandem (hx : SoundExpression x) (hxy : TandemAs .loosest n m x y) :
    TandemAs .primary (n + 1) (m + 1) (primary x) (primary y) := by
  intro V hV c hc
  refine .current ?_
  -- One case for each kind of token that a primary may start with.
  split
  case h_1 hk => exact constant_tandem hc.ended (by simp [hk]) _
  case h_2 hk => exact constant_tandem hc.ended (by simp [hk]) _
  case h_3 hk => exact constant_tandem hc.ended (by simp [hk]) _
  case h_4 hk => exact numberLiteral_tandem hc.ended (by simp [hk]) hV.expr
  case h_5 hk => exact constant_tandem hc.ended (by simp [hk]) _
  case h_6 hk => exact nameOrCall_tandem hx hxy hV hc hk
  case h_7 hk => exact listLiteral_tandem hx hxy hV hc hk
  case h_8 hk => exact group_tandem hx hxy hV hc hk
  case h_9 word _ _ _ hk =>
    split
    · next b hb => exact builtinCall_tandem hx hxy hV hc (mem_builtins.2 ⟨word, hk, hb⟩)
    · next hnone =>
      refine .fail rfl ?_ hV.expr
      rintro ⟨_, b, hb⟩
      obtain ⟨word', hk', hb'⟩ := mem_builtins.1 hb
      cases hk.symm.trans hk'
      cases hnone.symm.trans hb'
  case h_10 hword =>
    refine .fail rfl ?_ hV.expr
    rintro ⟨_, b, hb⟩
    obtain ⟨word, hk, _⟩ := mem_builtins.1 hb
    exact hword word hk

/-! ## Accessors and signs -/

/-- One round of the loop over accessors, at a bracket. -/
def indexed (expr : Parser Expr) (fuel : Nat) (target : Expr) : Parser Expr := do
  let t ← advance
  let position ← expr
  let _ ← expect (.symbol .closeBracket) .indexEnd
  accessors expr fuel (.index (some t.line) target position)

/-- One round of the loop over accessors, at a dot. -/
def dotted (expr : Parser Expr) (fuel : Nat) (target : Expr) : Parser Expr := do
  let t ← advance
  let name ← expect .identifier .propertyName
  accessors expr fuel (.property (some t.line) target ⟨some name.line, name.value⟩)

/-- At a bracket, an index follows the target. -/
theorem accessors_of_bracket {target : Expr} {c : Cursor} {fuel : Nat}
    (h : c.current.kind = .symbol .openBracket) :
    accessors x (fuel + 1) target c = indexed x fuel target c := by
  rw [accessors, bind_of_ok (acceptAny_of_mem (by simp [h])), indexed,
    bind_of_ok (advance_eq_ok.2 ⟨rfl, rfl⟩)]
  exact ite_run.trans (if_pos h)

/-- At a dot, a property follows the target. -/
theorem accessors_of_dot {target : Expr} {c : Cursor} {fuel : Nat}
    (h : c.current.kind = .symbol .dot) :
    accessors x (fuel + 1) target c = dotted x fuel target c := by
  rw [accessors, bind_of_ok (acceptAny_of_mem (by simp [h])), dotted,
    bind_of_ok (advance_eq_ok.2 ⟨rfl, rfl⟩)]
  exact ite_run.trans (if_neg (by simp [h]))

/-- The target and what follows it can be completed, however many accessors have been read. -/
theorem accessors_tandem (hx : SoundExpression x) {k l : Nat} (hl : m ≤ l + 1)
    (hxy : TandemAs .loosest k (m - 1) x y) {V : List Token → Prop}
    (hV : Completes V fun e ts => Derives (.expr .accessor e) ts) {target : Expr}
    {ts : List Token} (htarget : Derives (.expr .accessor target) ts) {c : Cursor}
    (hc : c.Within (k + 1)) :
    Tandem (fun us => V (ts ++ us)) m (accessors x k target) (accessors y l target) c := by
  induction k generalizing l m target ts c with
  | zero =>
    have hstop {d : Cursor} (hd : d.current = c.current) :
        d.current.kind ≠ .symbol .openBracket ∧ d.current.kind ≠ .symbol .dot := by
      rw [hd, hc.eof_of_one]
      exact ⟨nofun, nofun⟩
    exact (Tandem.pure target).congr (accessors_of_stops (hstop rfl) 0)
      fun d _ hd => accessors_of_stops (hstop hd) l
  | succ k ih =>
    -- the second loop has fuel for another round, since the token at hand is not the last
    have hfuel {d : Cursor} (hd : d.Within m) (hne : d.current.kind ≠ .eof) : l = l - 1 + 1 := by
      have hlt := hd.one_lt hne
      omega
    by_cases hbracket : c.current.kind = .symbol .openBracket
    · have hround : Tandem (fun us => V (ts ++ us)) m (indexed x k target)
          (indexed y (l - 1) target) c := by
        have hne : c.current.kind ≠ .eof := by simp [hbracket]
        have hclosed {i : Expr} {us : List Token} (hd : Derives (.expr .loosest i) us) :
            Derives (.expr .accessor (.index (some c.current.line) target i))
              ((ts ++ [c.current]) ++ (us ++ [Token.ofKind (.symbol .closeBracket)])) := by
          simpa using Derives.index htarget hbracket hd (Token.kind_ofKind _)
        have hposition : Completes (fun us => V (ts ++ c.current :: us)) fun e us =>
            Derives (.expr .loosest e) us := by
          simpa using hV.inside (ts ++ [c.current]) fun i us hd => ⟨_, _, hclosed hd⟩
        refine .advance hc.ended hne ?_
        refine (hxy _ hposition _ (hc.advance hne)).next (hc.advance hne) hx fun i us c' hd hc' => ?_
        refine .expect hc' (by simp) (by simp) ?_ fun hu hc'' => ?_
        · simpa using hV.start (ts ++ c.current :: us) (by simpa using hclosed hd)
        · have hindex := ih (m := m - 1 - 1) (l := l - 1) (by omega)
            (hxy.mono (Nat.le_succ k) (by omega)) (.index htarget hbracket hd hu)
            (hc''.mono (Nat.le_succ k))
          simpa using hindex
      refine hround.congr (accessors_of_bracket hbracket) fun d hd hcurrent => ?_
      rw [← hcurrent] at hbracket
      rw [hfuel hd (by simp [hbracket]), accessors_of_bracket hbracket, Nat.add_sub_cancel]
    by_cases hdot : c.current.kind = .symbol .dot
    · have hround : Tandem (fun us => V (ts ++ us)) m (dotted x k target)
          (dotted y (l - 1) target) c := by
        have hne : c.current.kind ≠ .eof := by simp [hdot]
        refine .advance hc.ended hne ?_
        refine .expect (hc.advance hne) (by simp) (by simp) ?_ fun hn hc' => ?_
        · obtain ⟨e, he⟩ : ∃ e, Derives (.expr .accessor e)
              ((ts ++ [c.current]) ++ [Token.ofKind .identifier]) :=
            ⟨_, by simpa using Derives.property htarget hdot (Token.kind_ofKind .identifier)⟩
          simpa using hV.start _ he
        · have hproperty := ih (m := m - 1 - 1) (l := l - 1) (by omega)
            (hxy.mono (Nat.le_succ k) (by omega)) (.property htarget hdot hn)
            (hc'.mono (Nat.le_succ k))
          simpa using hproperty
      refine hround.congr (accessors_of_dot hdot) fun d hd hcurrent => ?_
      rw [← hcurrent] at hdot
      rw [hfuel hd (by simp [hdot]), accessors_of_dot hdot, Nat.add_sub_cancel]
    · refine (Tandem.pure target).congr (accessors_of_stops ⟨hbracket, hdot⟩ _) fun d _ hd => ?_
      rw [← hd] at hbracket hdot
      exact accessors_of_stops ⟨hbracket, hdot⟩ l

theorem postfixed_tandem (hx : SoundExpression x) (hxy : TandemAs .loosest n m x y) :
    TandemAs .accessor (n + 1) (m + 1) (postfixed x) (postfixed y) := by
  intro V hV c hc
  have htarget := primary_tandem hx hxy V (fun e ts hd => hV e ts (.plain hd)) c hc
  refine htarget.next hc (primary_sound hx) fun target ts c' hd hc' => ?_
  refine .remaining fun k => ?_
  refine accessors_tandem hx (Nat.min_le_left _ _) (hxy.mono ?_ ?_) hV (.plain hd)
    (.of_ended hc'.ended)
  · exact Nat.le_of_lt_succ hc'.lt
  · omega

/-- Without a sign, the operand follows. -/
theorem signed_of_none {c : Cursor} {fuel : Nat} (h : signOp? c.current.kind = none) :
    signed x fuel c = postfixed x c := by
  cases fuel with
  | zero => rfl
  | succ fuel =>
    rw [signed, bind_of_ok (current_eq_ok.2 ⟨rfl, rfl⟩)]
    simp only [h]

/-- One round of the loop over signs. -/
def signedOnce (expr : Parser Expr) (op : Op) (fuel : Nat) : Parser Expr := do
  let t ← advance
  return .unary (some t.line) op (← signed expr fuel)

theorem signed_of_some {c : Cursor} {fuel : Nat} {op : Op} (h : signOp? c.current.kind = some op) :
    signed x (fuel + 1) c = signedOnce x op fuel c := by
  rw [signed, bind_of_ok (current_eq_ok.2 ⟨rfl, rfl⟩)]
  simp only [h]
  rfl

/-- A sign can be completed by an operand. -/
theorem signed_tandem {k l : Nat} (hl : m ≤ l + 1)
    (hxy : TandemAs .accessor (k + 1) m (postfixed x) (postfixed y)) :
    TandemAs .sign (k + 1) m (signed x k) (signed y l) := by
  intro V hV c hc
  induction k generalizing l m V c with
  | zero =>
    have hplain := hxy V (fun e ts hd => hV e ts (.unsigned hd)) c hc
    have hop {d : Cursor} (hd : d.current = c.current) : signOp? d.current.kind = none := by
      rw [hd, hc.eof_of_one]
      rfl
    exact hplain.congr (signed_of_none (hop rfl)) fun d _ hd => signed_of_none (hop hd)
  | succ k ih =>
    cases hop : signOp? c.current.kind with
    | none =>
      have hplain := hxy V (fun e ts hd => hV e ts (.unsigned hd)) c hc
      refine hplain.congr (signed_of_none hop) fun d _ hd => signed_of_none ?_
      rwa [hd]
    | some op =>
      have hmem := signOp?_eq_some.1 hop
      have hne := ne_eof_of_mem_signs hmem
      have hround : Tandem V m (signedOnce x op k) (signedOnce y op (l - 1)) c := by
        refine .advance hc.ended hne ?_
        refine (ih (by omega) (hxy.mono (Nat.le_succ _) (Nat.sub_le _ _)) _ ?_ _
          (hc.advance hne)).bind fun e _ _ _ _ => .pure _
        exact hV.inside [c.current] fun e us hd => ⟨_, [], by simpa using Derives.signed hmem hd⟩
      refine hround.congr (signed_of_some hop) fun d hd hcurrent => ?_
      rw [← hcurrent] at hop hne
      have hlt := hd.one_lt hne
      obtain ⟨l, rfl⟩ : ∃ l', l = l' + 1 := ⟨l - 1, by omega⟩
      exact signed_of_some hop

theorem unary_tandem (hx : SoundExpression x) (hxy : TandemAs .loosest n m x y) :
    TandemAs .sign (n + 1) (m + 1) (unary x) (unary y) := by
  intro V hV c hc
  refine .remaining fun k => ?_
  refine signed_tandem (Nat.min_le_left _ _) ((postfixed_tandem hx hxy).mono ?_ ?_) V hV c
    (.of_ended hc.ended)
  · exact hc.lt
  · exact Nat.min_le_right _ _

/-! ## Binary operators -/

/-- One round of the loop over operators. -/
def chainedOnce (level : Level) (operand : Parser Expr) (op : Op) (fuel : Nat) (left : Expr) :
    Parser Expr := do
  let t ← advance
  let right ← operand
  chain level operand fuel (.binary (some t.line) op left right)

/-- At an operator of the level, another operand follows. -/
theorem chain_of_some {level : Level} {c : Cursor} {fuel : Nat} {op : Op} {left : Expr}
    (h : level.op? c.current.kind = some op) :
    chain level x (fuel + 1) left c = chainedOnce level x op fuel left c := by
  rw [chain, bind_of_ok (current_eq_ok.2 ⟨rfl, rfl⟩)]
  simp only [h]
  rfl

/-- The operands so far and what follows them can be completed, however many operators have been
read. -/
theorem chain_tandem {level : Level}
    (hx : Sound x fun e ts => Derives (.expr level.operand e) ts) {k l : Nat} (hl : m ≤ l + 1)
    (hxy : TandemAs level.operand (k + 1) m x y) {V : List Token → Prop}
    (hV : Completes V fun e ts => Derives (.expr (.binary level) e) ts) {left : Expr}
    {ts : List Token} (hleft : Derives (.expr (.binary level) left) ts) {c : Cursor}
    (hc : c.Within (k + 1)) :
    Tandem (fun us => V (ts ++ us)) m (chain level x k left) (chain level y l left) c := by
  induction k generalizing l m left ts c with
  | zero =>
    have hop {d : Cursor} (hd : d.current = c.current) : level.op? d.current.kind = none := by
      rw [hd, hc.eof_of_one]
      cases level <;> rfl
    exact (Tandem.pure left).congr (chain_of_stops (hop rfl) 0)
      fun d _ hd => chain_of_stops (hop hd) l
  | succ k ih =>
    cases hop : level.op? c.current.kind with
    | none =>
      refine (Tandem.pure left).congr (chain_of_stops hop _) fun d _ hd => chain_of_stops ?_ l
      rwa [hd]
    | some op =>
      have hmem := Level.op?_eq_some.1 hop
      have hne := ne_eof_of_mem_operators hmem
      have hround : Tandem (fun us => V (ts ++ us)) m (chainedOnce level x op k left)
          (chainedOnce level y op (l - 1) left) c := by
        have hright : Completes (fun us => V (ts ++ c.current :: us)) fun e us =>
            Derives (.expr level.operand e) us := by
          intro e us hd
          obtain ⟨more, hmore⟩ := hV _ _ (.binary hleft hmem hd)
          exact ⟨more, by simpa using hmore⟩
        have hxy' := hxy.mono (Nat.le_succ (k + 1)) (Nat.sub_le m 1)
        refine .advance hc.ended hne ?_
        refine (hxy' _ hright _ (hc.advance hne)).next (hc.advance hne) hx fun r us c' hd hc' => ?_
        simpa using ih (l := l - 1) (by omega) hxy' (.binary hleft hmem hd) hc'
      refine hround.congr (chain_of_some hop) fun d hd hcurrent => ?_
      rw [← hcurrent] at hop hne
      have hlt := hd.one_lt hne
      obtain ⟨l, rfl⟩ : ∃ l', l = l' + 1 := ⟨l - 1, by omega⟩
      exact chain_of_some hop

theorem joined_tandem (level : Level)
    (hx : Sound x fun e ts => Derives (.expr level.operand e) ts)
    (hxy : TandemAs level.operand n m x y) :
    TandemAs (.binary level) n m (joined level x) (joined level y) := by
  intro V hV c hc
  have hleft := hxy V (fun e ts hd => hV e ts (.operand hd)) c hc
  refine hleft.next hc hx fun left ts c' hd hc' => ?_
  refine .remaining fun k => ?_
  exact chain_tandem hx (Nat.min_le_left _ _) (hxy.mono hc'.lt (Nat.min_le_right _ _)) hV
    (.operand hd) (.of_ended hc'.ended)

theorem disjunction_tandem (hx : SoundExpression x) (hxy : TandemAs .loosest n m x y) :
    TandemAs .loosest (n + 1) (m + 1) (disjunction x) (disjunction y) := by
  have hproduct : Sound (product x) _ := joined_sound .product (unary_sound hx)
  have hsum : Sound (sum x) _ := joined_sound .sum hproduct
  have hrelation : Sound (relation x) _ := joined_sound .relation hsum
  have hequality : Sound (equality x) _ := joined_sound .equality hrelation
  have hconjunction : Sound (conjunction x) _ := joined_sound .conjunction hequality
  refine joined_tandem .disjunction hconjunction ?_
  refine joined_tandem .conjunction hequality ?_
  refine joined_tandem .equality hrelation ?_
  refine joined_tandem .relation hsum ?_
  refine joined_tandem .sum hproduct ?_
  exact joined_tandem .product (unary_sound hx) (unary_tandem hx hxy)

/-! ## Whole expressions -/

/-- Each side has its own fuel, which bounds the tokens it has ahead. -/
theorem expressionWithin_tandem (n m : Nat) :
    TandemAs .loosest n m (expressionWithin n) (expressionWithin m) := by
  induction n generalizing m with
  | zero => exact fun _ _ _ hc => absurd hc Cursor.Within.not_zero
  | succ n ih =>
    cases m with
    | succ m => exact disjunction_tandem (expressionWithin_sound n) (ih m)
    | zero =>
      intro V hV c hc
      have hone := disjunction_tandem (expressionWithin_sound n) (ih 0) V hV c hc
      refine (hone.mono (Nat.zero_le 1)).congr rfl fun d hd => ?_
      exact absurd hd Cursor.Within.not_zero

/-- The readings of expressions go in tandem from every cursor whose tokens end with the mark. -/
theorem expression_tandem {V : List Token → Prop}
    (hV : Completes V fun e ts => Derives (.expr .loosest e) ts) {c : Cursor} (hc : c.Ended)
    (m : Nat) : Tandem V m expression expression c := by
  refine .remaining fun k => ?_
  have hwithin := expressionWithin_tandem (c.remaining + 1) (k + 1) V hV c (.of_ended hc)
  exact hwithin.mono (Nat.min_le_left _ _)

end Parser

end Boli
