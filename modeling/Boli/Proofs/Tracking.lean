import Boli.Proofs.SynonymousPrograms
import Boli.Proofs.Walks

/-!
# Walks that keep up with a reading

A walk and a reading start at the same place.  The walk tracks the reading (`Walk.Tracks`) if it comes
to the same outcome at the same place.  So it ends, and it never asks for a token outside the list,
since a reading has neither outcome.

The relation holds from places with fewer than `n` tokens behind them, and for every depth that has
`spare` levels besides the sixteen for each of these tokens.  Whoever succeeds has passed at least `k`
tokens, and these pay for what follows: behind them, `n - k` is enough for the fuel of the reading, and
there are `16 * k` more levels to spare for the walk (`Walk.Tracks.bind`).  Every loop and every nested
reading passes a token on each round, so neither runs out before the tokens do.  What a walk needs to
spare is the way down to its first token, which is ten levels for an expression.

The relation is shown here for single steps and for expressions of every rank.
-/

namespace Boli

/-! ## Places of cursors -/

namespace Cursor

/-- The place of a cursor in the list of all its tokens. -/
def place (c : Cursor) : Place := ⟨c.tokens, c.position, c.current⟩

/-- The position counts the tokens that were passed. -/
theorem Passes.position_eq {c c' : Cursor} {ts : List Token} (h : c.Passes ts c') :
    c'.position = c.position + ts.length := by
  rw [position, h.passed_eq, List.length_append, List.length_reverse, Nat.add_comm]
  rfl

theorem getElem?_tokens_position (c : Cursor) : c.tokens[c.position]? = some c.current :=
  c.at?_position

theorem position_lt (c : Cursor) : c.position < c.tokens.length := by
  rw [c.length_tokens]
  omega

/-- A look ahead stays inside the list. -/
theorem getElem?_tokens_min (c : Cursor) (offset : Nat) :
    c.tokens[min (c.position + offset) (c.tokens.length - 1)]? = some (c.peek offset) := by
  have hlast : c.tokens.length - 1 = c.position + c.remaining := by
    rw [c.length_tokens, Nat.add_sub_cancel]
  have hmin : min ((c.position : Int) + offset) (c.position + c.remaining) =
      ((min (c.position + offset) (c.position + c.remaining) : Nat) : Int) := by omega
  have hlook := c.look?_natCast offset
  rw [look?, hmin] at hlook
  rw [hlast]
  exact hlook

/-- Behind the current token lie the tokens ahead. -/
theorem drop_tokens_position (c : Cursor) : c.tokens.drop (c.position + 1) = c.ahead := by
  rw [tokens, List.append_cons]
  exact List.drop_left' (by rw [List.length_append, List.length_reverse]; rfl)

end Cursor

namespace Walk

variable {w : Walk α} {p : Parser α} {c c' : Cursor} {n m k l spare more : Nat}

/-! ## One step after another -/

theorem bind_of_ok {f : α → Walk β} {s s' : Place} {a : α} (h : w s = some (.ok a, s')) :
    (w >>= f) s = f a s' := by
  show Option.bind (w s) _ = _
  rw [h]
  rfl

theorem bind_of_error {f : α → Walk β} {s s' : Place} {e : Trouble}
    (h : w s = some (.error e, s')) : (w >>= f) s = some (.error e, s') := by
  show Option.bind (w s) _ = _
  rw [h]
  rfl

theorem ite_run {P : Prop} [Decidable P] {w w' : Walk α} {s : Place} :
    (if P then w else w') s = if P then w s else w' s := by
  split <;> rfl

theorem fetch_of_getElem? {s : Place} {index : Nat} {t : Token} (h : s.tokens[index]? = some t) :
    fetch index s = some (.ok t, s) := by
  rw [fetch, bind_of_ok (s := s) rfl]
  simp only [h]
  rfl

/-- A walk sees the tokens that the cursor sees, and stays where it is. -/
theorem peek_place {offset : Nat} :
    peek offset c.place = some (.ok (c.peek offset), c.place) :=
  fetch_of_getElem? (c.getElem?_tokens_min offset)

/-- A walk that steps over a token comes to the place of the cursor behind it. -/
theorem advance_place (hc : c.Ended) :
    advance c.place = some (.ok c.current, c.advance.place) := by
  by_cases hk : c.current.kind = .eof
  · rw [Parser.advance_of_eof hk]
    exact ite_run.trans (if_pos hk)
  · have hpass := Cursor.passes_advance hc hk
    have hfetch := c.advance.getElem?_tokens_position
    have hplace : c.advance.place = ⟨c.tokens, c.position + 1, c.advance.current⟩ := by
      rw [Cursor.place, hpass.tokens_eq, hpass.position_eq]
      rfl
    rw [hpass.tokens_eq, hpass.position_eq] at hfetch
    refine (ite_run.trans (if_neg hk)).trans ?_
    rw [hplace]
    exact bind_of_ok (s := ⟨c.tokens, c.position + 1, c.current⟩) (fetch_of_getElem? hfetch)

/-! ## The relation -/

/-- At the cursor the walk comes to what the reading comes to.  If they succeed, they have passed at
least `k` tokens. -/
inductive Agrees (k : Nat) (w : Walk α) (p : Parser α) (c : Cursor) : Prop where
  /-- Both have read something. -/
  | ok {a : α} {c' : Cursor} {ts : List Token} (hp : p c = .ok a c')
    (hw : w c.place = some (.ok a, c'.place)) (hpass : c.Passes ts c') (hk : k ≤ ts.length)
  /-- Both have the same complaint. -/
  | error {e : ParseError} {c' : Cursor} {ts : List Token} (hp : p c = .error e c')
    (hw : w c.place = some (.error (.complaint e), c'.place)) (hpass : c.Passes ts c')

/-- From every cursor with fewer than `n` tokens behind the current one, the walk comes to what the
reading comes to.  A depth of sixteen levels for each of these tokens and of some to spare is enough
for it. -/
def Tracks (n k spare : Nat) (w : Nat → Walk α) (p : Parser α) : Prop :=
  ∀ ⦃c depth⦄, c.Within n → spare + 16 * c.remaining ≤ depth → Agrees k (w depth) p c

/-- The same from cursors that are not at the mark of the end. -/
def TracksInside (n k spare : Nat) (w : Nat → Walk α) (p : Parser α) : Prop :=
  ∀ ⦃c depth⦄, c.Within n → c.current.kind ≠ .eof → spare + 16 * c.remaining ≤ depth →
    Agrees k (w depth) p c

namespace Agrees

theorem mono (h : Agrees k w p c) (hle : l ≤ k) : Agrees l w p c := by
  cases h with
  | ok hp hw hpass hk => exact .ok hp hw hpass (hle.trans hk)
  | error hp hw hpass => exact .error hp hw hpass

theorem congr {w' : Walk α} {p' : Parser α} (h : Agrees k w p c) (hw' : w' c.place = w c.place)
    (hp' : p' c = p c) : Agrees k w' p' c := by
  cases h with
  | ok hp hw hpass hk => exact .ok (hp'.trans hp) (hw'.trans hw) hpass hk
  | error hp hw hpass => exact .error (hp'.trans hp) (hw'.trans hw) hpass

theorem pure (a : α) : Agrees 0 (pure a) (pure a) c :=
  .ok rfl rfl (.refl c) (Nat.zero_le _)

theorem failAt {t : Token} {x : Complaint} :
    Agrees k (failAt t x : Walk α) (Parser.failAt t x) c :=
  .error rfl rfl (.refl c)

theorem fail {x : Complaint} : Agrees k (fail x : Walk α) (Parser.fail x) c :=
  .error rfl rfl (.refl c)

/-- The tokens that the first part has passed count for the whole. -/
theorem bind {f : α → Walk β} {g : α → Parser β} (h : Agrees k w p c)
    (hf : ∀ a ts c', c.Passes ts c' → k ≤ ts.length → Agrees (l - k) (f a) (g a) c') :
    Agrees l (w >>= f) (p >>= g) c := by
  cases h with
  | error hp hw hpass => exact .error (Parser.bind_of_error hp) (bind_of_error hw) hpass
  | @ok a c' ts hp hw hpass hk =>
    cases hf a ts c' hpass hk with
    | ok hp' hw' hpass' hk' =>
      refine .ok ((Parser.bind_of_ok hp).trans hp') ((bind_of_ok hw).trans hw')
        (hpass.trans hpass') ?_
      rw [List.length_append]
      omega
    | error hp' hw' hpass' =>
      exact .error ((Parser.bind_of_ok hp).trans hp') ((bind_of_ok hw).trans hw')
        (hpass.trans hpass')

/-- What depends on the current token only has to be known for the one at the cursor. -/
theorem current {f : Token → Walk α} {g : Token → Parser α}
    (h : Agrees k (f c.current) (g c.current) c) :
    Agrees k (current >>= f) (Parser.current >>= g) c :=
  h.congr rfl rfl

theorem ite {P : Prop} [Decidable P] {w' : Walk α} {p' : Parser α} (h : Agrees k w p c)
    (h' : Agrees k w' p' c) : Agrees k (if P then w else w') (if P then p else p') c := by
  split
  · exact h
  · exact h'

theorem peek {offset : Nat} {f : Token → Walk α} (h : Agrees k (f (c.peek offset)) p c) :
    Agrees k (peek offset >>= f) p c :=
  h.congr (bind_of_ok peek_place) rfl

theorem get {g : Cursor → Parser α} (h : Agrees k w (g c) c) : Agrees k w (get >>= g) c :=
  h.congr rfl rfl

theorem isAt {kind : Kind} {f : Bool → Walk α} {g : Bool → Parser α}
    (h : Agrees k (f (decide (c.current.kind = kind))) (g (decide (c.current.kind = kind))) c) :
    Agrees k (isAt kind >>= f) (Parser.isAt kind >>= g) c :=
  h.congr rfl rfl

/-- Only the mark of the end is not passed. -/
theorem advance (hc : c.Ended) (hne : c.current.kind ≠ .eof) :
    Agrees 1 advance Parser.advance c :=
  .ok rfl (advance_place hc) (Cursor.passes_advance hc hne) le_rfl

end Agrees

namespace Tracks

variable {w : Nat → Walk α}

theorem mono (h : Tracks n k spare w p) (hn : m ≤ n) (hk : l ≤ k) (hspare : spare ≤ more) :
    Tracks m l more w p :=
  fun _ _ hc hdepth => (h (hc.mono hn) (by omega)).mono hk

theorem within (h : Tracks n k spare w p) (hn : m ≤ n) : Tracks m k spare w p :=
  h.mono hn le_rfl le_rfl

theorem deepen (h : Tracks n k spare w p) (hspare : spare ≤ more) : Tracks n k more w p :=
  h.mono le_rfl le_rfl hspare

theorem weaken (h : Tracks n k spare w p) : Tracks n 0 spare w p :=
  h.mono le_rfl (Nat.zero_le k) le_rfl

/-- Nothing has to be shown where no token is left. -/
theorem of_eq_zero (h : n = 0) : Tracks n k spare w p :=
  fun _ _ hc => absurd (h ▸ hc) Cursor.Within.not_zero

/-- One level down. -/
theorem succ (h : Tracks n k spare (fun depth => w (depth + 1)) p) :
    Tracks n k (spare + 1) w p := by
  intro c depth hc hdepth
  cases depth with
  | zero => omega
  | succ depth => exact h hc (by omega)

theorem pure (a : α) : Tracks n 0 spare (fun _ => pure a) (pure a) :=
  fun _ _ _ _ => .pure a

theorem failAt {t : Token} {x : Complaint} :
    Tracks n k spare (fun _ => failAt t x) (Parser.failAt t x : Parser α) :=
  fun _ _ _ _ => .failAt

/-- What was passed first need not be passed again, neither by the fuel nor by the depth. -/
theorem bind {f : α → Nat → Walk β} {g : α → Parser β} (h : Tracks n k spare w p)
    (hf : ∀ a, Tracks (n - k) (l - k) (spare + 16 * k) (f a) (g a)) :
    Tracks n l spare (fun depth => w depth >>= fun a => f a depth) (p >>= g) := by
  intro c depth hc hdepth
  refine (h hc hdepth).bind fun a ts c' hpass hk => ?_
  have hremaining := hpass.remaining_eq
  exact hf a ((hc.passes hpass).mono (Nat.sub_le_sub_left hk n)) (by omega)

theorem map {f : α → β} (h : Tracks n k spare w p) :
    Tracks n k spare (fun depth => do return f (← w depth)) (f <$> p) :=
  h.bind fun a => (pure (f a)).mono le_rfl (Nat.sub_self k).le le_rfl

theorem ite {P : Prop} [Decidable P] {w' : Nat → Walk α} {p' : Parser α}
    (h : Tracks n k spare w p) (h' : Tracks n k spare w' p') :
    Tracks n k spare (fun depth => if P then w depth else w' depth) (if P then p else p') :=
  fun _ _ hc hdepth => .ite (h hc hdepth) (h' hc hdepth)

theorem current : Tracks n 0 spare (fun _ => current) Parser.current :=
  fun c _ _ _ => .ok rfl rfl (.refl c) le_rfl

theorem isAt {kind : Kind} : Tracks n 0 spare (fun _ => isAt kind) (Parser.isAt kind) :=
  fun c _ _ _ => .ok rfl rfl (.refl c) le_rfl

theorem advance : Tracks n 0 spare (fun _ => advance) Parser.advance := by
  intro c _ hc _
  by_cases hk : c.current.kind = .eof
  · have hstay : c.Passes [] c.advance := by
      rw [Parser.advance_of_eof hk]
      exact .refl c
    exact .ok rfl (advance_place hc.ended) hstay (Nat.zero_le _)
  · exact (Agrees.advance hc.ended hk).mono (Nat.zero_le 1)

theorem acceptAny {kinds : List Kind} :
    Tracks n 0 spare (fun _ => acceptAny kinds) (Parser.acceptAny kinds) :=
  bind current fun _ => ite (bind advance fun _ => pure _) (pure _)

theorem accept {kind : Kind} : Tracks n 0 spare (fun _ => accept kind) (Parser.accept kind) :=
  bind isAt fun _ => ite (bind advance fun _ => pure _) (pure _)

/-- At the mark of the end, a token that has to stand here may be found without a step. -/
theorem demand_any {kind : Kind} {x : Complaint} :
    Tracks n 0 spare (fun _ => demand kind x) (Parser.demand kind x) :=
  bind isAt fun _ => ite advance fun _ _ _ _ => .fail

/-- Any other token that has to stand here is passed. -/
theorem demand {kind : Kind} {x : Complaint} (hne : kind ≠ .eof) :
    Tracks n 1 spare (fun _ => demand kind x) (Parser.demand kind x) := by
  intro c _ hc _
  refine Agrees.isAt ?_
  by_cases hk : c.current.kind = kind
  · rw [if_pos (decide_eq_true hk), if_pos (decide_eq_true hk)]
    exact .advance hc.ended (by rwa [hk])
  · rw [if_neg (by simpa using hk), if_neg (by simpa using hk)]
    exact .fail

theorem expect {kind : Kind} {what : Expectation} (hne : kind ≠ .eof) :
    Tracks n 1 spare (fun _ => expect kind what) (Parser.expect kind what) :=
  demand hne

theorem eat {kind : Kind} (hne : kind ≠ .eof) :
    Tracks n 1 spare (fun _ => eat kind) (Parser.eat kind) :=
  bind current fun _ => demand hne

/-- A loop of the reading takes its fuel from the tokens ahead. -/
theorem remaining {g : Nat → Parser α} (h : ∀ fuel, Tracks (min (fuel + 1) n) k spare w (g fuel)) :
    Tracks n k spare w (Parser.remaining >>= g) := by
  intro c depth hc hdepth
  have hlt := hc.lt
  have hread : Agrees k (w depth) (g c.remaining) c := h c.remaining ⟨hc.ended, by omega⟩ hdepth
  exact hread.congr rfl rfl

end Tracks

namespace TracksInside

variable {w : Nat → Walk α}

theorem succ (h : TracksInside n k spare (fun depth => w (depth + 1)) p) :
    TracksInside n k (spare + 1) w p := by
  intro c depth hc hne hdepth
  cases depth with
  | zero => omega
  | succ depth => exact h hc hne (by omega)

/-- The token at the cursor is passed. -/
theorem step {f : Token → Nat → Walk α} {g : Token → Parser α}
    (hf : ∀ t, Tracks (n - 1) (k - 1) (spare + 16) (f t) (g t)) :
    TracksInside n k spare (fun depth => advance >>= fun t => f t depth) (Parser.advance >>= g) := by
  intro c depth hc hne hdepth
  refine (Agrees.advance hc.ended hne).bind fun t ts c' hpass hk => ?_
  have hremaining := hpass.remaining_eq
  exact hf t ((hc.passes hpass).mono (Nat.sub_le_sub_left hk n)) (by omega)

end TracksInside

/-! ## Expressions -/

section Expressions

variable {expr : Parser Expr}

/-- Each item passes a token, so there are no more items than tokens. -/
theorem expressions_tracks (h : Tracks n 1 10 (ranked · .loosest) expr) {fuel : Nat}
    (hfuel : n ≤ fuel + 1) : Tracks n 1 11 expressions (Parser.commaSeparated expr fuel) := by
  induction fuel generalizing n with
  | zero =>
    -- an item would have passed the mark of the end
    rw [Parser.commaSeparated_eq]
    exact .succ (h.bind fun first => .of_eq_zero (by omega))
  | succ fuel ih =>
    rw [Parser.commaSeparated_eq]
    refine .succ (h.bind fun first => .bind .accept fun comma => .ite ?_ (.pure _))
    have hrest := ih (h.within (Nat.sub_le n 1)) (by omega)
    exact (hrest.deepen (by omega)).bind fun rest => .pure _

/-- There may be no expressions at all in front of the closing token. -/
theorem expressionsUntil_tracks (h : Tracks n 1 10 (ranked · .loosest) expr) {close : Kind} :
    Tracks n 0 12 (expressionsUntil · close) (Parser.itemsUntil close expr) := by
  refine .succ (.bind .isAt fun closed => .ite (.pure _) (.remaining fun fuel => ?_))
  exact (expressions_tracks (h.within (by omega)) (by omega)).weaken

/-- The arguments of a call lie between two parentheses, which are passed. -/
theorem arguments_tracks (h : Tracks n 1 10 (ranked · .loosest) expr) :
    Tracks n 1 1 arguments (Parser.arguments expr) := by
  have hitems := @expressionsUntil_tracks n expr h (.symbol .closeParen)
  refine .succ (.bind (.expect (by simp)) fun _ => ?_)
  refine (hitems.mono (Nat.sub_le n 1) le_rfl (by omega)).bind fun args => ?_
  exact .bind (.expect (by simp)) fun _ => .pure _

theorem constant_tracks {value : Value} :
    TracksInside n 1 spare (fun _ => constant value) (Parser.constant value) :=
  .step fun _ => .pure _

/-- A number that cannot be read is a complaint on both sides. -/
theorem numberLiteral_tracks :
    TracksInside n 1 spare (fun _ => numberLiteral) Parser.numberLiteral := by
  refine .step fun t => ?_
  cases Numeral.ofLexeme? t.value with
  | some x => exact .pure _
  | none => exact .failAt

section Nested

variable (h : Tracks n 1 10 (ranked · .loosest) expr)
include h

/-- One look behind a name tells whether it is called. -/
theorem nameOrCall_tracks : TracksInside (n + 1) 1 1 nameOrCall (Parser.nameOrCall expr) := by
  have hargs := (arguments_tracks h).deepen (by omega : 1 ≤ 16)
  refine .succ (.step fun t => .bind .isAt fun called => .ite ?_ (.pure _))
  exact hargs.bind fun args => .pure _

theorem builtinCall_tracks {b : Builtin} :
    TracksInside (n + 1) 1 1 (builtinCall · b) (Parser.builtinCall expr b) := by
  have hargs := (arguments_tracks h).deepen (by omega : 1 ≤ 16)
  have hcalled : TracksInside (n + 1) 1 0 _ (Parser.calledWith expr b) :=
    .step fun t => hargs.bind fun args => .pure _
  refine .succ fun c depth hc hne hdepth => ?_
  exact Agrees.peek (Agrees.get (.ite (hcalled hc hne hdepth) .fail))

theorem listLiteral_tracks : TracksInside (n + 1) 1 1 listLiteral (Parser.listLiteral expr) := by
  have hitems := @expressionsUntil_tracks n expr h (.symbol .closeBracket)
  refine .succ (.step fun t => (hitems.deepen (by omega)).bind fun elements => ?_)
  exact .bind (.expect (by simp)) fun _ => .pure _

theorem group_tracks : TracksInside (n + 1) 1 1 group (Parser.group expr) := by
  refine .succ (.step fun _ => (h.deepen (by omega)).bind fun e => ?_)
  exact .bind (.expect (by simp)) fun _ => .pure _

/-- A nested expression stands behind a token that opens it. -/
theorem primary_tracks : Tracks (n + 1) 1 2 (ranked · .primary) (Parser.primary expr) := by
  refine .succ fun c depth hc hdepth => Agrees.current ?_
  generalize hk : c.current.kind = kind
  have hnot : kind ≠ .eof → c.current.kind ≠ .eof := fun hne => by rwa [hk]
  cases kind with
  | number => exact numberLiteral_tracks hc (hnot (by simp)) hdepth
  | text => exact constant_tracks hc (hnot (by simp)) hdepth
  | identifier => exact nameOrCall_tracks h hc (hnot (by simp)) hdepth
  | symbol sign =>
    cases sign with
    | openBracket => exact listLiteral_tracks h hc (hnot (by simp)) hdepth
    | openParen => exact group_tracks h hc (hnot (by simp)) hdepth
    | _ => exact .fail
  | keyword word =>
    cases word with
    | yes | no | nothing => exact constant_tracks hc (hnot (by simp)) hdepth
    | input | print | list | append | length =>
      exact builtinCall_tracks h hc (hnot (by simp)) hdepth
    | _ => exact .fail
  | _ => exact .fail

end Nested

/-- Each index and each property passes the token that it starts with. -/
theorem accessors_tracks (h : Tracks n 1 10 (ranked · .loosest) expr) {fuel : Nat}
    (hfuel : n ≤ fuel + 1) {target : Expr} :
    Tracks n 0 11 (accessors · target) (Parser.accessors expr fuel target) := by
  induction fuel generalizing n target with
  | zero =>
    -- the reading stops for want of fuel, and the walk because it is at the mark of the end
    refine .succ fun c depth hc _ => ?_
    have heof := (hc.mono hfuel).eof_of_one
    have hnone : acceptAny [.symbol .openBracket, .symbol .dot] c.place =
        some (.ok none, c.place) :=
      ite_run.trans (if_neg (by simp [Cursor.place, heof]))
    exact (Agrees.pure target).congr (bind_of_ok hnone) rfl
  | succ fuel ih =>
    have hloop {target : Expr} :=
      @ih (n - 1) (h.within (Nat.sub_le n 1)) (by omega) target
    refine .succ (.bind .acceptAny fun t? => ?_)
    cases t? with
    | none => exact .pure _
    | some t =>
      refine .ite (h.bind fun position => .bind (.expect (by simp)) fun _ => ?_)
        (.bind (.expect (by simp)) fun name => hloop.deepen (by omega))
      exact hloop.mono (Nat.sub_le _ 1) le_rfl (by omega)

theorem accessor_tracks (h : Tracks n 1 10 (ranked · .loosest) expr) :
    Tracks (n + 1) 1 3 (ranked · .accessor) (Parser.postfixed expr) := by
  refine .succ ((primary_tracks h).bind fun target => .remaining fun fuel => ?_)
  exact (accessors_tracks (h.within (by omega)) (by omega)).deepen (by omega)

/-- Each sign passes a token, so there are no more signs than tokens. -/
theorem sign_tracks (h : Tracks n 1 3 (ranked · .accessor) (Parser.postfixed expr)) {fuel : Nat}
    (hfuel : n ≤ fuel + 1) : Tracks n 1 4 (ranked · .sign) (Parser.signed expr fuel) := by
  induction fuel generalizing n with
  | zero =>
    refine .succ fun c depth hc hdepth => ?_
    have heof := (hc.mono hfuel).eof_of_one
    refine (h hc hdepth).congr ((bind_of_ok (a := c.current) rfl).trans ?_) rfl
    rw [heof]
    rfl
  | succ fuel ih =>
    refine .succ fun c depth hc hdepth => Agrees.current ?_
    cases hop : signOp? c.current.kind with
    | none => exact h hc hdepth
    | some op =>
      have hne : c.current.kind ≠ .eof := fun heof => by
        rw [heof] at hop
        cases hop
      have hrest := (ih (h.within (Nat.sub_le n 1)) (by omega)).deepen (by omega : 4 ≤ 3 + 16)
      have hstep : TracksInside n 1 3 _ _ :=
        .step fun _ => hrest.bind fun e => .pure (Expr.unary (some c.current.line) op e)
      exact hstep hc hne hdepth

/-- Each operator has an operand behind it, which passes a token. -/
theorem chain_tracks {level : Level} {operand : Parser Expr}
    (h : Tracks n 1 spare (ranked · level.operand) operand) {fuel : Nat} (hfuel : n ≤ fuel + 1)
    {left : Expr} :
    Tracks n 0 (spare + 1) (chain · level left) (Parser.chain level operand fuel left) := by
  induction fuel generalizing n left with
  | zero =>
    refine .succ fun c depth hc _ => ?_
    have heof := (hc.mono hfuel).eof_of_one
    refine (Agrees.pure left).congr ((bind_of_ok (a := c.current) rfl).trans ?_) rfl
    rw [heof]
    cases level <;> rfl
  | succ fuel ih =>
    refine .succ (.bind .current fun t => ?_)
    cases level.op? t.kind with
    | none => exact .pure _
    | some op =>
      refine .bind .advance fun _ => h.bind fun right => ?_
      have hrest := @ih (n - 1) (h.within (Nat.sub_le n 1)) (by omega)
        (.binary (some t.line) op left right)
      exact hrest.deepen (by omega)

/-- A level of operators needs one level of depth more than its operands. -/
theorem joined_tracks {level : Level} {operand : Parser Expr}
    (h : Tracks n 1 spare (ranked · level.operand) operand) :
    Tracks n 1 (spare + 1) (ranked · (.binary level)) (Parser.joined level operand) := by
  refine .succ (h.bind fun left => .remaining fun fuel => ?_)
  exact (chain_tracks (h.within (by omega)) (by omega)).deepen (by omega)

/-- The ranks one after the other, from the tightest to the loosest. -/
theorem ranked_tracks (h : Tracks n 1 10 (ranked · .loosest) expr) (rank : Rank) :
    Tracks (n + 1) 1 10 (ranked · rank) (Parser.ofRank rank expr) := by
  have haccessor := accessor_tracks h
  have hsign : Tracks (n + 1) 1 4 (ranked · .sign) (Parser.unary expr) :=
    .remaining fun fuel => sign_tracks (haccessor.within (by omega)) (by omega)
  have hproduct : Tracks (n + 1) 1 5 (ranked · (.binary .product)) (Parser.product expr) :=
    joined_tracks hsign
  have hsum : Tracks (n + 1) 1 6 (ranked · (.binary .sum)) (Parser.sum expr) :=
    joined_tracks hproduct
  have hrelation : Tracks (n + 1) 1 7 (ranked · (.binary .relation)) (Parser.relation expr) :=
    joined_tracks hsum
  have hequality : Tracks (n + 1) 1 8 (ranked · (.binary .equality)) (Parser.equality expr) :=
    joined_tracks hrelation
  have hconjunction :
      Tracks (n + 1) 1 9 (ranked · (.binary .conjunction)) (Parser.conjunction expr) :=
    joined_tracks hequality
  cases rank with
  | binary level =>
    cases level with
    | disjunction => exact joined_tracks hconjunction
    | conjunction => exact hconjunction.deepen (by omega)
    | equality => exact hequality.deepen (by omega)
    | relation => exact hrelation.deepen (by omega)
    | sum => exact hsum.deepen (by omega)
    | product => exact hproduct.deepen (by omega)
  | sign => exact hsign.deepen (by omega)
  | accessor => exact haccessor.deepen (by omega)
  | primary => exact (primary_tracks h).deepen (by omega)

/-- The fuel of a nested expression is the number of tokens that are left for it. -/
theorem expressionWithin_tracks (depth : Nat) :
    Tracks depth 1 10 (ranked · .loosest) (Parser.expressionWithin depth) := by
  induction depth with
  | zero => exact .of_eq_zero rfl
  | succ depth ih => exact ranked_tracks ih .loosest

theorem expression_tracks : Tracks n 1 10 expression Parser.expression :=
  .remaining fun fuel => (expressionWithin_tracks (fuel + 1)).within (by omega)

end Expressions

end Walk

end Boli
