import Boli.Proofs.RewrittenTrees
import Boli.Proofs.WellFormedness

/-!
# The words of a tree derive it

Tokens that are the words of a well-formed tree derive a tree that differs from it in lines at most.
An operand in parentheses is a group, and any other one is as tight as its place asks for, so the
derivation follows the tree node by node.
-/

namespace Boli

open Grammar

namespace Token

theorem kind_of_word {t : Token} {w : Word} (h : t.word = w) : t.kind = w.kind := by
  rw [← h]
  rfl

theorem value_of_word {t : Token} {w : Word} (h : t.word = w) : t.value = w.value := by
  rw [← h]
  rfl

/-- The token of the last word is the last one. -/
theorem map_eq_concat {ts : List Token} {ws : List Word} {w : Word}
    (h : ts.map Token.word = ws ++ [w]) :
    ∃ us u, ts = us ++ [u] ∧ us.map Token.word = ws ∧ u.word = w := by
  obtain ⟨us, vs, rfl, hus, hvs⟩ := List.map_eq_append_iff.1 h
  obtain ⟨u, us', rfl, hu, hnil⟩ := List.map_eq_cons_iff.1 hvs
  obtain rfl := List.map_eq_nil_iff.1 hnil
  exact ⟨us, u, rfl, hus, hu⟩

theorem map_eq_singleton {ts : List Token} {w : Word} (h : ts.map Token.word = [w]) :
    ∃ t, ts = [t] ∧ t.word = w := by
  obtain ⟨t, us, rfl, ht, hnil⟩ := List.map_eq_cons_iff.1 h
  obtain rfl := List.map_eq_nil_iff.1 hnil
  exact ⟨t, rfl, ht⟩

end Token

/-- The word of an operator is read as the operator. -/
theorem mem_operators_of_binaries {op : Op} (h : op ∈ Op.binaries) :
    (op.word.kind, op) ∈ op.level.operators := by
  have hall : ∀ op ∈ Op.binaries, (op.word.kind, op) ∈ op.level.operators := by decide
  exact hall op h

theorem mem_signs_of_proper {op : Op} (h : op = .sub ∨ op = .not) : (op.word.kind, op) ∈ signs := by
  rcases h with rfl | rfl <;> decide

theorem mem_builtins_of_name (b : Builtin) : (Lexeme.wordKind b.name.toList, b) ∈ builtins := by
  cases b <;> decide

/-! ## Expressions -/

/-- Tokens that are the words of the expression derive it up to lines. -/
def Expr.Rereads (e : Expr) : Prop :=
  ∀ ts : List Token, ts.map Token.word = e.words →
    ∃ e', Derives (.expr e.rank e') ts ∧ e'.Relined e

/-- An operand is derived in its place, with parentheses where they are written. -/
theorem Expr.Rereads.enclosed {e : Expr} (h : e.Rereads) {place : Rank} {ts : List Token}
    (hts : ts.map Token.word = Expr.enclose place e.rank e.words) :
    ∃ e', Derives (.expr place e') ts ∧ e'.Relined e := by
  rw [Expr.enclose] at hts
  split at hts
  · next hle =>
    obtain ⟨e', hd, heq⟩ := h ts hts
    exact ⟨e', hd.loosen hle, heq⟩
  · obtain ⟨t, us, rfl, ht, hus⟩ := List.map_eq_cons_iff.1 hts
    obtain ⟨vs, u, rfl, hvs, hu⟩ := Token.map_eq_concat hus
    obtain ⟨e', hd, heq⟩ := h vs hvs
    have hgroup := Derives.group (Token.kind_of_word ht) (hd.loosen (Nat.zero_le _))
      (Token.kind_of_word hu)
    refine ⟨e', hgroup.loosen ?_, heq⟩
    cases place with
    | binary level => cases level <;> decide
    | _ => decide

/-- A whole expression needs no parentheses. -/
theorem Expr.Rereads.whole {e : Expr} (h : e.Rereads) {ts : List Token}
    (hts : ts.map Token.word = e.words) :
    ∃ e', Derives (.expr .loosest e') ts ∧ e'.Relined e := by
  obtain ⟨e', hd, heq⟩ := h ts hts
  exact ⟨e', hd.loosen (Nat.zero_le _), heq⟩

/-- Expressions between commas, one at least. -/
theorem exprs_of_words {es : List Expr} (h : ∀ e ∈ es, e.Rereads) (hne : es ≠ []) {ts : List Token}
    (hts : ts.map Token.word = Expr.wordsAll es) :
    ∃ es', Derives (.exprs es') ts ∧ List.Forall₂ Expr.Relined es' es := by
  induction es generalizing ts with
  | nil => exact absurd rfl hne
  | cons e es ih =>
    cases es with
    | nil =>
      obtain ⟨e', hd, heq⟩ := (h e (.head _)).whole hts
      exact ⟨[e'], .one hd, .cons heq .nil⟩
    | cons f fs =>
      rw [Expr.wordsAll] at hts
      · obtain ⟨us, vs, rfl, hus, hvs⟩ := List.map_eq_append_iff.1 hts
        obtain ⟨t, ws, rfl, ht, hws⟩ := List.map_eq_cons_iff.1 hvs
        obtain ⟨e', hd, heq⟩ := (h e (.head _)).whole hus
        obtain ⟨fs', hds, heqs⟩ := ih (fun c hc => h c (.tail _ hc)) nofun hws
        exact ⟨e' :: fs', .more hd (Token.kind_of_word ht) hds, .cons heq heqs⟩
      · simp

/-- There may be no expressions at all. -/
theorem items_of_words {es : List Expr} (h : ∀ e ∈ es, e.Rereads) {ts : List Token}
    (hts : ts.map Token.word = Expr.wordsAll es) :
    ∃ es', Derives (.items es') ts ∧ List.Forall₂ Expr.Relined es' es := by
  cases es with
  | nil =>
    obtain rfl := List.map_eq_nil_iff.1 hts
    exact ⟨[], .nothing, .nil⟩
  | cons e es =>
    obtain ⟨es', hd, heq⟩ := exprs_of_words h (List.cons_ne_nil e es) hts
    exact ⟨es', .something hd, heq⟩

/-- A constant is spelled by the text that it was read from. -/
theorem literal_rereads {line : Line} {v : Value} {raw : String} (h : v.IsSpelled raw) :
    (Expr.literal line v raw).Rereads := by
  intro ts hts
  rw [Expr.words] at hts
  obtain ⟨t, rfl, ht⟩ := Token.map_eq_singleton hts
  have hkind := Token.kind_of_word ht
  have hvalue := Token.value_of_word ht
  cases v with
  | number x =>
    have hx : Numeral.ofLexeme? t.value = some x := by rw [hvalue]; exact h.2
    exact ⟨_, .number hkind hx, .literal hvalue⟩
  | text s =>
    obtain rfl : s = raw := h
    refine ⟨_, .text hkind, ?_⟩
    rw [hvalue]
    exact .literal rfl
  | boolean b =>
    have hmem : (t.kind, Value.boolean b) ∈ constants := by
      rw [hkind]
      show (Lexeme.wordKind raw.toList, _) ∈ constants
      rw [wordKind_of_ofWord? h]
      cases b <;> simp [constants]
    exact ⟨_, .constant hmem, .literal hvalue⟩
  | null =>
    have hmem : (t.kind, Value.null) ∈ constants := by
      rw [hkind]
      show (Lexeme.wordKind raw.toList, _) ∈ constants
      rw [wordKind_of_ofWord? h]
      simp [constants]
    exact ⟨_, .constant hmem, .literal hvalue⟩
  | list | function | foreign => exact h.elim

/-- What is called is a name or a function of the language, and each is read as what it is. -/
theorem call_rereads {line : Line} {callee : Ident} {args : List Expr}
    (h : IsName callee.name ∨ ∃ b : Builtin, callee.name = b.name) (hargs : ∀ e ∈ args, e.Rereads) :
    (Expr.call line callee args).Rereads := by
  intro ts hts
  rw [Expr.words] at hts
  obtain ⟨t, us, rfl, ht, hus⟩ := List.map_eq_cons_iff.1 hts
  obtain ⟨o, vs, rfl, ho, hvs⟩ := List.map_eq_cons_iff.1 hus
  obtain ⟨ws, u, rfl, hws, hu⟩ := Token.map_eq_concat hvs
  obtain ⟨args', hd, heq⟩ := items_of_words hargs hws
  have hkind : t.kind = Lexeme.wordKind callee.name.toList := Token.kind_of_word ht
  have hvalue : t.value = callee.name := Token.value_of_word ht
  rcases h with hname | ⟨b, hb⟩
  · rw [wordKind_of_isName hname] at hkind
    exact ⟨_, .call hkind (Token.kind_of_word ho) hd (Token.kind_of_word hu), .call hvalue heq⟩
  · have hmem : (t.kind, b) ∈ builtins := by
      rw [hkind, hb]
      exact mem_builtins_of_name b
    exact ⟨_, .builtin hmem (Token.kind_of_word ho) hd (Token.kind_of_word hu), .call hb.symm heq⟩

/-- Every expression of a well-formed tree is derived by its words. -/
theorem rereads_of_proper {e : Expr} (h : e.Everywhere Expr.Proper) : e.Rereads := by
  induction h with
  | @intro e here _ ih =>
    cases e with
    | literal line v raw => exact literal_rereads here
    | name line id =>
      intro ts hts
      rw [Expr.words] at hts
      obtain ⟨t, rfl, ht⟩ := Token.map_eq_singleton hts
      have hkind : t.kind = .identifier := (Token.kind_of_word ht).trans (wordKind_of_isName here)
      exact ⟨_, .name hkind, .name (Token.value_of_word ht)⟩
    | binary line op l r =>
      intro ts hts
      rw [Expr.words] at hts
      obtain ⟨ls, us, rfl, hls, hus⟩ := List.map_eq_append_iff.1 hts
      obtain ⟨t, rs, rfl, ht, hrs⟩ := List.map_eq_cons_iff.1 hus
      obtain ⟨l', hl, heql⟩ := (ih l (.head _)).enclosed hls
      obtain ⟨r', hr, heqr⟩ := (ih r (.tail _ (.head _))).enclosed hrs
      have hop : (t.kind, op) ∈ op.level.operators := by
        rw [Token.kind_of_word ht]
        exact mem_operators_of_binaries here
      exact ⟨_, .binary hl hop hr, .binary heql heqr⟩
    | unary line op a =>
      intro ts hts
      rw [Expr.words] at hts
      obtain ⟨t, us, rfl, ht, hus⟩ := List.map_eq_cons_iff.1 hts
      obtain ⟨a', ha, heq⟩ := (ih a (.head _)).enclosed hus
      have hop : (t.kind, op) ∈ signs := by
        rw [Token.kind_of_word ht]
        exact mem_signs_of_proper here
      exact ⟨_, .signed hop ha, .unary heq⟩
    | call line callee args => exact call_rereads here ih
    | index line e i =>
      intro ts hts
      rw [Expr.words] at hts
      obtain ⟨us, vs, rfl, hus, hvs⟩ := List.map_eq_append_iff.1 hts
      obtain ⟨t, ws, rfl, ht, hws⟩ := List.map_eq_cons_iff.1 hvs
      obtain ⟨is, u, rfl, his, hu⟩ := Token.map_eq_concat hws
      obtain ⟨e', he, heqe⟩ := (ih e (.head _)).enclosed hus
      obtain ⟨i', hi, heqi⟩ := (ih i (.tail _ (.head _))).whole his
      exact ⟨_, .index he (Token.kind_of_word ht) hi (Token.kind_of_word hu), .index heqe heqi⟩
    | property line e n =>
      intro ts hts
      rw [Expr.words] at hts
      obtain ⟨us, vs, rfl, hus, hvs⟩ := List.map_eq_append_iff.1 hts
      obtain ⟨t, ws, rfl, ht, hws⟩ := List.map_eq_cons_iff.1 hvs
      obtain ⟨m, rfl, hm⟩ := Token.map_eq_singleton hws
      obtain ⟨e', he, heq⟩ := (ih e (.head _)).enclosed hus
      have hkind : m.kind = .identifier := (Token.kind_of_word hm).trans (wordKind_of_isName here)
      exact ⟨_, .property he (Token.kind_of_word ht) hkind, .property heq (Token.value_of_word hm)⟩
    | list line es =>
      intro ts hts
      rw [Expr.words] at hts
      obtain ⟨t, us, rfl, ht, hus⟩ := List.map_eq_cons_iff.1 hts
      obtain ⟨vs, u, rfl, hvs, hu⟩ := Token.map_eq_concat hus
      obtain ⟨es', hd, heq⟩ := items_of_words ih hvs
      exact ⟨_, .list (Token.kind_of_word ht) hd (Token.kind_of_word hu), .list heq⟩
    | misplaced => exact here.elim

/-! ## What a statement starts with -/

/-- What an expression starts with does not depend on lines. -/
theorem unlined_leading (e : Expr) : (leading e).unlined = leading e.unlined := by
  fun_induction leading e with
  | case1 line op l r ih => exact ih
  | case2 line e i ih => exact ih
  | case3 line e n ih => exact ih
  | case4 e hbinary hindex hproperty =>
    cases e with
    | binary => exact absurd rfl (hbinary _ _ _ _)
    | index => exact absurd rfl (hindex _ _ _)
    | property => exact absurd rfl (hproperty _ _ _)
    | _ => rfl

/-- Whether an expression may stand for its effects does not depend on lines. -/
theorem opens_of_relined {k : Kind} {e e' : Expr} (h : Opens k e) (heq : e'.Relined e) :
    Opens k e' := by
  refine ⟨h.1, fun line callee args hk hleading => ?_⟩
  have hcall : (leading e).unlined = (Expr.call line callee args).unlined := by
    rw [unlined_leading, ← heq, ← unlined_leading, hleading]
  cases hlead : leading e with
  | call line' callee' args' =>
    rw [hlead] at hcall
    have hargs := congrArg List.length (Expr.call.inj hcall).2.2
    rw [Expr.rewrittenAll_eq_map, Expr.rewrittenAll_eq_map, List.length_map, List.length_map]
      at hargs
    rw [← hargs]
    exact h.2 line' callee' args' hk hlead
  | _ =>
    rw [hlead] at hcall
    cases hcall

/-- A statement that starts with the keyword of a choice is one. -/
theorem choice_of_stmt {s : Stmt} {t : Token} {ts : List Token} (h : Builds (.stmt s) (t :: ts))
    (ht : t.kind = .keyword .when) : Builds (.choice t s) ts := by
  cases h with
  | branch _ hchoice => exact hchoice
  | block hb =>
    cases hb with
    | braces hopen =>
      rw [ht] at hopen
      cases hopen
  | expression _ hopens _ =>
    rw [ht] at hopens
    rcases hopens.1 with heq | ⟨b, hb⟩
    · cases heq
    · obtain ⟨word, heq, hword⟩ := mem_builtins.1 hb
      cases heq
      cases hword
  | declare hk | declareAs hk | assign hk | print hk | loop hk | function hk | functionOf hk
  | giveBack hk | giveBackOf hk | stop hk | skip hk =>
    rw [ht] at hk
    cases hk

/-- A statement that starts with a brace is a block. -/
theorem block_of_stmt {s : Stmt} {t : Token} {ts : List Token} (h : Builds (.stmt s) (t :: ts))
    (ht : t.kind = .symbol .openBrace) : ∃ b, s = .block b ∧ Builds (.block b) (t :: ts) := by
  cases h with
  | block hb => exact ⟨_, rfl, hb⟩
  | expression _ hopens _ =>
    rw [ht] at hopens
    rcases hopens.1 with heq | ⟨b, hb⟩
    · cases heq
    · obtain ⟨word, heq, _⟩ := mem_builtins.1 hb
      cases heq
  | declare hk | declareAs hk | assign hk | print hk | branch hk | loop hk | function hk
  | functionOf hk | giveBack hk | giveBackOf hk | stop hk | skip hk =>
    rw [ht] at hk
    cases hk

/-! ## Statements -/

/-- Tokens that are the words of the statement derive it up to lines. -/
def Stmt.Rereads (s : Stmt) : Prop :=
  ∀ ts : List Token, ts.map Token.word = s.words →
    ∃ s', Builds (.stmt s') ts ∧ s'.Relined s

/-- The words of statements are split where one ends and the next one starts. -/
theorem stmts_of_words {ss : List Stmt} (h : ∀ s ∈ ss, s.Rereads) {ts : List Token}
    (hts : ts.map Token.word = Stmt.wordsAll ss) :
    ∃ ss', Builds (.stmts ss') ts ∧ List.Forall₂ Stmt.Relined ss' ss := by
  induction ss generalizing ts with
  | nil =>
    obtain rfl := List.map_eq_nil_iff.1 hts
    exact ⟨[], .none, .nil⟩
  | cons s ss ih =>
    rw [Stmt.wordsAll] at hts
    obtain ⟨us, vs, rfl, hus, hvs⟩ := List.map_eq_append_iff.1 hts
    obtain ⟨s', hs, heq⟩ := h s (.head _) us hus
    obtain ⟨ss', hss, heqs⟩ := ih (fun c hc => h c (.tail _ hc)) hvs
    exact ⟨s' :: ss', .more hs hss, .cons heq heqs⟩

/-- A block lies between its braces. -/
theorem block_of_words {b : Block} (h : ∀ s ∈ b.statements, s.Rereads) {ts : List Token}
    (hts : ts.map Token.word = b.words) :
    ∃ b', Builds (.block b') ts ∧ b'.Relined b := by
  obtain ⟨line, ss⟩ := b
  rw [Block.words] at hts
  obtain ⟨t, us, rfl, ht, hus⟩ := List.map_eq_cons_iff.1 hts
  obtain ⟨vs, u, rfl, hvs, hu⟩ := Token.map_eq_concat hus
  obtain ⟨ss', hss, heq⟩ := stmts_of_words h hvs
  exact ⟨_, .braces (Token.kind_of_word ht) hss (Token.kind_of_word hu), Block.relined_mk heq⟩

/-- Names stand between commas. -/
theorem names_of_words {ns : List String} (h : ∀ n ∈ ns, IsName n) (hne : ns ≠ []) {ts : List Token}
    (hts : ts.map Token.word = Word.names ns) : Names ns ts := by
  induction ns generalizing ts with
  | nil => exact absurd rfl hne
  | cons n ns ih =>
    have hname {t : Token} (ht : t.word = .spelled n) : t.kind = .identifier ∧ t.value = n :=
      ⟨(Token.kind_of_word ht).trans (wordKind_of_isName (h n (.head _))), Token.value_of_word ht⟩
    cases ns with
    | nil =>
      obtain ⟨t, rfl, ht⟩ := Token.map_eq_singleton hts
      obtain ⟨hkind, rfl⟩ := hname ht
      exact .one hkind
    | cons m ms =>
      obtain ⟨t, us, rfl, ht, hus⟩ := List.map_eq_cons_iff.1 hts
      obtain ⟨u, vs, rfl, hu, hvs⟩ := List.map_eq_cons_iff.1 hus
      obtain ⟨hkind, rfl⟩ := hname ht
      exact .more hkind (Token.kind_of_word hu) (ih (fun c hc => h c (.tail _ hc)) nofun hvs)

/-- An expression in front of its semicolon. -/
theorem value_of_words {e : Expr} (he : e.Everywhere Expr.Proper) {ts : List Token}
    (hts : ts.map Token.word = e.words ++ [.symbol .semicolon]) :
    ∃ us u e', ts = us ++ [u] ∧ us.map Token.word = e.words ∧ u.kind = .symbol .semicolon ∧
      Derives (.expr .loosest e') us ∧ e'.Relined e := by
  obtain ⟨us, u, rfl, hus, hu⟩ := Token.map_eq_concat hts
  obtain ⟨e', hd, heq⟩ := (rereads_of_proper he).whole hus
  exact ⟨us, u, e', rfl, hus, Token.kind_of_word hu, hd, heq⟩

/-- A condition in its parentheses, and what follows it. -/
theorem condition_of_words {e : Expr} (he : e.Everywhere Expr.Proper) {ts : List Token}
    {ws : List Word}
    (hts : ts.map Token.word = .symbol .openParen :: (e.words ++ .symbol .closeParen :: ws)) :
    ∃ o us u vs e', ts = o :: (us ++ u :: vs) ∧ o.kind = .symbol .openParen ∧
      Derives (.expr .loosest e') us ∧ u.kind = .symbol .closeParen ∧ e'.Relined e ∧
      vs.map Token.word = ws := by
  obtain ⟨o, us, rfl, ho, hus⟩ := List.map_eq_cons_iff.1 hts
  obtain ⟨vs, xs, rfl, hvs, hxs⟩ := List.map_eq_append_iff.1 hus
  obtain ⟨u, ys, rfl, hu, hys⟩ := List.map_eq_cons_iff.1 hxs
  obtain ⟨e', hd, heq⟩ := (rereads_of_proper he).whole hvs
  exact ⟨o, vs, u, ys, e', rfl, Token.kind_of_word ho, hd, Token.kind_of_word hu, heq, hys⟩

/-- A block that is written as a statement. -/
theorem block_of_rereads {b : Block} (h : (Stmt.block b).Rereads) {ts : List Token}
    (hts : ts.map Token.word = b.words) :
    ∃ b', Builds (.block b') ts ∧ b'.Relined b := by
  obtain ⟨s', hs, heq⟩ := h ts (by rw [hts, Stmt.words])
  obtain ⟨line, ss⟩ := b
  rw [Block.words] at hts
  obtain ⟨t, us, rfl, ht, _⟩ := List.map_eq_cons_iff.1 hts
  obtain ⟨b', rfl, hb⟩ := block_of_stmt hs (Token.kind_of_word ht)
  exact ⟨b', hb, Stmt.block.inj heq⟩

/-- The words of a choice, where its block is written as one. -/
theorem words_branch (line : Line) (e : Expr) (b : Block) (alternate : Option Stmt) :
    (Stmt.branch line e (.block b) alternate).words =
      .keyword .when :: .symbol .openParen :: (e.words ++ .symbol .closeParen :: (b.words ++
        match alternate with
        | none => []
        | some a => .keyword .otherwise :: a.words)) := by
  cases alternate <;> rfl

/-- The other side of a choice is a block or another choice. -/
theorem branch_rereads {line : Line} {e : Expr} {s : Stmt} {alternate : Option Stmt}
    (here : (Stmt.branch line e s alternate).Proper) (he : e.Everywhere Expr.Proper)
    (hs : s.Rereads) (halternate : ∀ a, alternate = some a → a.Rereads) :
    (Stmt.branch line e s alternate).Rereads := by
  intro ts hts
  obtain ⟨⟨b, rfl⟩, hshape⟩ := here
  rw [words_branch] at hts
  obtain ⟨t, us, rfl, ht, hus⟩ := List.map_eq_cons_iff.1 hts
  obtain ⟨o, vs, u, ws, e', rfl, ho, hd, hu, heqe, hws⟩ := condition_of_words he hus
  obtain ⟨bs, as, rfl, hbs, has⟩ := List.map_eq_append_iff.1 hws
  obtain ⟨b', hb, heqb⟩ := block_of_rereads hs hbs
  have hguarded := Builds.guard ho hd hu hb
  cases alternate with
  | none =>
    obtain rfl := List.map_eq_nil_iff.1 has
    have hbuilds := Builds.branch (Token.kind_of_word ht) (.alone hguarded)
    exact ⟨_, by simpa using hbuilds, .branch heqe (.block heqb) .none⟩
  | some a =>
    obtain ⟨x, xs, rfl, hx, hxs⟩ := List.map_eq_cons_iff.1 has
    have hotherwise : x.kind = .keyword .otherwise := Token.kind_of_word hx
    rcases hshape a rfl with ⟨b₂, rfl⟩ | ⟨line₂, e₂, s₂, a₂, rfl⟩
    · rw [Stmt.words] at hxs
      obtain ⟨b₂', hb₂, heqb₂⟩ := block_of_rereads (halternate _ rfl) hxs
      have hbuilds := Builds.branch (Token.kind_of_word ht)
        (.otherwiseBlock hguarded hotherwise hb₂)
      exact ⟨_, by simpa using hbuilds, .branch heqe (.block heqb) (.some (.block heqb₂))⟩
    · obtain ⟨s₂', hs₂, heqs₂⟩ := halternate _ rfl xs hxs
      obtain ⟨w, ys, rfl, hw⟩ : ∃ w ys, xs = w :: ys ∧ w.word = .keyword .when := by
        cases a₂ with
        | none | some _ =>
          obtain ⟨w, ys, rfl, hw, _⟩ := List.map_eq_cons_iff.1 hxs
          exact ⟨w, ys, rfl, hw⟩
      have hwhen : w.kind = .keyword .when := Token.kind_of_word hw
      have hbuilds := Builds.branch (Token.kind_of_word ht)
        (.otherwiseBranch hguarded hotherwise hwhen (choice_of_stmt hs₂ hwhen))
      exact ⟨_, by simpa using hbuilds, .branch heqe (.block heqb) (.some heqs₂)⟩

/-- A function has names for its parameters, and no name twice. -/
theorem function_rereads {line : Line} {n : String} {ps : List String} {b : Block}
    (here : (Stmt.function line n ps b).Proper) (h : ∀ s ∈ b.statements, s.Rereads) :
    (Stmt.function line n ps b).Rereads := by
  intro ts hts
  obtain ⟨hn, hps, hnodup⟩ := here
  rw [Stmt.words] at hts
  obtain ⟨t, us, rfl, ht, hus⟩ := List.map_eq_cons_iff.1 hts
  obtain ⟨m, vs, rfl, hm, hvs⟩ := List.map_eq_cons_iff.1 hus
  obtain ⟨o, ws, rfl, ho, hws⟩ := List.map_eq_cons_iff.1 hvs
  obtain ⟨xs, ys, rfl, hxs, hys⟩ := List.map_eq_append_iff.1 hws
  obtain ⟨u, zs, rfl, hu, hzs⟩ := List.map_eq_cons_iff.1 hys
  obtain ⟨b', hb, heq⟩ := block_of_words h hzs
  have hkind : m.kind = .identifier := (Token.kind_of_word hm).trans (wordKind_of_isName hn)
  have hvalue : m.value = n := Token.value_of_word hm
  by_cases hnil : ps = []
  · subst hnil
    obtain rfl := List.map_eq_nil_iff.1 hxs
    exact ⟨_, .function (Token.kind_of_word ht) hkind (Token.kind_of_word ho)
      (Token.kind_of_word hu) hb, .function hvalue heq⟩
  · exact ⟨_, .functionOf (Token.kind_of_word ht) hkind (Token.kind_of_word ho)
      (names_of_words hps hnil hxs) hnodup (Token.kind_of_word hu) hb, .function hvalue heq⟩

/-- A statement of one keyword is derived by it and its semicolon. -/
theorem bare_rereads {word : Keyword} {make : Line → Stmt} {line : Line}
    (hwords : (make line).words = [.keyword word, .symbol .semicolon])
    (hrelined : ∀ line', (make line').Relined (make line))
    (hbuilds : ∀ {t u : Token}, t.kind = .keyword word → u.kind = .symbol .semicolon →
      Builds (.stmt (make (some t.line))) [t, u]) : (make line).Rereads := by
  intro ts hts
  rw [hwords] at hts
  obtain ⟨t, us, rfl, ht, hus⟩ := List.map_eq_cons_iff.1 hts
  obtain ⟨u, rfl, hu⟩ := Token.map_eq_singleton hus
  exact ⟨_, hbuilds (Token.kind_of_word ht) (Token.kind_of_word hu), hrelined _⟩

theorem declare_rereads {line : Line} {n : String} {initial : Option Expr} (hn : IsName n)
    (he : ∀ e ∈ initial, e.Everywhere Expr.Proper) : (Stmt.declare line n initial).Rereads := by
  intro ts hts
  have hname {m : Token} (hm : m.word = .spelled n) : m.kind = .identifier :=
    (Token.kind_of_word hm).trans (wordKind_of_isName hn)
  cases initial with
  | none =>
    obtain ⟨t, us, rfl, ht, hus⟩ := List.map_eq_cons_iff.1 hts
    obtain ⟨m, vs, rfl, hm, hvs⟩ := List.map_eq_cons_iff.1 hus
    obtain ⟨u, rfl, hu⟩ := Token.map_eq_singleton hvs
    exact ⟨_, .declare (Token.kind_of_word ht) (hname hm) (Token.kind_of_word hu),
      .declare (Token.value_of_word hm) .none⟩
  | some e =>
    obtain ⟨t, us, rfl, ht, hus⟩ := List.map_eq_cons_iff.1 hts
    obtain ⟨m, vs, rfl, hm, hvs⟩ := List.map_eq_cons_iff.1 hus
    obtain ⟨a, ws, rfl, ha, hws⟩ := List.map_eq_cons_iff.1 hvs
    obtain ⟨xs, u, e', rfl, _, hu, hd, heq⟩ := value_of_words (he e rfl) hws
    exact ⟨_, .declareAs (Token.kind_of_word ht) (hname hm) (Token.kind_of_word ha) hd hu,
      .declare (Token.value_of_word hm) (.some heq)⟩

theorem giveBack_rereads {line : Line} {value : Option Expr}
    (he : ∀ e ∈ value, e.Everywhere Expr.Proper) : (Stmt.giveBack line value).Rereads := by
  intro ts hts
  cases value with
  | none =>
    obtain ⟨t, us, rfl, ht, hus⟩ := List.map_eq_cons_iff.1 hts
    obtain ⟨u, rfl, hu⟩ := Token.map_eq_singleton hus
    exact ⟨_, .giveBack (Token.kind_of_word ht) (Token.kind_of_word hu), rfl⟩
  | some e =>
    obtain ⟨t, us, rfl, ht, hus⟩ := List.map_eq_cons_iff.1 hts
    obtain ⟨xs, u, e', rfl, _, hu, hd, heq⟩ := value_of_words (he e rfl) hus
    exact ⟨_, .giveBackOf (Token.kind_of_word ht) hd hu, .giveBack (.some heq)⟩

/-- Every statement of a well-formed tree is derived by its words. -/
theorem stmt_rereads_of_proper {s : Stmt} (h : s.Everywhere Expr.Proper Stmt.Proper) :
    s.Rereads := by
  induction h with
  | @intro s here exprs _ ih =>
    cases s with
    | declare line n initial =>
      exact declare_rereads here fun e he => exprs e (Option.mem_toList.2 he)
    | assign line n e =>
      intro ts hts
      rw [Stmt.words] at hts
      obtain ⟨m, us, rfl, hm, hus⟩ := List.map_eq_cons_iff.1 hts
      obtain ⟨a, vs, rfl, ha, hvs⟩ := List.map_eq_cons_iff.1 hus
      obtain ⟨xs, u, e', rfl, _, hu, hd, heq⟩ := value_of_words (exprs e (.head _)) hvs
      have hkind : m.kind = .identifier := (Token.kind_of_word hm).trans (wordKind_of_isName here)
      exact ⟨_, .assign hkind (Token.kind_of_word ha) hd hu, .assign (Token.value_of_word hm) heq⟩
    | print line es =>
      intro ts hts
      rw [Stmt.words] at hts
      obtain ⟨t, us, rfl, ht, hus⟩ := List.map_eq_cons_iff.1 hts
      obtain ⟨xs, u, rfl, hxs, hu⟩ := Token.map_eq_concat hus
      have hrereads : ∀ e ∈ es, e.Rereads := fun e he => rereads_of_proper (exprs e he)
      obtain ⟨es', hd, heq⟩ := exprs_of_words hrereads here hxs
      exact ⟨_, .print (Token.kind_of_word ht) hd (Token.kind_of_word hu), .print heq⟩
    | block b =>
      intro ts hts
      rw [Stmt.words] at hts
      obtain ⟨b', hb, heq⟩ := block_of_words ih hts
      exact ⟨_, .block hb, .block heq⟩
    | branch line e s alternate =>
      exact branch_rereads here (exprs e (.head _)) (ih s (.head _)) fun a ha =>
        ih a (.tail _ (Option.mem_toList.2 ha))
    | loop line e b =>
      intro ts hts
      rw [Stmt.words] at hts
      obtain ⟨t, us, rfl, ht, hus⟩ := List.map_eq_cons_iff.1 hts
      obtain ⟨o, vs, u, ws, e', rfl, ho, hd, hu, heqe, hws⟩ :=
        condition_of_words (exprs e (.head _)) hus
      obtain ⟨b', hb, heqb⟩ := block_of_words ih hws
      exact ⟨_, .loop (Token.kind_of_word ht) (.guard ho hd hu hb), .loop heqe heqb⟩
    | function line n ps b => exact function_rereads here ih
    | giveBack line value => exact giveBack_rereads fun e he => exprs e (Option.mem_toList.2 he)
    | stop line => exact bare_rereads (by rw [Stmt.words]) (fun _ => rfl) .stop
    | skip line => exact bare_rereads (by rw [Stmt.words]) (fun _ => rfl) .skip
    | expression line e =>
      intro ts hts
      obtain ⟨w, ws, hwords, hopens⟩ := here
      rw [Stmt.words] at hts
      obtain ⟨us, u, e', rfl, hus, hu, hd, heq⟩ := value_of_words (exprs e (.head _)) hts
      obtain ⟨t, vs, rfl, ht, _⟩ := List.map_eq_cons_iff.1 (hus.trans hwords)
      rw [← Token.kind_of_word ht] at hopens
      exact ⟨_, .expression hd (opens_of_relined hopens heq) hu, .expression heq⟩
    | misplaced => exact here.elim

/-- Tokens that are the words of a well-formed program derive it up to lines. -/
theorem isProgram_of_words {p : Program} (h : p.WellFormed) {ts : List Token} {z : Token}
    (hts : ts.map Token.word = p.words) (hz : z.kind = .eof) :
    ∃ p', IsProgram p' (ts ++ [z]) ∧ p'.unlined = p.unlined := by
  obtain ⟨line, ss⟩ := p
  obtain ⟨t, us, rfl, ht, hus⟩ := List.map_eq_cons_iff.1 hts
  obtain ⟨u, vs, rfl, hu, hvs⟩ := List.map_eq_cons_iff.1 hus
  obtain ⟨xs, ys, rfl, hxs, hys⟩ := List.map_eq_append_iff.1 hvs
  obtain ⟨f, ws, rfl, hf, hws⟩ := List.map_eq_cons_iff.1 hys
  obtain ⟨w, rfl, hw⟩ := Token.map_eq_singleton hws
  have hrereads : ∀ s ∈ ss, s.Rereads := fun s hs => stmt_rereads_of_proper (h s hs)
  obtain ⟨ss', hss, heq⟩ := stmts_of_words hrereads hxs
  have hprogram := IsProgram.mk (Token.kind_of_word ht) (Token.kind_of_word hu) hss
    (Token.kind_of_word hf) (Token.kind_of_word hw) hz
  exact ⟨_, by simpa using hprogram, Block.relined_mk heq⟩

end Boli
