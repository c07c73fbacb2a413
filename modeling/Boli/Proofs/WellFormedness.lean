import Boli.Proofs.ProgramGrammar
import Boli.Proofs.Source

/-!
# Programs that are read are well formed

Where the tokens fit their kinds, as those of a text do, the grammar only derives well-formed trees.
The inductions are on derivations, with one property for each kind of phrase.

The one condition that is not about a single node is that on an expression that stands for its
effects.  A token that is no opening parenthesis is written first again, since then no operand in
front of the others was in parentheses (`words_of_derives`).
-/

namespace Boli

open Grammar

/-! ## Tokens -/

namespace Token

/-- An identifier of a text is a name. -/
theorem Fits.isName {t : Token} (h : t.Fits) (ht : t.kind = .identifier) : IsName t.value := by
  rw [Fits, ht] at h
  exact h

theorem Fits.isNumber {t : Token} (h : t.Fits) (ht : t.kind = .number) :
    Lexeme.isNumber t.value.toList := by
  rw [Fits, ht] at h
  exact h

/-- A keyword token is spelled by its keyword. -/
theorem Fits.ofWord? {t : Token} {word : Keyword} (h : t.Fits) (ht : t.kind = .keyword word) :
    Keyword.ofWord? t.value.toList = some word := by
  rw [Fits, ht] at h
  simp only [Kind.admits, Bool.and_eq_true, decide_eq_true_eq] at h
  exact h.2

end Token

theorem wordKind_of_isName {name : String} (h : IsName name) :
    Lexeme.wordKind name.toList = .identifier := by
  simp only [IsName, Kind.admits, Bool.and_eq_true, decide_eq_true_eq] at h
  rw [Lexeme.wordKind, h.2]

theorem wordKind_of_ofWord? {cs : List Char} {word : Keyword} (h : Keyword.ofWord? cs = some word) :
    Lexeme.wordKind cs = .keyword word := by
  rw [Lexeme.wordKind, h]

/-- A constant keyword spells its value. -/
theorem isSpelled_of_mem_constants {t : Token} {v : Value} (h : t.Fits)
    (hv : (t.kind, v) ∈ constants) : v.IsSpelled t.value := by
  simp only [constants, List.mem_cons, Prod.mk.injEq, List.not_mem_nil, or_false] at hv
  rcases hv with ⟨ht, rfl⟩ | ⟨ht, rfl⟩ | ⟨ht, rfl⟩ <;> exact h.ofWord? ht

/-- A token is an operator of one level only. -/
theorem level_of_mem_operators {level : Level} {k : Kind} {op : Op}
    (h : (k, op) ∈ level.operators) : op ∈ Op.binaries ∧ op.level = level := by
  have hall : ∀ p ∈ level.operators, p.2 ∈ Op.binaries ∧ p.2.level = level := by
    cases level <;> decide
  exact hall _ h

/-- A sign is written as the token that it was read from. -/
theorem op_of_mem_signs {k : Kind} {op : Op} (h : (k, op) ∈ signs) :
    (op = .sub ∨ op = .not) ∧ op.word.kind = k := by
  have hall : ∀ p ∈ signs, (p.2 = .sub ∨ p.2 = .not) ∧ p.2.word.kind = p.1 := by decide
  exact hall (k, op) h

/-- The name of a function of the language is written as its keyword. -/
theorem wordKind_of_mem_builtins {k : Kind} {b : Builtin} (h : (k, b) ∈ builtins) :
    Lexeme.wordKind b.name.toList = k := by
  have hall : ∀ p ∈ builtins, Lexeme.wordKind p.2.name.toList = p.1 := by decide
  exact hall (k, b) h

/-! ## Expressions -/

/-- What is known of the nodes of a phrase whose tokens fit their kinds. -/
def Grammar.Phrase.Proper : Phrase → Prop
  | .expr _ e => e.Everywhere Expr.Proper
  | .exprs es | .items es => ∀ e ∈ es, e.Everywhere Expr.Proper

theorem everywhere_binary {line : Line} {op : Op} {l r : Expr} (hop : op ∈ Op.binaries)
    (hl : l.Everywhere Expr.Proper) (hr : r.Everywhere Expr.Proper) :
    (Expr.binary line op l r).Everywhere Expr.Proper := by
  refine .intro hop fun c hc => ?_
  rcases List.mem_cons.1 hc with rfl | hc
  · exact hl
  · obtain rfl := List.mem_singleton.1 hc
    exact hr

theorem everywhere_unary {line : Line} {op : Op} {e : Expr} (hop : op = .sub ∨ op = .not)
    (he : e.Everywhere Expr.Proper) : (Expr.unary line op e).Everywhere Expr.Proper := by
  refine .intro hop fun c hc => ?_
  obtain rfl := List.mem_singleton.1 hc
  exact he

/-- Every node of a phrase is proper if the tokens fit their kinds. -/
theorem proper_of_derives {φ : Phrase} {ts : List Token} (h : Derives φ ts)
    (hfits : ∀ t ∈ ts, t.Fits) : φ.Proper := by
  induction h with
  | operand _ ih | unsigned _ ih | plain _ ih | something _ ih => exact ih hfits
  | binary _ hop _ ihl ihr =>
    exact everywhere_binary (level_of_mem_operators hop).1
      (ihl fun t ht => hfits t (List.mem_append_left _ ht))
      (ihr fun t ht => hfits t (List.mem_append_right _ (.tail _ ht)))
  | signed hop _ ih =>
    exact everywhere_unary (op_of_mem_signs hop).1 (ih fun t ht => hfits t (.tail _ ht))
  | index _ _ _ _ ihe ihi =>
    refine .intro trivial fun c hc => ?_
    rcases List.mem_cons.1 hc with rfl | hc
    · exact ihe fun t ht => hfits t (List.mem_append_left _ ht)
    · obtain rfl := List.mem_singleton.1 hc
      exact ihi fun t ht => hfits t (by simp [ht])
  | property _ _ hn ih =>
    refine .intro ((hfits _ (by simp)).isName hn) fun c hc => ?_
    obtain rfl := List.mem_singleton.1 hc
    exact ih fun t ht => hfits t (List.mem_append_left _ ht)
  | constant hv => exact .intro (isSpelled_of_mem_constants (hfits _ (.head _)) hv) nofun
  | number ht hx => exact .intro ⟨(hfits _ (.head _)).isNumber ht, hx⟩ nofun
  | text _ => exact .intro rfl nofun
  | name ht => exact .intro ((hfits _ (.head _)).isName ht) nofun
  | call ht _ _ _ ih =>
    exact .intro (.inl ((hfits _ (.head _)).isName ht)) (ih fun t ht => hfits t (by simp [ht]))
  | builtin _ _ _ _ ih => exact .intro (.inr ⟨_, rfl⟩) (ih fun t ht => hfits t (by simp [ht]))
  | list _ _ _ ih => exact .intro trivial (ih fun t ht => hfits t (by simp [ht]))
  | group _ _ _ ih => exact ih fun t ht => hfits t (by simp [ht])
  | one _ ih =>
    intro e he
    obtain rfl := List.mem_singleton.1 he
    exact ih hfits
  | more _ _ _ ih ihs =>
    intro e he
    rcases List.mem_cons.1 he with rfl | he
    · exact ih fun t ht => hfits t (List.mem_append_left _ ht)
    · exact ihs (fun t ht => hfits t (by simp [ht])) e he
  | nothing => exact fun e he => nomatch he

theorem tightness_operand (level : Level) :
    (Rank.binary level).tightness < level.operand.tightness := by
  cases level <;> decide

/-- What is known of the first word of a phrase whose first token is no opening parenthesis. -/
def Grammar.Phrase.FirstWord : Phrase → List Token → Prop
  | .expr rank e, ts => ∀ t us, ts = t :: us → t.kind ≠ .symbol .openParen → t.Fits →
    rank.tightness ≤ e.rank.tightness ∧ ∃ w ws, e.words = w :: ws ∧ w.kind = t.kind
  | .exprs _, _ | .items _, _ => True

/-- What stands first in a phrase is written first again. -/
theorem firstWord_of_derives {φ : Phrase} {ts : List Token} (h : Derives φ ts) :
    φ.FirstWord ts := by
  induction h with
  | operand _ ih =>
    intro t us hts hne hfits
    obtain ⟨hle, hwords⟩ := ih t us hts hne hfits
    exact ⟨Nat.le_trans (Nat.le_of_lt (tightness_operand _)) hle, hwords⟩
  | binary hl hop _ ih _ =>
    intro t us hts hne hfits
    obtain ⟨v, vs, rfl, _⟩ := (started_of_derives hl).expr
    cases hts
    obtain ⟨hle, w, ws, hwords, hw⟩ := ih t _ rfl hne hfits
    obtain ⟨_, rfl⟩ := level_of_mem_operators hop
    have henclose : Expr.enclose _ _ _ = w :: ws := (if_pos hle).trans hwords
    exact ⟨Nat.le_refl _, w, _, by rw [Expr.words, henclose, List.cons_append], hw⟩
  | unsigned _ ih =>
    intro t us hts hne hfits
    obtain ⟨hle, hwords⟩ := ih t us hts hne hfits
    exact ⟨Nat.le_trans (by decide) hle, hwords⟩
  | signed hop _ _ =>
    intro t us hts _ _
    cases hts
    exact ⟨Nat.le_refl _, _, _, by rw [Expr.words], (op_of_mem_signs hop).2⟩
  | plain _ ih =>
    intro t us hts hne hfits
    obtain ⟨hle, hwords⟩ := ih t us hts hne hfits
    exact ⟨Nat.le_trans (by decide) hle, hwords⟩
  | index he _ _ _ ih _ =>
    intro t us hts hne hfits
    obtain ⟨v, vs, rfl, _⟩ := (started_of_derives he).expr
    cases hts
    obtain ⟨hle, w, ws, hwords, hw⟩ := ih t _ rfl hne hfits
    have henclose : Expr.enclose _ _ _ = w :: ws := (if_pos hle).trans hwords
    exact ⟨Nat.le_refl _, w, _, by rw [Expr.words, henclose, List.cons_append], hw⟩
  | property he _ _ ih =>
    intro t us hts hne hfits
    obtain ⟨v, vs, rfl, _⟩ := (started_of_derives he).expr
    cases hts
    obtain ⟨hle, w, ws, hwords, hw⟩ := ih t _ rfl hne hfits
    have henclose : Expr.enclose _ _ _ = w :: ws := (if_pos hle).trans hwords
    exact ⟨Nat.le_refl _, w, _, by rw [Expr.words, henclose, List.cons_append], hw⟩
  | constant hv =>
    intro t us hts _ hfits
    cases hts
    refine ⟨Nat.le_refl _, _, _, by rw [Expr.words], ?_⟩
    have hspelled := isSpelled_of_mem_constants hfits hv
    simp only [constants, List.mem_cons, Prod.mk.injEq, List.not_mem_nil, or_false] at hv
    rcases hv with ⟨ht, rfl⟩ | ⟨ht, rfl⟩ | ⟨ht, rfl⟩ <;>
      exact (wordKind_of_ofWord? hspelled).trans ht.symm
  | number ht _ =>
    intro t us hts _ _
    cases hts
    exact ⟨Nat.le_refl _, _, _, by rw [Expr.words], ht.symm⟩
  | text ht =>
    intro t us hts _ _
    cases hts
    exact ⟨Nat.le_refl _, _, _, by rw [Expr.words], ht.symm⟩
  | name ht =>
    intro t us hts _ hfits
    cases hts
    exact ⟨Nat.le_refl _, _, _, by rw [Expr.words],
      (wordKind_of_isName (hfits.isName ht)).trans ht.symm⟩
  | call ht _ _ _ _ =>
    intro t us hts _ hfits
    cases hts
    exact ⟨Nat.le_refl _, _, _, by rw [Expr.words],
      (wordKind_of_isName (hfits.isName ht)).trans ht.symm⟩
  | builtin hb _ _ _ _ =>
    intro t us hts _ _
    cases hts
    exact ⟨Nat.le_refl _, _, _, by rw [Expr.words], wordKind_of_mem_builtins hb⟩
  | list ht _ _ _ =>
    intro t us hts _ _
    cases hts
    exact ⟨Nat.le_refl _, _, _, by rw [Expr.words], ht.symm⟩
  | group ht _ _ _ =>
    intro t us hts hne _
    cases hts
    exact absurd ht hne
  | one | more | nothing | something => trivial

/-- An expression that may stand for its effects may do so again when it is written. -/
theorem words_of_derives {rank : Rank} {e : Expr} {t : Token} {ts : List Token}
    (h : Derives (.expr rank e) (t :: ts)) (hfits : t.Fits) (hopens : Opens t.kind e) :
    ∃ w ws, e.words = w :: ws ∧ Opens w.kind e := by
  have hne : t.kind ≠ .symbol .openParen := by
    intro heq
    have hstarts := startsStatement_of_opens hopens
    rw [heq] at hstarts
    cases hstarts
  obtain ⟨_, w, ws, hwords, hw⟩ := firstWord_of_derives h t ts rfl hne hfits
  exact ⟨w, ws, hwords, hw ▸ hopens⟩

/-! ## Statements -/

/-- The parameters of a function are names. -/
theorem isName_of_names {ns : List String} {ps : List Token} (h : Names ns ps)
    (hfits : ∀ t ∈ ps, t.Fits) : ∀ n ∈ ns, IsName n := by
  induction h with
  | one ht =>
    intro n hn
    obtain rfl := List.mem_singleton.1 hn
    exact (hfits _ (.head _)).isName ht
  | more ht _ _ ih =>
    intro n hn
    rcases List.mem_cons.1 hn with rfl | hn
    · exact (hfits _ (.head _)).isName ht
    · exact ih (fun t ht => hfits t (by simp [ht])) n hn

/-- What is known of the nodes of a form whose tokens fit their kinds.  A choice is a branch with a
block on its first side. -/
def Grammar.Form.Proper : Form → Prop
  | .stmt s => s.Everywhere Expr.Proper Stmt.Proper
  | .stmts ss => ∀ s ∈ ss, s.Everywhere Expr.Proper Stmt.Proper
  | .block b => b.Everywhere Expr.Proper Stmt.Proper
  | .guarded e b => e.Everywhere Expr.Proper ∧ b.Everywhere Expr.Proper Stmt.Proper
  | .choice _ s => s.Everywhere Expr.Proper Stmt.Proper ∧ ∃ line e b a, s = .branch line e b a

/-- A choice has a block on its first side, and a block or a choice on the other. -/
theorem everywhere_branch {line : Line} {e : Expr} {b : Block} {alternate : Option Stmt}
    (he : e.Everywhere Expr.Proper) (hb : b.Everywhere Expr.Proper Stmt.Proper)
    (ha : ∀ a, alternate = some a → a.Everywhere Expr.Proper Stmt.Proper ∧
      ((∃ b, a = .block b) ∨ ∃ line e s' a', a = .branch line e s' a')) :
    (Stmt.branch line e (.block b) alternate).Everywhere Expr.Proper Stmt.Proper := by
  refine .intro ⟨⟨b, rfl⟩, fun a h => (ha a h).2⟩ (fun c hc => ?_) (fun c hc => ?_)
  · obtain rfl := List.mem_singleton.1 hc
    exact he
  · rcases List.mem_cons.1 hc with rfl | hc
    · exact .intro trivial nofun hb
    · exact (ha c (Option.mem_toList.1 hc)).1

/-- Every node of a form is proper if the tokens fit their kinds. -/
theorem proper_of_builds {φ : Form} {ts : List Token} (h : Builds φ ts)
    (hfits : ∀ t ∈ ts, t.Fits) : φ.Proper := by
  induction h with
  | declare _ hn _ => exact .intro ((hfits _ (by simp)).isName hn) nofun nofun
  | declareAs _ hn _ hd _ =>
    refine .intro ((hfits _ (by simp)).isName hn) (fun e he => ?_) nofun
    obtain rfl := List.mem_singleton.1 he
    exact proper_of_derives hd fun t ht => hfits t (by simp [ht])
  | assign hn _ hd _ =>
    refine .intro ((hfits _ (by simp)).isName hn) (fun e he => ?_) nofun
    obtain rfl := List.mem_singleton.1 he
    exact proper_of_derives hd fun t ht => hfits t (by simp [ht])
  | print _ hd _ =>
    refine .intro ?_ (proper_of_derives hd fun t ht => hfits t (by simp [ht])) nofun
    cases hd <;> exact List.cons_ne_nil _ _
  | branch _ _ ih => exact (ih fun t ht => hfits t (.tail _ ht)).1
  | loop _ _ ih =>
    obtain ⟨he, hb⟩ := ih fun t ht => hfits t (.tail _ ht)
    refine .intro trivial (fun e he' => ?_) hb
    obtain rfl := List.mem_singleton.1 he'
    exact he
  | function _ hn _ _ _ ih =>
    exact .intro ⟨(hfits _ (by simp)).isName hn, nofun, List.nodup_nil⟩ nofun
      (ih fun t ht => hfits t (by simp [ht]))
  | functionOf _ hn _ hns hnodup _ _ ih =>
    exact .intro ⟨(hfits _ (by simp)).isName hn,
      isName_of_names hns fun t ht => hfits t (by simp [ht]), hnodup⟩ nofun
      (ih fun t ht => hfits t (by simp [ht]))
  | giveBack _ _ | stop _ _ | skip _ _ => exact .intro trivial nofun nofun
  | giveBackOf _ hd _ =>
    refine .intro trivial (fun e he => ?_) nofun
    obtain rfl := List.mem_singleton.1 he
    exact proper_of_derives hd fun t ht => hfits t (by simp [ht])
  | block _ ih => exact .intro trivial nofun (ih hfits)
  | expression hd hopens _ =>
    refine .intro (words_of_derives hd (hfits _ (.head _)) hopens) (fun e he => ?_) nofun
    obtain rfl := List.mem_singleton.1 he
    exact proper_of_derives hd fun t ht => hfits t (List.mem_append_left [_] ht)
  | none => exact fun s hs => nomatch hs
  | more _ _ ih ihs =>
    intro s hs
    rcases List.mem_cons.1 hs with rfl | hs
    · exact ih fun t ht => hfits t (List.mem_append_left _ ht)
    · exact ihs (fun t ht => hfits t (List.mem_append_right _ ht)) s hs
  | braces _ _ _ ih => exact ih fun t ht => hfits t (by simp [ht])
  | guard _ hd _ _ ih =>
    exact ⟨proper_of_derives hd fun t ht => hfits t (by simp [ht]),
      ih fun t ht => hfits t (by simp [ht])⟩
  | alone _ ih =>
    obtain ⟨he, hb⟩ := ih hfits
    exact ⟨everywhere_branch he hb nofun, _, _, _, _, rfl⟩
  | otherwiseWhen _ _ _ ihg ihs =>
    obtain ⟨he, hb⟩ := ihg fun t ht => hfits t (List.mem_append_left _ ht)
    obtain ⟨hs, hbranch⟩ := ihs fun t ht => hfits t (by simp [ht])
    refine ⟨everywhere_branch he hb fun a ha => ?_, _, _, _, _, rfl⟩
    cases ha
    exact ⟨hs, .inr hbranch⟩
  | otherwiseBranch _ _ _ _ ihg ihs =>
    obtain ⟨he, hb⟩ := ihg fun t ht => hfits t (List.mem_append_left _ ht)
    obtain ⟨hs, hbranch⟩ := ihs fun t ht => hfits t (by simp [ht])
    refine ⟨everywhere_branch he hb fun a ha => ?_, _, _, _, _, rfl⟩
    cases ha
    exact ⟨hs, .inr hbranch⟩
  | otherwiseBlock _ _ _ ihg iha =>
    obtain ⟨he, hb⟩ := ihg fun t ht => hfits t (List.mem_append_left _ ht)
    have ha := iha fun t ht => hfits t (by simp [ht])
    refine ⟨everywhere_branch he hb fun a h => ?_, _, _, _, _, rfl⟩
    cases h
    exact ⟨.intro trivial nofun ha, .inl ⟨_, rfl⟩⟩

/-- A text is read by way of its tokens. -/
theorem ofText_eq_ok {text : String} {p : Program} :
    Program.ofText text = .ok p ↔
      ∃ tokens, Token.ofText text = .ok tokens ∧ Parser.program.ofTokens tokens = .ok p := by
  rw [Program.ofText, Parser.ofText]
  cases Token.ofText text with
  | error e => simp
  | ok tokens => simp

/-- A program that was read from a text is well formed. -/
theorem wellFormed_of_ofText {text : String} {p : Program} (h : Program.ofText text = .ok p) :
    p.WellFormed := by
  obtain ⟨tokens, htext, hp⟩ := ofText_eq_ok.1 h
  obtain ⟨vs, q, htokens, hfits⟩ := Token.fits_of_scan htext
  cases isProgram_of_ofTokens htext hp with
  | @mk ss ts t u f w z _ _ hb _ _ _ =>
    -- The tokens of the statements come before the mark of the end.
    have hcut : vs ++ [Token.endAt q] = (t :: u :: (ts ++ [f, w])) ++ [z] := by
      simpa using htokens.symm
    obtain rfl := (List.append_inj' hcut rfl).1
    exact proper_of_builds hb fun t ht => hfits t (by simp [ht])

end Boli
