import Boli.Proofs.LayoutIndependence

/-!
# The tokens of calls

A call has a token for its function: a name, or the keyword of a function of the language in some
letter case.  The tree keeps of it what the call is to be resolved by, which is the name as it
stands, or the one spelling of the function of the language.

The tree does not tell which token a call comes from, but the line of a node does, as soon as every
token is on a line of its own (`Token.numbered`).  The reading does not depend on the layout, so the
tree is the same up to lines (`exists_numbered`).
-/

namespace Boli

open Grammar

/-! ## Keywords in any letter case -/

/-- The word is the keyword, whatever the case of its letters. -/
def Keyword.IsSpelledBy (k : Keyword) (word : String) : Prop :=
  word.toList.map Char.toLower = k.spelling.toList.map Char.toLower

namespace Keyword

theorem ofWord?_spelling (k : Keyword) : ofWord? k.spelling.toList = some k := by
  cases k <;> decide

/-- A word is read as the keyword that it spells in any letter case. -/
theorem ofWord?_eq_some_iff {k : Keyword} {word : String} :
    ofWord? word.toList = some k ↔ k.IsSpelledBy word := by
  constructor
  · intro h
    have heq := List.find?_some h
    exact (beq_iff_eq.1 heq).symm
  · intro h
    have hspelling := k.ofWord?_spelling
    rw [ofWord?] at hspelling ⊢
    rw [← hspelling, show word.toList.map Char.toLower = _ from h]

end Keyword

/-- A name is no keyword in any letter case. -/
theorem IsName.not_isSpelledBy {name : String} (h : IsName name) (k : Keyword) :
    ¬k.IsSpelledBy name := by
  simp only [IsName, Kind.admits, Bool.and_eq_true, decide_eq_true_eq] at h
  rw [← Keyword.ofWord?_eq_some_iff, h.2]
  simp

namespace Builtin

/-- The keyword that calls a function of the language. -/
def keyword : Builtin → Keyword
  | input => .input
  | print => .print
  | list => .list
  | append => .append
  | length => .length

theorem name_eq_spelling (b : Builtin) : b.name = b.keyword.spelling := by
  cases b <;> rfl

/-- The functions of the language have different names. -/
theorem name_injective {b b' : Builtin} (h : b.name = b'.name) : b = b' := by
  have hsome := b.ofName?_name
  rw [h, b'.ofName?_name] at hsome
  exact (Option.some.inj hsome).symm

theorem name_of_ofName? {name : String} {b : Builtin} (h : ofName? name = some b) :
    b.name = name := by
  simpa using List.find?_some h

theorem isSpelledBy_name (b : Builtin) : b.keyword.IsSpelledBy b.name := by
  rw [name_eq_spelling]
  rfl

end Builtin

/-- No name is that of a function of the language. -/
theorem IsName.ne_builtin {name : String} (h : IsName name) (b : Builtin) : name ≠ b.name := by
  rintro rfl
  exact h.not_isSpelledBy b.keyword b.isSpelledBy_name

namespace Grammar

/-- Each function of the language has one keyword. -/
theorem mem_builtins_iff {k : Kind} {b : Builtin} :
    (k, b) ∈ builtins ↔ k = .keyword b.keyword := by
  rw [mem_builtins]
  constructor
  · rintro ⟨word, rfl, hword⟩
    cases word <;> cases hword <;> rfl
  · rintro rfl
    exact ⟨b.keyword, rfl, by cases b <;> rfl⟩

end Grammar

/-! ## Calls in trees -/

/-- The token stands for the name that a call is resolved by. -/
def Token.Calls (t : Token) (name : String) : Prop :=
  (t.kind = .identifier ∧ name = t.value) ∨
    ∃ b : Builtin, t.kind = .keyword b.keyword ∧ name = b.name

/-- The expression, if it is a call, has the line of a token that stands for its name and has an
opening parenthesis behind it. -/
def Expr.CalledBy (K : Token → Token → Prop) : Expr → Prop
  | .call line callee _ => ∃ t o, K t o ∧ line = some t.line ∧ o.kind = .symbol .openParen ∧
    t.Calls callee.name
  | _ => True

/-- All calls in a phrase have such tokens. -/
def Grammar.Phrase.CalledBy (K : Token → Token → Prop) : Phrase → Prop
  | .expr _ e => e.Everywhere (Expr.CalledBy K)
  | .exprs es | .items es => ∀ e ∈ es, e.Everywhere (Expr.CalledBy K)

/-- All calls in a statement have such tokens. -/
def Stmt.CalledBy (K : Token → Token → Prop) (s : Stmt) : Prop :=
  s.Everywhere (Expr.CalledBy K) fun _ => True

/-- All calls in a form have such tokens. -/
def Grammar.Form.CalledBy (K : Token → Token → Prop) : Form → Prop
  | .stmt s | .choice _ s => s.CalledBy K
  | .stmts ss => ∀ s ∈ ss, s.CalledBy K
  | .block b => ∀ s ∈ b.statements, s.CalledBy K
  | .guarded e b => e.Everywhere (Expr.CalledBy K) ∧ ∀ s ∈ b.statements, s.CalledBy K

variable {K : Token → Token → Prop}

/-- The calls in an expression have two tokens next to each other. -/
theorem calledBy_of_derives {φ : Phrase} {ts : List Token} (h : Derives φ ts) (hK : ts.IsChain K) :
    φ.CalledBy K := by
  induction h with
  | operand _ ih | unsigned _ ih | plain _ ih | something _ ih => exact ih hK
  | binary _ _ _ ihl ihr =>
    refine .intro trivial (List.forall_mem_cons.2 ⟨?_, List.forall_mem_singleton.2 ?_⟩)
    · exact ihl hK.left_of_append
    · exact ihr hK.right_of_append.tail
  | signed _ _ ih => exact .intro trivial (List.forall_mem_singleton.2 (ih hK.tail))
  | index _ _ _ _ ihe ihi =>
    refine .intro trivial (List.forall_mem_cons.2 ⟨?_, List.forall_mem_singleton.2 ?_⟩)
    · exact ihe hK.left_of_append
    · exact ihi hK.right_of_append.tail.left_of_append
  | property _ _ _ ih =>
    exact .intro trivial (List.forall_mem_singleton.2 (ih hK.left_of_append))
  | constant _ | number _ _ | text _ | name _ => exact .intro trivial (by simp [Expr.children])
  | call ht ho _ _ ih =>
    obtain ⟨hpair, hrest⟩ := List.isChain_cons_cons.1 hK
    exact .intro ⟨_, _, hpair, rfl, ho, .inl ⟨ht, rfl⟩⟩ (ih hrest.tail.left_of_append)
  | builtin hb ho _ _ ih =>
    obtain ⟨hpair, hrest⟩ := List.isChain_cons_cons.1 hK
    exact .intro ⟨_, _, hpair, rfl, ho, .inr ⟨_, mem_builtins_iff.1 hb, rfl⟩⟩
      (ih hrest.tail.left_of_append)
  | list _ _ _ ih => exact .intro trivial (ih hK.tail.left_of_append)
  | group _ _ _ ih => exact ih hK.tail.left_of_append
  | one _ ih => exact List.forall_mem_singleton.2 (ih hK)
  | more _ _ _ ih ihs =>
    exact List.forall_mem_cons.2 ⟨ih hK.left_of_append, ihs hK.right_of_append.tail⟩
  | nothing => exact List.forall_mem_nil _

/-- A choice has the calls of its condition and of its sides. -/
theorem calledBy_branch {line : Line} {e : Expr} {b : Block} {alternate : Option Stmt}
    (he : e.Everywhere (Expr.CalledBy K)) (hb : ∀ s ∈ b.statements, s.CalledBy K)
    (ha : ∀ a ∈ alternate, a.CalledBy K) :
    (Stmt.branch line e (.block b) alternate).CalledBy K := by
  have hblock : (Stmt.block b).CalledBy K := .intro trivial (by simp [Stmt.exprs]) hb
  refine .intro trivial (List.forall_mem_singleton.2 he) (List.forall_mem_cons.2 ⟨hblock, ?_⟩)
  exact fun a h => ha a (Option.mem_toList.1 h)

/-- The calls in a statement have two tokens next to each other. -/
theorem calledBy_of_builds {φ : Form} {ts : List Token} (h : Builds φ ts) (hK : ts.IsChain K) :
    φ.CalledBy K := by
  -- statements without others below them
  have hleaf {s : Stmt} (hs : s.children = [])
      (he : ∀ e ∈ s.exprs, e.Everywhere (Expr.CalledBy K)) : s.CalledBy K :=
    .intro trivial he (by simp [hs])
  induction h with
  | declare _ _ _ | giveBack _ _ | stop _ _ | skip _ _ => exact hleaf rfl (by simp [Stmt.exprs])
  | declareAs _ _ _ hd _ =>
    have he := calledBy_of_derives hd hK.tail.tail.tail.left_of_append
    exact hleaf rfl (List.forall_mem_singleton.2 he)
  | assign _ _ hd _ =>
    have he := calledBy_of_derives hd hK.tail.tail.left_of_append
    exact hleaf rfl (List.forall_mem_singleton.2 he)
  | giveBackOf _ hd _ =>
    have he := calledBy_of_derives hd hK.tail.left_of_append
    exact hleaf rfl (List.forall_mem_singleton.2 he)
  | expression hd _ _ =>
    rw [← List.cons_append] at hK
    have he := calledBy_of_derives hd hK.left_of_append
    exact hleaf rfl (List.forall_mem_singleton.2 he)
  | print _ hd _ => exact hleaf rfl (calledBy_of_derives hd hK.tail.left_of_append)
  | branch _ _ ih => exact ih hK.tail
  | loop _ _ ih =>
    obtain ⟨he, hb⟩ := ih hK.tail
    exact .intro trivial (List.forall_mem_singleton.2 he) hb
  | function _ _ _ _ _ ih =>
    exact .intro trivial (by simp [Stmt.exprs]) (ih hK.tail.tail.tail.tail)
  | functionOf _ _ _ _ _ _ _ ih =>
    exact .intro trivial (by simp [Stmt.exprs]) (ih hK.tail.tail.tail.right_of_append.tail)
  | block _ ih => exact .intro trivial (by simp [Stmt.exprs]) (ih hK)
  | none => exact List.forall_mem_nil _
  | more _ _ ih ihs =>
    exact List.forall_mem_cons.2 ⟨ih hK.left_of_append, ihs hK.right_of_append⟩
  | braces _ _ _ ih => exact ih hK.tail.left_of_append
  | guard _ hd _ _ ih =>
    exact ⟨calledBy_of_derives hd hK.tail.left_of_append, ih hK.tail.right_of_append.tail⟩
  | alone _ ih =>
    obtain ⟨he, hb⟩ := ih hK
    exact calledBy_branch he hb (by simp)
  | otherwiseWhen _ _ _ ihg ihs =>
    obtain ⟨he, hb⟩ := ihg hK.left_of_append
    have hs := ihs hK.right_of_append.tail
    exact calledBy_branch he hb fun a ha => Option.some.inj ha ▸ hs
  | otherwiseBranch _ _ _ _ ihg ihs =>
    obtain ⟨he, hb⟩ := ihg hK.left_of_append
    have hs := ihs hK.right_of_append.tail.tail
    exact calledBy_branch he hb fun a ha => Option.some.inj ha ▸ hs
  | otherwiseBlock _ _ _ ihg iha =>
    obtain ⟨he, hb⟩ := ihg hK.left_of_append
    have hs : (Stmt.block _).CalledBy K :=
      .intro trivial (by simp [Stmt.exprs]) (iha hK.right_of_append.tail)
    exact calledBy_branch he hb fun a ha => Option.some.inj ha ▸ hs

/-! ## A line for each token -/

namespace Token

/-- The same tokens, each on the line of its index. -/
def numbered (tokens : List Token) : List Token :=
  tokens.mapIdx fun i t => { t with position := ⟨i, 1⟩ }

/-- Numbering moves the tokens and leaves their words. -/
theorem words_numbered (tokens : List Token) :
    (numbered tokens).map word = tokens.map word := by
  refine List.ext_getElem? fun i => ?_
  rw [List.getElem?_map, numbered, List.getElem?_mapIdx, List.getElem?_map, Option.map_map]
  rfl

/-- The tokens stand next to each other in a list, and the line of the first one is its index. -/
def NextIn (tokens : List Token) (t o : Token) : Prop :=
  ∃ (i : Nat) (t' o' : Token), t.line = i ∧ tokens[i]? = some t' ∧ tokens[i + 1]? = some o' ∧
    t.word = t'.word ∧ o.word = o'.word

/-- Neighbours among the numbered tokens are neighbours in the list. -/
theorem isChain_numbered (tokens : List Token) :
    (numbered tokens).IsChain (NextIn tokens) := by
  refine List.isChain_iff_getElem.2 fun i hi => ?_
  have hlength : (numbered tokens).length = tokens.length := List.length_mapIdx
  have hi' : i + 1 < tokens.length := by rwa [hlength] at hi
  refine ⟨i, tokens[i], tokens[i + 1], ?_, List.getElem?_eq_getElem _, List.getElem?_eq_getElem hi',
    ?_, ?_⟩
  · simp [numbered, line]
  · simp [numbered, word]
  · simp [numbered, word]

/-- Among the tokens of a text, which one a call has decides what it calls. -/
theorem Calls.builtin_iff {text : String} {tokens : List Token} {t : Token} {name : String}
    (h : t.Calls name) (htokens : ofText text = .ok tokens) (ht : t ∈ tokens) (b : Builtin) :
    (name = b.name ↔ t.kind = .keyword b.keyword) ∧
      (t.kind = .keyword b.keyword ↔ b.keyword.IsSpelledBy t.value) := by
  obtain ⟨ts, q, rfl, hfits⟩ := fits_of_scan htokens
  have hfit : t.kind ≠ .eof → t.Fits := by
    intro hne
    rcases List.mem_append.1 ht with ht | ht
    · exact hfits t ht
    · rw [List.mem_singleton.1 ht] at hne
      exact absurd rfl hne
  rcases h with ⟨hk, rfl⟩ | ⟨b', hk, rfl⟩
  · have hname := (hfit (by simp [hk])).isName hk
    have hkind : t.kind ≠ .keyword b.keyword := by simp [hk]
    exact ⟨iff_of_false (hname.ne_builtin b) hkind,
      iff_of_false hkind (hname.not_isSpelledBy b.keyword)⟩
  · have hword := (hfit (by simp [hk])).ofWord? hk
    rw [hk, ← Keyword.ofWord?_eq_some_iff, hword]
    constructor
    · constructor
      · intro heq
        rw [Builtin.name_injective heq]
      · intro heq
        rw [Builtin.name_eq_spelling, Kind.keyword.inj heq, ← Builtin.name_eq_spelling]
    · simp

end Token

/-- With each token on a line of its own, the program is the same up to lines, and the line of a
call is that of the token for its function. -/
theorem exists_numbered {text : String} {tokens : List Token} {p : Program}
    (htokens : Token.ofText text = .ok tokens) (hp : Program.ofText text = .ok p) :
    ∃ q, Parser.program.ofTokens (Token.numbered tokens) = .ok q ∧ q.unlined = p.unlined ∧
      ∀ line callee args, q.HasExpr (.call line callee args) →
        ∃ (i : Nat) (t o : Token), line = some (i : Int) ∧ tokens[i]? = some t ∧
          tokens[i + 1]? = some o ∧ o.kind = .symbol .openParen ∧ t.Calls callee.name := by
  obtain ⟨tokens', htokens', hp⟩ := ofText_eq_ok.1 hp
  obtain rfl := Except.ok.inj (htokens.symm.trans htokens')
  let L : Layouts := ⟨tokens, Token.numbered tokens, (Token.words_numbered tokens).symm,
    Token.numerals_of_ofText htokens⟩
  obtain ⟨c, hc⟩ := Parser.exists_ofTokens? htokens
  rcases L.ofTokens_cases Layouts.program_parallel hc with
    ⟨p', q, hp', hq, hrelined⟩ | ⟨complaint, t, u, he, _⟩
  · obtain rfl := Except.ok.inj (hp.symm.trans hp')
    refine ⟨q, hq, hrelined.symm, fun line callee args hcall => ?_⟩
    obtain ⟨d, d', hd, hread⟩ := Parser.ofTokens_eq_ok.1 hq
    obtain ⟨hrest, _, hended⟩ := Parser.ofTokens?_eq_some.1 hd
    obtain ⟨ts, d₁, hpass, _, hprogram⟩ := Parser.program_sound hended hread
    have hchain : (ts ++ [d₁.current]).IsChain (Token.NextIn tokens) := by
      have hall : d.rest.IsChain (Token.NextIn tokens) := hrest ▸ Token.isChain_numbered tokens
      rw [hpass.rest_eq, Cursor.rest, ← List.singleton_append, ← List.append_assoc] at hall
      exact hall.left_of_append
    generalize ts ++ [d₁.current] = us at hprogram hchain
    have hcalled : ∀ s ∈ q.statements, s.CalledBy (Token.NextIn tokens) := by
      cases hprogram with
      | mk _ _ hb _ _ _ => exact calledBy_of_builds hb hchain.tail.tail.left_of_append
    obtain ⟨t, o, ⟨i, t', o', hi, ht, ho, htword, howord⟩, rfl, hparen, hcalls⟩ :=
      (Block.Everywhere.expr (P := Expr.CalledBy (Token.NextIn tokens)) (Q := fun _ => True)
        hcalled hcall).root
    have hkind : t.kind = t'.kind := congrArg Word.kind htword
    have hvalue : t.value = t'.value := congrArg Word.value htword
    refine ⟨i, t', o', by rw [hi], ht, ho, (congrArg Word.kind howord).symm.trans hparen, ?_⟩
    rwa [Token.Calls, ← hkind, ← hvalue]
  · cases hp.symm.trans he

end Boli
