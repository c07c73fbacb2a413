import Boli.Proofs.Reading

/-!
# Expressions that are read derive from the grammar

Given that the reading of a whole expression is sound, so is the reading of every rank, from
`primary_sound` up to `disjunction_sound`, and `expressionWithin_sound` closes the circle.

The binary levels and the accessors are left recursive in the grammar but loops in the reading.  So
the loops are sound in this sense: what a loop takes extends the derivation of the tree that it holds
(`chain_sound`, `accessors_sound`).
-/

namespace Boli

open Grammar

/-! ## Tables -/

/-- The operators of a level are those in its table. -/
theorem Level.op?_eq_some {level : Level} {k : Kind} {op : Op} :
    level.op? k = some op ↔ (k, op) ∈ level.operators := by
  constructor
  · intro h
    unfold op? at h
    split at h <;> cases h <;> simp [operators]
  · intro h
    cases level with
    | disjunction =>
      obtain ⟨rfl, rfl⟩ : k = .keyword .or ∧ op = .or := by simpa [operators] using h
      rfl
    | conjunction =>
      obtain ⟨rfl, rfl⟩ : k = .keyword .and ∧ op = .and := by simpa [operators] using h
      rfl
    | equality =>
      simp only [operators, List.mem_cons, Prod.mk.injEq, List.not_mem_nil, or_false] at h
      rcases h with ⟨rfl, rfl⟩ | ⟨rfl, rfl⟩ | ⟨rfl, rfl⟩ <;> rfl
    | relation =>
      simp only [operators, List.mem_cons, Prod.mk.injEq, List.not_mem_nil, or_false] at h
      rcases h with ⟨rfl, rfl⟩ | ⟨rfl, rfl⟩ | ⟨rfl, rfl⟩ | ⟨rfl, rfl⟩ | ⟨rfl, rfl⟩ | ⟨rfl, rfl⟩ <;>
        rfl
    | sum =>
      simp only [operators, List.mem_cons, Prod.mk.injEq, List.not_mem_nil, or_false] at h
      rcases h with ⟨rfl, rfl⟩ | ⟨rfl, rfl⟩ <;> rfl
    | product =>
      simp only [operators, List.mem_cons, Prod.mk.injEq, List.not_mem_nil, or_false] at h
      rcases h with ⟨rfl, rfl⟩ | ⟨rfl, rfl⟩ | ⟨rfl, rfl⟩ <;> rfl

theorem signOp?_eq_some {k : Kind} {op : Op} : signOp? k = some op ↔ (k, op) ∈ signs := by
  constructor
  · intro h
    unfold signOp? at h
    split at h <;> cases h <;> simp [signs]
  · intro h
    simp only [signs, List.mem_cons, Prod.mk.injEq, List.not_mem_nil, or_false] at h
    rcases h with ⟨rfl, rfl⟩ | ⟨rfl, rfl⟩ <;> rfl

/-- No operator is the mark of the end, so it is passed. -/
theorem ne_eof_of_mem_operators {level : Level} {k : Kind} {op : Op}
    (h : (k, op) ∈ level.operators) : k ≠ .eof := by
  rintro rfl
  have hop := Level.op?_eq_some.2 h
  cases level <;> cases hop

theorem ne_eof_of_mem_signs {k : Kind} {op : Op} (h : (k, op) ∈ signs) : k ≠ .eof := by
  rintro rfl
  cases signOp?_eq_some.2 h

/-- The table of functions of the language has all of their keywords. -/
theorem mem_builtins {k : Kind} {b : Builtin} :
    (k, b) ∈ builtins ↔ ∃ word, k = .keyword word ∧ word.builtin? = some b := by
  constructor
  · intro h
    simp only [builtins, List.mem_cons, Prod.mk.injEq, List.not_mem_nil, or_false] at h
    rcases h with ⟨rfl, rfl⟩ | ⟨rfl, rfl⟩ | ⟨rfl, rfl⟩ | ⟨rfl, rfl⟩ | ⟨rfl, rfl⟩ <;>
      exact ⟨_, rfl, rfl⟩
  · rintro ⟨word, rfl, h⟩
    unfold Keyword.builtin? at h
    split at h <;> cases h <;> simp [builtins]

namespace Parser

/-! ## Soundness -/

theorem passes_of_kind {c : Cursor} {k : Kind} (hc : c.Ended) (h : c.current.kind = k)
    (hk : k ≠ .eof) : c.Passes [c.current] c.advance :=
  Cursor.passes_advance hc (by rw [h]; exact hk)

/-- The readings of whole expressions that the grammar allows. -/
abbrev SoundExpression (expr : Parser Expr) : Prop :=
  Sound expr fun e ts => Derives (.expr .loosest e) ts

/-- Items that are read have commas between them. -/
theorem commaSeparated_sound {expr : Parser Expr} (hexpr : SoundExpression expr) (fuel : Nat) :
    Sound (commaSeparated expr fuel) fun es ts => Derives (.exprs es) ts := by
  induction fuel with
  | zero =>
    intro c es c' hc h
    simp only [commaSeparated, bind_eq_ok, pure_eq_ok] at h
    obtain ⟨e, _, h, rfl, rfl⟩ := h
    obtain ⟨ts, hpass, hd⟩ := hexpr hc h
    exact ⟨ts, hpass, .one hd⟩
  | succ fuel ih =>
    intro c es c' hc h
    simp only [commaSeparated, bind_eq_ok, accept_eq_ok] at h
    obtain ⟨e, c₁, he, _, _, ⟨hk, rfl, rfl⟩ | ⟨hk, rfl, rfl⟩, h⟩ := h
    · obtain ⟨ts, hpass, hd⟩ := hexpr hc he
      simp only [Option.isSome_some, ↓reduceIte, bind_eq_ok, pure_eq_ok] at h
      obtain ⟨es, _, h, rfl, rfl⟩ := h
      have hcomma := passes_of_kind (hpass.ended hc) hk (by simp)
      obtain ⟨us, hpass', hds⟩ := ih (hcomma.ended (hpass.ended hc)) h
      exact ⟨_, hpass.trans (hcomma.trans hpass'), .more hd hk hds⟩
    · obtain ⟨ts, hpass, hd⟩ := hexpr hc he
      simp only [Option.isSome_none, Bool.false_eq_true, ↓reduceIte, pure_eq_ok] at h
      obtain ⟨rfl, rfl⟩ := h
      exact ⟨ts, hpass, .one hd⟩

/-- No items are read where the closing token stands first. -/
theorem itemsUntil_sound {expr : Parser Expr} (hexpr : SoundExpression expr) (close : Kind) :
    Sound (itemsUntil close expr) fun es ts => Derives (.items es) ts := by
  intro c es c' hc h
  simp only [itemsUntil, bind_eq_ok, isAt_eq_ok] at h
  obtain ⟨_, _, ⟨rfl, rfl⟩, h⟩ := h
  split at h
  · obtain ⟨rfl, rfl⟩ := pure_eq_ok.1 h
    exact ⟨[], .refl c, .nothing⟩
  · simp only [bind_eq_ok, remaining_eq_ok] at h
    obtain ⟨_, _, ⟨rfl, rfl⟩, h⟩ := h
    obtain ⟨ts, hpass, hd⟩ := commaSeparated_sound hexpr _ hc h
    exact ⟨ts, hpass, .something hd⟩

/-- Arguments that are read stand in parentheses. -/
theorem arguments_sound {expr : Parser Expr} (hexpr : SoundExpression expr) :
    Sound (arguments expr) fun args ts => ∃ o us u, o.kind = .symbol .openParen ∧
      Derives (.items args) us ∧ u.kind = .symbol .closeParen ∧ ts = o :: (us ++ [u]) := by
  intro c args c' hc h
  simp only [arguments, bind_eq_ok, expect_eq_ok, pure_eq_ok] at h
  obtain ⟨_, _, ⟨ho, rfl, rfl⟩, _, c₁, hitems, _, _, ⟨hu, rfl, rfl⟩, rfl, rfl⟩ := h
  have hopen := passes_of_kind hc ho (by simp)
  obtain ⟨us, hpass, hd⟩ := itemsUntil_sound hexpr _ (hopen.ended hc) hitems
  have hclose := passes_of_kind (hpass.ended (hopen.ended hc)) hu (by simp)
  exact ⟨_, hopen.trans (hpass.trans hclose), _, us, _, ho, hd, hu, rfl⟩

/-- What a primary is read as depends on the kind of its first token. -/
theorem primary_run (expr : Parser Expr) (c : Cursor) :
    primary expr c =
      match c.current.kind with
      | .keyword .yes => constant (.boolean true) c
      | .keyword .no => constant (.boolean false) c
      | .keyword .nothing => constant .null c
      | .number => numberLiteral c
      | .text => constant (.text c.current.value) c
      | .identifier => nameOrCall expr c
      | .symbol .openBracket => listLiteral expr c
      | .symbol .openParen => group expr c
      | .keyword word =>
        match word.builtin? with
        | some b => builtinCall expr b c
        | none => fail (.expected .expression) c
      | _ => fail (.expected .expression) c := by
  obtain ⟨passed, ⟨kind, value, position⟩, ahead, n, hn⟩ := c
  cases kind with
  | keyword word => cases word <;> rfl
  | symbol sign => cases sign <;> rfl
  | _ => rfl

/-- Each primary that is read is one of the grammar. -/
theorem primary_sound {expr : Parser Expr} (hexpr : SoundExpression expr) :
    Sound (primary expr) fun e ts => Derives (.expr .primary e) ts := by
  intro c e c' hc h
  rw [primary_run] at h
  -- One case for each kind of token that a primary may start with.
  split at h
  case h_1 hk =>
    simp only [constant, bind_eq_ok, advance_eq_ok, pure_eq_ok] at h
    obtain ⟨_, _, ⟨rfl, rfl⟩, rfl, rfl⟩ := h
    exact ⟨_, passes_of_kind hc hk (by simp), .constant (by simp [constants, hk])⟩
  case h_2 hk =>
    simp only [constant, bind_eq_ok, advance_eq_ok, pure_eq_ok] at h
    obtain ⟨_, _, ⟨rfl, rfl⟩, rfl, rfl⟩ := h
    exact ⟨_, passes_of_kind hc hk (by simp), .constant (by simp [constants, hk])⟩
  case h_3 hk =>
    simp only [constant, bind_eq_ok, advance_eq_ok, pure_eq_ok] at h
    obtain ⟨_, _, ⟨rfl, rfl⟩, rfl, rfl⟩ := h
    exact ⟨_, passes_of_kind hc hk (by simp), .constant (by simp [constants, hk])⟩
  case h_4 hk =>
    simp only [numberLiteral, bind_eq_ok, advance_eq_ok] at h
    obtain ⟨_, _, ⟨rfl, rfl⟩, h⟩ := h
    cases hx : Numeral.ofLexeme? c.current.value with
    | some x =>
      simp only [hx, pure_eq_ok] at h
      obtain ⟨rfl, rfl⟩ := h
      exact ⟨_, passes_of_kind hc hk (by simp), .number hk hx⟩
    | none =>
      simp only [hx] at h
      exact absurd h failAt_ne_ok
  case h_5 hk =>
    simp only [constant, bind_eq_ok, advance_eq_ok, pure_eq_ok] at h
    obtain ⟨_, _, ⟨rfl, rfl⟩, rfl, rfl⟩ := h
    exact ⟨_, passes_of_kind hc hk (by simp), .text hk⟩
  case h_6 hk =>
    have hname := passes_of_kind hc hk (by simp)
    simp only [nameOrCall, bind_eq_ok, advance_eq_ok, isAt_eq_ok] at h
    obtain ⟨_, _, ⟨rfl, rfl⟩, _, _, ⟨rfl, rfl⟩, h⟩ := h
    split at h
    · simp only [bind_eq_ok, pure_eq_ok] at h
      obtain ⟨args, _, hargs, rfl, rfl⟩ := h
      obtain ⟨_, hpass, o, us, u, ho, hd, hu, rfl⟩ := arguments_sound hexpr (hname.ended hc) hargs
      exact ⟨_, hname.trans hpass, .call hk ho hd hu⟩
    · obtain ⟨rfl, rfl⟩ := pure_eq_ok.1 h
      exact ⟨_, hname, .name hk⟩
  case h_7 hk =>
    have hopen := passes_of_kind hc hk (by simp)
    simp only [listLiteral, bind_eq_ok, advance_eq_ok, expect_eq_ok, pure_eq_ok] at h
    obtain ⟨_, _, ⟨rfl, rfl⟩, es, c₁, hitems, _, _, ⟨hu, rfl, rfl⟩, rfl, rfl⟩ := h
    obtain ⟨us, hpass, hd⟩ := itemsUntil_sound hexpr _ (hopen.ended hc) hitems
    have hclose := passes_of_kind (hpass.ended (hopen.ended hc)) hu (by simp)
    exact ⟨_, hopen.trans (hpass.trans hclose), .list hk hd hu⟩
  case h_8 hk =>
    have hopen := passes_of_kind hc hk (by simp)
    simp only [group, bind_eq_ok, advance_eq_ok, expect_eq_ok, pure_eq_ok] at h
    obtain ⟨_, _, ⟨rfl, rfl⟩, e, c₁, he, _, _, ⟨hu, rfl, rfl⟩, rfl, rfl⟩ := h
    obtain ⟨us, hpass, hd⟩ := hexpr (hopen.ended hc) he
    have hclose := passes_of_kind (hpass.ended (hopen.ended hc)) hu (by simp)
    exact ⟨_, hopen.trans (hpass.trans hclose), .group hk hd hu⟩
  case h_9 word _ _ _ hk =>
    split at h
    · next b hb =>
      have hword := passes_of_kind hc hk (by simp)
      simp only [builtinCall, bind_eq_ok, get_eq_ok] at h
      obtain ⟨_, _, ⟨rfl, rfl⟩, h⟩ := h
      split at h
      · simp only [bind_eq_ok, advance_eq_ok, pure_eq_ok] at h
        obtain ⟨_, _, ⟨rfl, rfl⟩, args, _, hargs, rfl, rfl⟩ := h
        obtain ⟨_, hpass, o, us, u, ho, hd, hu, rfl⟩ := arguments_sound hexpr (hword.ended hc) hargs
        exact ⟨_, hword.trans hpass, .builtin (mem_builtins.2 ⟨word, hk, hb⟩) ho hd hu⟩
      · exact absurd h fail_ne_ok
    · exact absurd h fail_ne_ok
  case h_10 => exact absurd h fail_ne_ok

/-- The accessors that a loop takes go behind the target that it holds. -/
theorem accessors_sound {expr : Parser Expr} (hexpr : SoundExpression expr) (fuel : Nat) :
    ∀ {target c e c'}, c.Ended → accessors expr fuel target c = .ok e c' →
      ∃ ts, c.Passes ts c' ∧ ∀ us, Derives (.expr .accessor target) us →
        Derives (.expr .accessor e) (us ++ ts) := by
  induction fuel with
  | zero =>
    intro target c e c' hc h
    obtain ⟨rfl, rfl⟩ := pure_eq_ok.1 h
    exact ⟨[], .refl c, fun us hd => by rwa [List.append_nil]⟩
  | succ fuel ih =>
    intro target c e c' hc h
    simp only [accessors, acceptAny, bind_eq_ok, current_eq_ok] at h
    obtain ⟨t?, c₁, ⟨_, _, ⟨rfl, rfl⟩, ht⟩, h⟩ := h
    split at ht
    · next hmem =>
      simp only [bind_eq_ok, advance_eq_ok, pure_eq_ok] at ht
      obtain ⟨_, _, ⟨rfl, rfl⟩, rfl, rfl⟩ := ht
      by_cases hk : c.current.kind = .symbol .openBracket
      · have hopen := passes_of_kind hc hk (by simp)
        simp only [hk, ↓reduceIte, bind_eq_ok, expect_eq_ok] at h
        obtain ⟨i, c₂, hi, _, _, ⟨hu, rfl, rfl⟩, h⟩ := h
        obtain ⟨is, hpass, hd⟩ := hexpr (hopen.ended hc) hi
        have hclose := passes_of_kind (hpass.ended (hopen.ended hc)) hu (by simp)
        obtain ⟨ts, hpass', hrest⟩ := ih (hclose.ended (hpass.ended (hopen.ended hc))) h
        refine ⟨_, (hopen.trans (hpass.trans hclose)).trans hpass', fun us htarget => ?_⟩
        have hindex := hrest _ (.index htarget hk hd hu)
        simpa using hindex
      · have hdot : c.current.kind = .symbol .dot := by simpa [hk] using hmem
        have hpass := passes_of_kind hc hdot (by simp)
        simp only [hk, ↓reduceIte, bind_eq_ok, expect_eq_ok] at h
        obtain ⟨_, _, ⟨hn, rfl, rfl⟩, h⟩ := h
        have hname := passes_of_kind (hpass.ended hc) hn (by simp)
        obtain ⟨ts, hpass', hrest⟩ := ih (hname.ended (hpass.ended hc)) h
        refine ⟨_, (hpass.trans hname).trans hpass', fun us htarget => ?_⟩
        have hproperty := hrest _ (.property htarget hdot hn)
        simpa using hproperty
    · obtain ⟨rfl, rfl⟩ := pure_eq_ok.1 ht
      obtain ⟨rfl, rfl⟩ := pure_eq_ok.1 h
      exact ⟨[], .refl c, fun us hd => by rwa [List.append_nil]⟩

theorem postfixed_sound {expr : Parser Expr} (hexpr : SoundExpression expr) :
    Sound (postfixed expr) fun e ts => Derives (.expr .accessor e) ts := by
  intro c e c' hc h
  simp only [postfixed, bind_eq_ok, remaining_eq_ok] at h
  obtain ⟨target, c₁, htarget, _, _, ⟨rfl, rfl⟩, h⟩ := h
  obtain ⟨us, hpass, hd⟩ := primary_sound hexpr hc htarget
  obtain ⟨ts, hpass', hrest⟩ := accessors_sound hexpr _ (hpass.ended hc) h
  exact ⟨_, hpass.trans hpass', hrest us (.plain hd)⟩

/-- Each sign that is read goes in front of a signed operand. -/
theorem signed_sound {expr : Parser Expr} (hexpr : SoundExpression expr) (fuel : Nat) :
    Sound (signed expr fuel) fun e ts => Derives (.expr .sign e) ts := by
  induction fuel with
  | zero =>
    intro c e c' hc h
    obtain ⟨ts, hpass, hd⟩ := postfixed_sound hexpr hc h
    exact ⟨ts, hpass, .unsigned hd⟩
  | succ fuel ih =>
    intro c e c' hc h
    simp only [signed, bind_eq_ok, current_eq_ok] at h
    obtain ⟨_, _, ⟨rfl, rfl⟩, h⟩ := h
    cases hop : signOp? c.current.kind with
    | some op =>
      simp only [hop, bind_eq_ok, advance_eq_ok, pure_eq_ok] at h
      obtain ⟨_, _, ⟨rfl, rfl⟩, e, _, he, rfl, rfl⟩ := h
      have hmem := signOp?_eq_some.1 hop
      have hsign := Cursor.passes_advance hc (ne_eof_of_mem_signs hmem)
      obtain ⟨ts, hpass, hd⟩ := ih (hsign.ended hc) he
      exact ⟨_, hsign.trans hpass, .signed hmem hd⟩
    | none =>
      simp only [hop] at h
      obtain ⟨ts, hpass, hd⟩ := postfixed_sound hexpr hc h
      exact ⟨ts, hpass, .unsigned hd⟩

theorem unary_sound {expr : Parser Expr} (hexpr : SoundExpression expr) :
    Sound (unary expr) fun e ts => Derives (.expr .sign e) ts := by
  intro c e c' hc h
  simp only [unary, bind_eq_ok, remaining_eq_ok] at h
  obtain ⟨_, _, ⟨rfl, rfl⟩, h⟩ := h
  exact signed_sound hexpr _ hc h

/-- The operands that a loop takes join the left operand that it holds. -/
theorem chain_sound {level : Level} {operand : Parser Expr}
    (hoperand : Sound operand fun e ts => Derives (.expr level.operand e) ts) (fuel : Nat) :
    ∀ {left c e c'}, c.Ended → chain level operand fuel left c = .ok e c' →
      ∃ ts, c.Passes ts c' ∧ ∀ ls, Derives (.expr (.binary level) left) ls →
        Derives (.expr (.binary level) e) (ls ++ ts) := by
  induction fuel with
  | zero =>
    intro left c e c' hc h
    obtain ⟨rfl, rfl⟩ := pure_eq_ok.1 h
    exact ⟨[], .refl c, fun ls hd => by rwa [List.append_nil]⟩
  | succ fuel ih =>
    intro left c e c' hc h
    simp only [chain, bind_eq_ok, current_eq_ok] at h
    obtain ⟨_, _, ⟨rfl, rfl⟩, h⟩ := h
    cases hop : level.op? c.current.kind with
    | some op =>
      simp only [hop, bind_eq_ok, advance_eq_ok] at h
      obtain ⟨_, _, ⟨rfl, rfl⟩, right, c₁, hright, h⟩ := h
      have hmem := Level.op?_eq_some.1 hop
      have hsign := Cursor.passes_advance hc (ne_eof_of_mem_operators hmem)
      obtain ⟨rs, hpass, hd⟩ := hoperand (hsign.ended hc) hright
      obtain ⟨ts, hpass', hrest⟩ := ih (hpass.ended (hsign.ended hc)) h
      refine ⟨_, (hsign.trans hpass).trans hpass', fun ls hleft => ?_⟩
      have hbinary := hrest _ (.binary hleft hmem hd)
      simpa using hbinary
    | none =>
      simp only [hop] at h
      obtain ⟨rfl, rfl⟩ := pure_eq_ok.1 h
      exact ⟨[], .refl c, fun ls hd => by rwa [List.append_nil]⟩

theorem joined_sound (level : Level) {operand : Parser Expr}
    (hoperand : Sound operand fun e ts => Derives (.expr level.operand e) ts) :
    Sound (joined level operand) fun e ts => Derives (.expr (.binary level) e) ts := by
  intro c e c' hc h
  simp only [joined, bind_eq_ok, remaining_eq_ok] at h
  obtain ⟨left, c₁, hleft, _, _, ⟨rfl, rfl⟩, h⟩ := h
  obtain ⟨ls, hpass, hd⟩ := hoperand hc hleft
  obtain ⟨ts, hpass', hrest⟩ := chain_sound hoperand _ (hpass.ended hc) h
  exact ⟨_, hpass.trans hpass', hrest ls (.operand hd)⟩

theorem disjunction_sound {expr : Parser Expr} (hexpr : SoundExpression expr) :
    SoundExpression (disjunction expr) :=
  have hproduct : Sound (product expr) _ := joined_sound .product (unary_sound hexpr)
  have hsum : Sound (sum expr) _ := joined_sound .sum hproduct
  have hrelation : Sound (relation expr) _ := joined_sound .relation hsum
  have hequality : Sound (equality expr) _ := joined_sound .equality hrelation
  have hconjunction : Sound (conjunction expr) _ := joined_sound .conjunction hequality
  joined_sound .disjunction hconjunction

/-- An expression inside another one is read with less fuel. -/
theorem expressionWithin_sound (depth : Nat) : SoundExpression (expressionWithin depth) := by
  induction depth with
  | zero =>
    intro c e c' _ h
    exact absurd h fail_ne_ok
  | succ depth ih => exact disjunction_sound ih

theorem expression_sound : SoundExpression expression := by
  intro c e c' hc h
  simp only [expression, bind_eq_ok, remaining_eq_ok] at h
  obtain ⟨_, _, ⟨rfl, rfl⟩, h⟩ := h
  exact expressionWithin_sound _ hc h

end Parser

end Boli
