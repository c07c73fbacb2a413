import Boli.Proofs.ProgramTandem
import Boli.Proofs.RewrittenTrees
import Boli.Proofs.Source

/-!
# Synonyms

Some things can be said in two ways.  A comparison has a word and a sign, and a further choice is
announced by one keyword or by two.  Token lists that differ in such synonyms only, and in places, are
read in the same way (`Synonymous`).

* `Spellings` is a pair of token lists.
* `Spellings.Twins` are tokens that start synonymous ends of the two lists, behind synonymous
  beginnings, and `Spellings.Abreast` are cursors at such tokens.
* `Spellings.Parallel` says of two readings that from cursors abreast they end alike, with related
  values at cursors abreast or with complaints about twins.

The two lists may be of different length.  Loops and nested readings take their fuel from the tokens
ahead, so it is not the same on both sides, and the relations carry bounds for it.  That there are no
synonyms is a special case (`free` is false), where the words are the same.

The relation is shown here for single steps and then for each level of expressions.
-/

namespace Boli

/-! ## Tokens that mean the same -/

/-- The sign that means the same as a keyword. -/
def Keyword.sign? : Keyword → Option Symbol
  | greater => some .greater
  | less => some .less
  | equal => some .equal
  | _ => none

/-- There is another way to say what a token of the kind says, alone or with the next token. -/
def Kind.hasSynonym : Kind → Bool
  | .keyword .greater | .keyword .less | .keyword .equal => true
  | .symbol .greater | .symbol .less | .symbol .equal => true
  | .keyword .otherwise | .keyword .otherwiseWhen => true
  | _ => false

/-- The tokens are the same word, or a keyword and its sign. -/
inductive Token.Synonym (free : Prop) (t u : Token) : Prop where
  | same (h : t.word = u.word)
  | sign {word : Keyword} {sign : Symbol} (hfree : free) (h : word.sign? = some sign)
    (ht : t.kind = .keyword word) (hu : u.kind = .symbol sign)
  | word {word : Keyword} {sign : Symbol} (hfree : free) (h : word.sign? = some sign)
    (ht : t.kind = .symbol sign) (hu : u.kind = .keyword word)

/-- The lists mean the same.  In the second one, two keywords may stand for one of the first. -/
inductive Synonymous (free : Prop) : List Token → List Token → Prop where
  | nil : Synonymous free [] []
  | cons {t u : Token} {ts us : List Token} (h : t.Synonym free u) (hs : Synonymous free ts us) :
    Synonymous free (t :: ts) (u :: us)
  | joined {t u v : Token} {ts us : List Token} (hfree : free)
    (ht : t.kind = .keyword .otherwiseWhen) (hu : u.kind = .keyword .otherwise)
    (hv : v.kind = .keyword .when) (hs : Synonymous free ts us) :
    Synonymous free (t :: ts) (u :: v :: us)

/-- What a reading can tell of two tokens that start lists of the same meaning.  They are the same
word, or they have synonyms and are the same operator if they are any. -/
inductive Token.Counterpart (t u : Token) : Prop where
  | same (h : t.word = u.word)
  | other (ht : t.kind.hasSynonym) (hu : u.kind.hasSynonym)
    (hop : ∀ level : Level, level.op? t.kind = level.op? u.kind)

namespace Token

variable {free : Prop} {t u : Token} {ts us : List Token}

/-- A keyword and its sign are the same operator. -/
theorem Synonym.counterpart (h : t.Synonym free u) : t.Counterpart u := by
  have hsign : ∀ {word : Keyword} {sign : Symbol}, word.sign? = some sign →
      (Kind.keyword word).hasSynonym ∧ (Kind.symbol sign).hasSynonym ∧
        ∀ level : Level, level.op? (.keyword word) = level.op? (.symbol sign) := by
    intro word sign h
    cases word <;> cases h <;> exact ⟨rfl, rfl, fun level => by cases level <;> rfl⟩
  cases h with
  | same h => exact .same h
  | sign _ h ht hu =>
    obtain ⟨hword, hsign, hop⟩ := hsign h
    exact .other (ht ▸ hword) (hu ▸ hsign) fun level => by rw [ht, hu, hop]
  | word _ h ht hu =>
    obtain ⟨hword, hsign, hop⟩ := hsign h
    exact .other (ht ▸ hsign) (hu ▸ hword) fun level => by rw [ht, hu, hop]

namespace Counterpart

theorem kind_eq (h : t.Counterpart u) (ht : t.kind.hasSynonym = false) : t.kind = u.kind := by
  cases h with
  | same h => exact congrArg Word.kind h
  | other ht' => exact absurd ht' (by simp [ht])

theorem value_eq (h : t.Counterpart u) (ht : t.kind.hasSynonym = false) : t.value = u.value := by
  cases h with
  | same h => exact congrArg Word.value h
  | other ht' => exact absurd ht' (by simp [ht])

theorem hasSynonym_eq (h : t.Counterpart u) : t.kind.hasSynonym = u.kind.hasSynonym := by
  cases h with
  | same h => exact congrArg (fun w => w.kind.hasSynonym) h
  | other ht hu => rw [ht, hu]

/-- A kind without synonyms is that of both tokens or of none. -/
theorem kind_iff {k : Kind} (h : t.Counterpart u) (hk : k.hasSynonym = false) :
    t.kind = k ↔ u.kind = k := by
  constructor
  · rintro rfl
    exact (h.kind_eq hk).symm
  · rintro rfl
    exact h.kind_eq (h.hasSynonym_eq.trans hk)

/-- Counterparts are the same operator at every level, if they are one. -/
theorem op?_eq (h : t.Counterpart u) (level : Level) : level.op? t.kind = level.op? u.kind := by
  cases h with
  | same h => exact congrArg (fun w => level.op? w.kind) h
  | other _ _ hop => exact hop level

theorem signOp?_eq (h : t.Counterpart u) : signOp? t.kind = signOp? u.kind := by
  have hnone : ∀ {k : Kind}, k.hasSynonym → signOp? k = none := by
    intro k hk
    cases k with
    | keyword word => cases word <;> cases hk <;> rfl
    | symbol sign => cases sign <;> cases hk <;> rfl
    | _ => rfl
  cases h with
  | same h => exact congrArg (fun w => signOp? w.kind) h
  | other ht hu => rw [hnone ht, hnone hu]

end Counterpart

end Token

/-- A token that has a synonym neither opens, closes nor separates anything. -/
theorem commaInside_hasSynonym {t : Token} {ts : List Token} (depth : Nat)
    (h : t.kind.hasSynonym) : commaInside depth (t :: ts) = commaInside depth ts := by
  refine Grammar.commaInside_neutral depth ?_
  revert h
  cases t.kind with
  | symbol sign => cases sign <;> decide
  | eof => decide
  | _ => exact fun _ => rfl

namespace Synonymous

variable {free : Prop} {t u : Token} {ts us ts' us' : List Token}

/-- Tokens with the same words mean the same. -/
theorem of_words (h : ts.map Token.word = us.map Token.word) : Synonymous free ts us := by
  induction ts generalizing us with
  | nil =>
    cases us with
    | nil => exact .nil
    | cons u us => cases h
  | cons t ts ih =>
    cases us with
    | nil => cases h
    | cons u us =>
      obtain ⟨hword, hrest⟩ := List.cons.inj h
      exact .cons (.same hword) (ih hrest)

theorem append (h : Synonymous free ts us) (h' : Synonymous free ts' us') :
    Synonymous free (ts ++ ts') (us ++ us') := by
  induction h with
  | nil => exact h'
  | cons h _ ih => exact .cons h ih
  | joined hfree ht hu hv _ ih => exact .joined hfree ht hu hv ih

theorem counterpart (h : Synonymous free (t :: ts) (u :: us)) : t.Counterpart u := by
  cases h with
  | cons h => exact h.counterpart
  | joined _ ht hu =>
    refine .other (by rw [ht]; rfl) (by rw [hu]; rfl) fun level => ?_
    rw [ht, hu]
    cases level <;> rfl

/-- A token that is not split has one token for it in the other list. -/
theorem tail (h : Synonymous free (t :: ts) (u :: us)) (ht : t.kind ≠ .keyword .otherwiseWhen) :
    t.Synonym free u ∧ Synonymous free ts us := by
  cases h with
  | cons h hs => exact ⟨h, hs⟩
  | joined _ ht' => exact absurd ht' ht

/-- The mark of the end closes both lists or none. -/
theorem ended (h : Synonymous free ts us) (hts : ∃ t, ts.getLast? = some t ∧ t.kind = .eof) :
    ∃ u, us.getLast? = some u ∧ u.kind = .eof := by
  induction h with
  | nil => exact hts
  | @cons t u ts us h hs ih =>
    cases hs with
    | nil =>
      obtain ⟨_, heq, hk⟩ := hts
      cases heq
      exact ⟨u, rfl, (h.counterpart.kind_iff rfl).1 hk⟩
    | cons => exact ih hts
    | joined => exact ih hts
  | joined _ ht _ _ hs ih =>
    cases hs with
    | nil =>
      obtain ⟨_, heq, hk⟩ := hts
      cases heq
      cases ht.symm.trans hk
    | cons => exact ih hts
    | joined => exact ih hts

/-- Whether a comma comes up does not depend on synonyms. -/
theorem commaInside_eq (h : Synonymous free ts us) (depth : Nat) :
    commaInside depth ts = commaInside depth us := by
  induction h generalizing depth with
  | nil => rfl
  | @cons t u ts us h _ ih =>
    cases h.counterpart with
    | same h =>
      have hkind : t.kind = u.kind := congrArg Word.kind h
      simp only [commaInside, hkind, ih]
    | other ht hu => rw [commaInside_hasSynonym depth ht, commaInside_hasSynonym depth hu, ih]
  | joined _ ht hu hv _ ih =>
    rw [commaInside_hasSynonym depth (by rw [ht]; rfl),
      commaInside_hasSynonym depth (by rw [hu]; rfl),
      Grammar.commaInside_neutral depth (by rw [hv]; rfl), ih]

end Synonymous

namespace Cursor

/-- Behind a token that is not the mark of the end, a look ahead goes one place less far. -/
theorem peek_succ {c : Cursor} (hc : c.Ended) (hk : c.current.kind ≠ .eof) (offset : Nat) :
    c.peek (offset + 1) = c.advance.peek offset := by
  rw [peek, peek, c.last_advance, List.getElem?_cons_succ, (passes_advance hc hk).ahead_eq]
  rfl

/-- A step does not change the list of the tokens. -/
theorem Passes.tokens_eq {c c' : Cursor} {ts : List Token} (h : c.Passes ts c') :
    c'.tokens = c.tokens := by
  show c'.passed.reverse ++ c'.rest = c.passed.reverse ++ c.rest
  rw [h.passed_eq, h.rest_eq, List.reverse_append, List.reverse_reverse, List.append_assoc]

theorem peek_one_eq {c : Cursor} (hc : c.Ended) (hk : c.current.kind ≠ .eof) :
    c.peek 1 = c.advance.current :=
  peek_succ hc hk 0

end Cursor

/-- The complaint is about the order of the tokens, not about the text of a number. -/
def Complaint.isGrammatical : Complaint → Bool
  | notANumber _ => false
  | _ => true

/-- The complaints are the same, but for the word of a keyword that has a synonym. -/
def Complaint.Agrees (free : Prop) (x y : Complaint) : Prop :=
  x = y ∨ free ∧ ∃ word word', x = .expected (.parenAfterKeyword word) ∧
    y = .expected (.parenAfterKeyword word')

/-- Two token lists that are read side by side. -/
structure Spellings (free : Prop) where
  /-- The first list. -/
  first : List Token
  /-- The second list. -/
  second : List Token
  /-- The numbers in the first one are numerals, as those of a text always are. -/
  numerals : ∀ t ∈ first, t.kind = .number → (Numeral.ofLexeme? t.value).isSome

namespace Parser

/-- What follows the first of some items. -/
def furtherItems (item : Parser α) : Nat → α → Parser (List α)
  | 0, first => return [first]
  | fuel + 1, first => do
    if (← accept (.symbol .comma)).isSome then
      return first :: (← commaSeparated item fuel)
    else
      return [first]

variable {item : Parser α} {fuel : Nat} {first : α} {c : Cursor}

/-- Items between commas are a first item and what follows it. -/
theorem commaSeparated_eq (item : Parser α) (fuel : Nat) :
    commaSeparated item fuel = item >>= furtherItems item fuel := by
  cases fuel with
  | zero => rfl
  | succ fuel => rfl

/-- Without a comma there are no further items. -/
theorem furtherItems_of_ne (h : c.current.kind ≠ .symbol .comma) :
    furtherItems item fuel first c = .ok [first] c := by
  cases fuel with
  | zero => rfl
  | succ fuel =>
    rw [furtherItems, bind_of_ok (accept_of_ne h)]
    rfl

/-- Behind a comma there have to be items again. -/
theorem furtherItems_of_comma (h : c.current.kind = .symbol .comma) :
    furtherItems item (fuel + 1) first c =
      (do let _ ← advance; return first :: (← commaSeparated item fuel) : Parser (List α)) c := by
  rw [furtherItems, bind_of_ok (accept_of_eq h), bind_of_ok (advance_eq_ok.2 ⟨rfl, rfl⟩)]
  rfl

end Parser

/-- No expression starts with a token that has a synonym. -/
theorem Parser.primary_of_hasSynonym {x : Parser Expr} {c : Cursor}
    (h : c.current.kind.hasSynonym) : primary x c = fail (.expected .expression) c := by
  rw [primary_run]
  split
  case h_9 word _ _ _ hk =>
    rw [hk] at h
    split
    · next hb => cases word <;> cases h <;> cases hb
    · rfl
  case h_10 => rfl
  all_goals
    next hk =>
      rw [hk] at h
      cases h

namespace Spellings

variable {free : Prop} {L : Spellings free} {t u : Token} {c d : Cursor} {n m i j : Nat}
  {α β : Type}

/-! ## Tokens and cursors side by side -/

/-- The tokens start ends of the lists that mean the same, and what is in front of them means the
same too. -/
def Twins (L : Spellings free) (t u : Token) : Prop :=
  ∃ ts us ts' us', L.first = ts ++ t :: ts' ∧ L.second = us ++ u :: us' ∧
    Synonymous free ts us ∧ Synonymous free (t :: ts') (u :: us')

namespace Twins

theorem counterpart (h : L.Twins t u) : t.Counterpart u := by
  obtain ⟨_, _, _, _, _, _, _, hrest⟩ := h
  exact hrest.counterpart

/-- Every number of the lists can be read. -/
theorem isSome_ofLexeme? (h : L.Twins t u) (hk : t.kind = .number) :
    (Numeral.ofLexeme? t.value).isSome := by
  obtain ⟨ts, _, ts', _, hfirst, _⟩ := h
  refine L.numerals t ?_ hk
  rw [hfirst]
  exact List.mem_append_right _ List.mem_cons_self

end Twins

/-- The cursors stand at twins, with fewer than `n` and `m` tokens ahead. -/
structure Abreast (L : Spellings free) (n m : Nat) (c d : Cursor) : Prop where
  /-- The first one walks over the first list. -/
  first_eq : c.tokens = L.first
  /-- The second one walks over the second list. -/
  second_eq : d.tokens = L.second
  /-- What they have passed means the same. -/
  passed : Synonymous free c.passed.reverse d.passed.reverse
  /-- What is in front of them means the same. -/
  rest : Synonymous free c.rest d.rest
  /-- The bound for the first one. -/
  within : c.Within n
  /-- The bound for the second one. -/
  within' : d.Within m

namespace Abreast

theorem mono (h : L.Abreast i j c d) (hi : i ≤ n) (hj : j ≤ m) : L.Abreast n m c d :=
  { h with within := h.within.mono hi, within' := h.within'.mono hj }

/-- The bounds can be as tight as the tokens ahead allow. -/
theorem tighten (h : L.Abreast i j c d) (hn : c.remaining < n) (hm : d.remaining < m) :
    L.Abreast n m c d :=
  { h with within := ⟨h.within.ended, hn⟩, within' := ⟨h.within'.ended, hm⟩ }

theorem current (h : L.Abreast n m c d) : L.Twins c.current d.current :=
  ⟨_, _, _, _, h.first_eq.symm, h.second_eq.symm, h.passed, h.rest⟩

theorem counterpart (h : L.Abreast n m c d) : c.current.Counterpart d.current :=
  h.current.counterpart

/-- The cursors go on over tokens that mean the same. -/
theorem passes {c' d' : Cursor} {ts us : List Token} (h : L.Abreast n m c d)
    (hpass : c.Passes ts c') (hpass' : d.Passes us d') (hs : Synonymous free ts us)
    (hrest : Synonymous free c'.rest d'.rest) :
    L.Abreast (n - ts.length) (m - us.length) c' d' := by
  refine ⟨hpass.tokens_eq.trans h.first_eq, hpass'.tokens_eq.trans h.second_eq, ?_, hrest,
    h.within.passes hpass, h.within'.passes hpass'⟩
  rw [hpass.passed_eq, hpass'.passed_eq, List.reverse_append, List.reverse_append,
    List.reverse_reverse, List.reverse_reverse]
  exact h.passed.append hs

/-- A step over a token that is neither the mark of the end nor split in the second list. -/
theorem advance (h : L.Abreast n m c d) (hk : c.current.kind ≠ .eof)
    (hw : c.current.kind ≠ .keyword .otherwiseWhen) :
    L.Abreast (n - 1) (m - 1) c.advance d.advance := by
  have hk' : d.current.kind ≠ .eof := mt (h.counterpart.kind_iff rfl).2 hk
  have hpass := Cursor.passes_advance h.within.ended hk
  have hpass' := Cursor.passes_advance h.within'.ended hk'
  have hrest := h.rest
  rw [hpass.rest_eq, hpass'.rest_eq] at hrest
  obtain ⟨hsynonym, htail⟩ := hrest.tail hw
  exact h.passes hpass hpass' (.cons hsynonym .nil) htail

/-- A token of a kind without synonyms can be stepped over. -/
theorem advance_of_kind {k : Kind} (h : L.Abreast n m c d) (hk : c.current.kind = k)
    (hsynonym : k.hasSynonym = false) (hne : k ≠ .eof) :
    L.Abreast (n - 1) (m - 1) c.advance d.advance := by
  refine h.advance (by rwa [hk]) ?_
  rintro heq
  rw [← hk, heq] at hsynonym
  cases hsynonym

/-- Where there is a token to read, there is fuel on both sides. -/
theorem exists_fuel {k l : Nat} (h : L.Abreast n m c d) (hk : c.current.kind ≠ .eof)
    (hn : n ≤ k + 1) (hm : m ≤ l + 1) : ∃ k' l', k = k' + 1 ∧ l = l' + 1 := by
  have hk' : d.current.kind ≠ .eof := mt (h.counterpart.kind_iff rfl).2 hk
  have hlt := h.within.one_lt hk
  have hlt' := h.within'.one_lt hk'
  exact ⟨k - 1, l - 1, by omega, by omega⟩

/-- The tokens behind the current ones match, if those have no synonyms. -/
theorem peek_one (h : L.Abreast n m c d) (hsynonym : c.current.kind.hasSynonym = false)
    (hk : c.current.kind ≠ .eof) : (c.peek 1).Counterpart (d.peek 1) := by
  have hk' : d.current.kind ≠ .eof := mt (h.counterpart.kind_iff rfl).2 hk
  rw [Cursor.peek_one_eq h.within.ended hk, Cursor.peek_one_eq h.within'.ended hk']
  exact (h.advance_of_kind rfl hsynonym hk).counterpart

/-- The lookahead behind the print keyword sees the same. -/
theorem isPrintCall_eq (h : L.Abreast n m c d) (hk : c.current.kind = .keyword .print) :
    c.isPrintCall = d.isPrintCall := by
  have hne : c.current.kind ≠ .eof := by simp [hk]
  have hne' : d.current.kind ≠ .eof := mt (h.counterpart.kind_iff rfl).2 hne
  have hnext := h.advance_of_kind hk rfl (by decide)
  have hone : (c.advance.current.kind = .symbol .openParen) =
      (d.advance.current.kind = .symbol .openParen) := propext (hnext.counterpart.kind_iff rfl)
  have hahead : c.ahead = c.advance.rest := (Cursor.passes_advance h.within.ended hne).ahead_eq
  have hahead' : d.ahead = d.advance.rest := (Cursor.passes_advance h.within'.ended hne').ahead_eq
  rw [Cursor.isPrintCall, Cursor.isPrintCall, Cursor.peek_one_eq h.within.ended hne,
    Cursor.peek_one_eq h.within'.ended hne', hahead, hahead', hnext.rest.commaInside_eq]
  by_cases hopen : d.advance.current.kind = .symbol .openParen
  · have hopen' : c.advance.current.kind = .symbol .openParen := hone.mpr hopen
    have htwo := hnext.peek_one (by rw [hopen']; rfl) (by simp [hopen'])
    rw [Cursor.peek_succ h.within.ended hne, Cursor.peek_succ h.within'.ended hne']
    have hclosed := htwo.kind_iff (k := .symbol .closeParen) rfl
    simp only [hopen, hopen', hclosed]
  · simp [hone, hopen]

end Abreast

/-! ## Parallel readings -/

/-- Two readings have ended alike, with fewer than `n` and `m` tokens ahead. -/
inductive Concur (L : Spellings free) (n m : Nat) (R : α → α → Prop) :
    EStateM.Result ParseError Cursor α → EStateM.Result ParseError Cursor α → Prop where
  /-- Both have read something. -/
  | ok {a b : α} {c d : Cursor} (h : R a b) (hc : L.Abreast n m c d) :
    Concur L n m R (.ok a c) (.ok b d)
  /-- Both complain about twins. -/
  | error {x y : Complaint} {t u : Token} {c d : Cursor} (h : L.Twins t u)
    (hagrees : x.Agrees free y) (hgrammatical : x.isGrammatical) :
    Concur L n m R (.error ⟨x, t.position⟩ c) (.error ⟨y, u.position⟩ d)

theorem Concur.mono {R : α → α → Prop} {x y : EStateM.Result ParseError Cursor α}
    (h : L.Concur i j R x y) (hi : i ≤ n) (hj : j ≤ m) : L.Concur n m R x y := by
  cases h with
  | ok h hc => exact .ok h (hc.mono hi hj)
  | error h hagrees hgrammatical => exact .error h hagrees hgrammatical

/-- From cursors abreast, the readings end alike.  The bounds hold for smaller ones too, so that
nothing gets further from the end than it was. -/
def Parallel (L : Spellings free) (n m : Nat) (R : α → α → Prop) (p q : Parser α) : Prop :=
  ∀ ⦃i j c d⦄, i ≤ n → j ≤ m → L.Abreast i j c d → L.Concur i j R (p c) (q d)

namespace Parallel

variable {R : α → α → Prop} {S : β → β → Prop} {p q : Parser α}

theorem mono (h : L.Parallel n m R p q) (hi : i ≤ n) (hj : j ≤ m) : L.Parallel i j R p q :=
  fun _ _ _ _ hi' hj' hc => h (hi'.trans hi) (hj'.trans hj) hc

theorem pure {a b : α} (h : R a b) : L.Parallel n m R (Pure.pure a) (Pure.pure b) :=
  fun _ _ _ _ _ _ hc => .ok h hc

/-- The parts of two readings may be compared one after the other. -/
theorem bind {f g : α → Parser β} (h : L.Parallel n m R p q)
    (hf : ∀ {a b}, R a b → L.Parallel n m S (f a) (g b)) :
    L.Parallel n m S (p >>= f) (q >>= g) := by
  intro i j c d hi hj hc
  have hcases := h hi hj hc
  show L.Concur i j S (EStateM.bind p f c) (EStateM.bind q g d)
  rw [EStateM.bind, EStateM.bind]
  generalize p c = x at hcases
  generalize q d = y at hcases
  cases hcases with
  | ok hab hc' => exact hf hab hi hj hc'
  | error htwins hagrees hgrammatical => exact .error htwins hagrees hgrammatical

theorem map {f g : α → β} (h : L.Parallel n m R p q) (hf : ∀ {a b}, R a b → S (f a) (g b)) :
    L.Parallel n m S (f <$> p) (g <$> q) := by
  have hmap : ∀ (f : α → β) (x : Parser α), f <$> x = x >>= fun a => Pure.pure (f a) :=
    fun _ _ => rfl
  rw [hmap, hmap]
  exact h.bind fun hab => .pure (hf hab)

/-- A reading that takes one of two ways takes the same on both sides. -/
theorem ite {P Q : Prop} [Decidable P] [Decidable Q] {p' q' : Parser α} (h : P ↔ Q)
    (hp : L.Parallel n m R p q) (hq : L.Parallel n m R p' q') :
    L.Parallel n m R (if P then p else p') (if Q then q else q') := by
  by_cases hQ : Q
  · rwa [if_pos hQ, if_pos (h.2 hQ)]
  · rwa [if_neg hQ, if_neg (mt h.1 hQ)]

theorem failAt {x : Complaint} (h : L.Twins t u) (hx : x.isGrammatical) :
    L.Parallel n m R (Parser.failAt t x) (Parser.failAt u x) :=
  fun _ _ _ _ _ _ _ => .error h (.inl rfl) hx

theorem fail {x : Complaint} (hx : x.isGrammatical) :
    L.Parallel n m R (Parser.fail x) (Parser.fail x) :=
  fun _ _ _ _ _ _ hc => .error hc.current (.inl rfl) hx

/-- Twins are both of a kind without synonyms, or none of them is. -/
theorem isAt {k : Kind} (hk : k.hasSynonym = false) :
    L.Parallel n m Eq (Parser.isAt k) (Parser.isAt k) :=
  fun _ _ _ _ _ _ hc => .ok (decide_eq_decide.2 (hc.counterpart.kind_iff hk)) hc

/-- Each reading takes its fuel from its own cursor. -/
theorem remaining {f g : Nat → Parser α}
    (h : ∀ k l, L.Parallel (min (k + 1) n) (min (l + 1) m) R (f k) (g l)) :
    L.Parallel n m R (Parser.remaining >>= f) (Parser.remaining >>= g) := by
  intro i j c d hi hj hc
  have hlt := hc.within.lt
  have hlt' := hc.within'.lt
  have htight : L.Abreast (c.remaining + 1) (d.remaining + 1) c d :=
    hc.tighten (Nat.lt_succ_self _) (Nat.lt_succ_self _)
  exact (h c.remaining d.remaining (by omega) (by omega) htight).mono hlt hlt'

/-- A token that has to stand here, and what follows it. -/
theorem demand {k : Kind} {x y : Complaint} {f g : Token → Parser β} (hk : k.hasSynonym = false)
    (hne : k ≠ .eof) (hagrees : x.Agrees free y) (hx : x.isGrammatical)
    (h : ∀ {t u}, L.Twins t u → t.value = u.value → L.Parallel (n - 1) (m - 1) S (f t) (g u)) :
    L.Parallel n m S (Parser.demand k x >>= f) (Parser.demand k y >>= g) := by
  intro i j c d hi hj hc
  by_cases hkind : c.current.kind = k
  · have hkind' := (hc.counterpart.kind_iff hk).1 hkind
    rw [Parser.bind_of_ok (Parser.demand_eq_ok.2 ⟨hkind, rfl, rfl⟩),
      Parser.bind_of_ok (Parser.demand_eq_ok.2 ⟨hkind', rfl, rfl⟩)]
    have hvalue := hc.counterpart.value_eq (by rwa [hkind])
    exact (h hc.current hvalue (by omega) (by omega) (hc.advance_of_kind hkind hk hne)).mono
      (Nat.sub_le _ _) (Nat.sub_le _ _)
  · have hkind' := mt (hc.counterpart.kind_iff hk).2 hkind
    rw [Parser.bind_of_error (Parser.demand_of_ne hkind),
      Parser.bind_of_error (Parser.demand_of_ne hkind')]
    exact .error hc.current hagrees hx

theorem expect {k : Kind} {what : Expectation} {f g : Token → Parser β}
    (hk : k.hasSynonym = false) (hne : k ≠ .eof)
    (h : ∀ {t u}, L.Twins t u → t.value = u.value → L.Parallel (n - 1) (m - 1) S (f t) (g u)) :
    L.Parallel n m S (Parser.expect k what >>= f) (Parser.expect k what >>= g) :=
  demand hk hne (.inl rfl) rfl h

/-- A token that may be missing, and what follows it. -/
theorem accept {k : Kind} {f g : Option Token → Parser β} (hk : k.hasSynonym = false)
    (hne : k ≠ .eof)
    (hsome : ∀ t u, L.Parallel (n - 1) (m - 1) S (f (some t)) (g (some u)))
    (hnone : L.Parallel n m S (f none) (g none)) :
    L.Parallel n m S (Parser.accept k >>= f) (Parser.accept k >>= g) := by
  intro i j c d hi hj hc
  by_cases hkind : c.current.kind = k
  · have hkind' := (hc.counterpart.kind_iff hk).1 hkind
    rw [Parser.bind_of_ok (Parser.accept_of_eq hkind),
      Parser.bind_of_ok (Parser.accept_of_eq hkind')]
    exact (hsome _ _ (by omega) (by omega) (hc.advance_of_kind hkind hk hne)).mono
      (Nat.sub_le _ _) (Nat.sub_le _ _)
  · have hkind' := mt (hc.counterpart.kind_iff hk).2 hkind
    rw [Parser.bind_of_ok (Parser.accept_of_ne hkind),
      Parser.bind_of_ok (Parser.accept_of_ne hkind')]
    exact hnone hi hj hc

end Parallel

/-- A step over a token that is neither the mark of the end nor split, and what follows it. -/
theorem Concur.step {S : β → β → Prop} {f g : Token → Parser β} (hc : L.Abreast i j c d)
    (hi : i ≤ n) (hj : j ≤ m)
    (hk : c.current.kind ≠ .eof) (hw : c.current.kind ≠ .keyword .otherwiseWhen)
    (h : L.Parallel (n - 1) (m - 1) S (f c.current) (g d.current)) :
    L.Concur i j S ((Parser.advance >>= f) c) ((Parser.advance >>= g) d) :=
  (h (Nat.sub_le_sub_right hi 1) (Nat.sub_le_sub_right hj 1) (hc.advance hk hw)).mono
    (Nat.sub_le _ _) (Nat.sub_le _ _)

/-! ## Items between commas -/

section Items

variable {R : α → α → Prop} {p q : Parser α}

/-- Each side has fuel for the items that its own tokens allow. -/
theorem commaSeparated_parallel {k l : Nat} (hk : n ≤ k + 1) (hl : m ≤ l + 1)
    (h : L.Parallel n m R p q) : L.Parallel n m (List.Forall₂ R)
      (Parser.commaSeparated p k) (Parser.commaSeparated q l) := by
  induction k using Nat.strong_induction_on generalizing l n m with
  | _ k ih =>
    rw [Parser.commaSeparated_eq, Parser.commaSeparated_eq]
    refine .bind h fun {a b} hab => ?_
    intro i j c d hi hj hc
    by_cases hcomma : c.current.kind = .symbol .comma
    · have hcomma' := (hc.counterpart.kind_iff rfl).1 hcomma
      obtain ⟨k, l, rfl, rfl⟩ := hc.exists_fuel (k := k) (l := l) (by simp [hcomma]) (by omega)
        (by omega)
      rw [Parser.furtherItems_of_comma hcomma, Parser.furtherItems_of_comma hcomma']
      have hrest : L.Parallel (n - 1) (m - 1) (List.Forall₂ R) (Parser.commaSeparated p k)
          (Parser.commaSeparated q l) := ih k (Nat.lt_succ_self k) (by omega) (by omega)
        (h.mono (Nat.sub_le _ _) (Nat.sub_le _ _))
      exact .step hc hi hj (by simp [hcomma]) (by simp [hcomma])
        (.bind hrest fun hs => .pure (.cons hab hs))
    · have hcomma' := mt (hc.counterpart.kind_iff rfl).2 hcomma
      rw [Parser.furtherItems_of_ne hcomma, Parser.furtherItems_of_ne hcomma']
      exact .ok (.cons hab .nil) hc

theorem itemsUntil_parallel {close : Kind} (hclose : close.hasSynonym = false)
    (h : L.Parallel n m R p q) : L.Parallel n m (List.Forall₂ R)
      (Parser.itemsUntil close p) (Parser.itemsUntil close q) := by
  refine .bind (.isAt hclose) ?_
  rintro b _ rfl
  refine .ite Iff.rfl (.pure .nil) (.remaining fun k l => ?_)
  exact commaSeparated_parallel (Nat.min_le_left _ _) (Nat.min_le_left _ _)
    (h.mono (Nat.min_le_right _ _) (Nat.min_le_right _ _))

end Items

/-! ## Expressions -/

theorem constant_concurs {v : Value} (hc : L.Abreast i j c d)
    (hsynonym : c.current.kind.hasSynonym = false) (hk : c.current.kind ≠ .eof) :
    L.Concur i j Expr.Relined (Parser.constant v c) (Parser.constant v d) :=
  .ok (.literal (hc.counterpart.value_eq hsynonym))
    ((hc.advance_of_kind rfl hsynonym hk).mono (Nat.sub_le _ _) (Nat.sub_le _ _))

/-- A number is read at a number token only. -/
theorem numberLiteral_concurs (hc : L.Abreast i j c d) (hk : c.current.kind = .number) :
    L.Concur i j Expr.Relined (Parser.numberLiteral c) (Parser.numberLiteral d) := by
  obtain ⟨x, hx⟩ := Option.isSome_iff_exists.1 (hc.current.isSome_ofLexeme? hk)
  have hvalue : c.current.value = d.current.value := hc.counterpart.value_eq (by rw [hk]; rfl)
  have hread (c : Cursor) (hx : Numeral.ofLexeme? c.current.value = some x) :
      Parser.numberLiteral c =
        .ok (.literal (some c.current.line) (.number x) c.current.value) c.advance := by
    rw [Parser.numberLiteral, Parser.bind_eq_ok]
    exact ⟨_, _, Parser.advance_eq_ok.2 ⟨rfl, rfl⟩, by rw [hx]; rfl⟩
  rw [hread c hx, hread d (by rw [← hvalue, hx])]
  exact .ok (.literal hvalue)
    ((hc.advance_of_kind hk rfl (by decide)).mono (Nat.sub_le _ _) (Nat.sub_le _ _))

section Expressions

variable {x y : Parser Expr} (h : L.Parallel n m Expr.Relined x y)
include h

/-- The arguments on the two sides are related one by one. -/
theorem arguments_parallel : L.Parallel (n + 1) (m + 1) (List.Forall₂ Expr.Relined)
    (Parser.arguments x) (Parser.arguments y) :=
  .expect rfl (by decide) fun _ _ => .bind (itemsUntil_parallel rfl h) fun hargs =>
    .expect rfl (by decide) fun _ _ => .pure hargs

theorem nameOrCall_concurs (hc : L.Abreast i j c d) (hi : i ≤ n + 1) (hj : j ≤ m + 1)
    (hk : c.current.kind = .identifier) :
    L.Concur i j Expr.Relined (Parser.nameOrCall x c) (Parser.nameOrCall y d) := by
  have hvalue : c.current.value = d.current.value := hc.counterpart.value_eq (by rw [hk]; rfl)
  refine .step hc hi hj (by simp [hk]) (by simp [hk]) (.bind (.isAt rfl) ?_)
  rintro b _ rfl
  have hargs := (arguments_parallel h).mono (Nat.le_succ n) (Nat.le_succ m)
  exact .ite Iff.rfl (.bind hargs fun hargs => .pure (.call hvalue hargs)) (.pure (.name hvalue))

theorem builtinCall_concurs {b : Builtin} (hc : L.Abreast i j c d) (hi : i ≤ n + 1)
    (hj : j ≤ m + 1) (hsynonym : c.current.kind.hasSynonym = false) (hk : c.current.kind ≠ .eof) :
    L.Concur i j Expr.Relined (Parser.builtinCall x b c) (Parser.builtinCall y b d) := by
  have hnext := hc.peek_one hsynonym hk
  rw [Parser.builtinCall_run, Parser.builtinCall_run]
  by_cases hopen : (c.peek 1).kind = .symbol .openParen
  · rw [if_pos hopen, if_pos ((hnext.kind_iff rfl).1 hopen)]
    have hw : c.current.kind ≠ .keyword .otherwiseWhen := by
      intro heq
      rw [heq] at hsynonym
      cases hsynonym
    have hargs := (arguments_parallel h).mono (Nat.le_succ n) (Nat.le_succ m)
    exact .step hc hi hj hk hw (.bind hargs fun hargs => .pure (.call rfl hargs))
  · rw [if_neg hopen, if_neg (mt (hnext.kind_iff rfl).2 hopen)]
    exact Parallel.fail rfl hi hj hc

theorem listLiteral_concurs (hc : L.Abreast i j c d) (hi : i ≤ n + 1) (hj : j ≤ m + 1)
    (hk : c.current.kind = .symbol .openBracket) :
    L.Concur i j Expr.Relined (Parser.listLiteral x c) (Parser.listLiteral y d) :=
  .step hc hi hj (by simp [hk]) (by simp [hk]) (.bind (itemsUntil_parallel rfl h) fun hes =>
    .expect rfl (by decide) fun _ _ => .pure (.list hes))

theorem group_concurs (hc : L.Abreast i j c d) (hi : i ≤ n + 1) (hj : j ≤ m + 1)
    (hk : c.current.kind = .symbol .openParen) :
    L.Concur i j Expr.Relined (Parser.group x c) (Parser.group y d) :=
  .step hc hi hj (by simp [hk]) (by simp [hk]) (.bind h fun he =>
    .expect rfl (by decide) fun _ _ => .pure he)

/-- The kind of the current token decides on the way, and on both sides it decides alike. -/
theorem primary_parallel :
    L.Parallel (n + 1) (m + 1) Expr.Relined (Parser.primary x) (Parser.primary y) := by
  intro i j c d hi hj hc
  cases hsynonym : c.current.kind.hasSynonym with
  | true =>
    have hsynonym' : d.current.kind.hasSynonym := hc.counterpart.hasSynonym_eq.symm.trans hsynonym
    rw [Parser.primary_of_hasSynonym hsynonym, Parser.primary_of_hasSynonym hsynonym']
    exact Parallel.fail rfl hi hj hc
  | false =>
    rw [Parser.primary_run, Parser.primary_run, ← hc.counterpart.kind_eq hsynonym,
      ← hc.counterpart.value_eq hsynonym]
    split
    · next hk => exact constant_concurs hc hsynonym (by simp [hk])
    · next hk => exact constant_concurs hc hsynonym (by simp [hk])
    · next hk => exact constant_concurs hc hsynonym (by simp [hk])
    · next hk => exact numberLiteral_concurs hc hk
    · next hk => exact constant_concurs hc hsynonym (by simp [hk])
    · next hk => exact nameOrCall_concurs h hc hi hj hk
    · next hk => exact listLiteral_concurs h hc hi hj hk
    · next hk => exact group_concurs h hc hi hj hk
    · next word _ _ _ hk =>
      split
      · exact builtinCall_concurs h hc hi hj hsynonym (by simp [hk])
      · exact Parallel.fail rfl hi hj hc
    · exact Parallel.fail rfl hi hj hc

/-- Indexes and properties go to targets that differ in their lines at most. -/
theorem accessors_parallel {k l : Nat} (hk : n ≤ k) (hl : m ≤ l) {e e' : Expr}
    (he : e.Relined e') : L.Parallel (n + 1) (m + 1) Expr.Relined
      (Parser.accessors x k e) (Parser.accessors y l e') := by
  induction k using Nat.strong_induction_on generalizing l n m e e' with
  | _ k ih =>
    intro i j c d hi hj hc
    have hnext {k' l' : Nat} (hlt : k' < k) (hk' : n ≤ k' + 1) (hl' : m ≤ l' + 1) {e e' : Expr}
        (he : e.Relined e') : L.Parallel (n - 1) (m - 1) Expr.Relined (Parser.accessors x k' e)
          (Parser.accessors y l' e') :=
      (ih k' hlt (h.mono (Nat.sub_le n 1) (Nat.sub_le m 1)) (by omega) (by omega) he).mono
        (Nat.le_succ _) (Nat.le_succ _)
    by_cases hbracket : c.current.kind = .symbol .openBracket
    · obtain ⟨k, l, rfl, rfl⟩ := hc.exists_fuel (k := k) (l := l) (by simp [hbracket]) (by omega)
        (by omega)
      rw [Parser.accessors_of_bracket hbracket,
        Parser.accessors_of_bracket ((hc.counterpart.kind_iff rfl).1 hbracket)]
      exact .step hc hi hj (by simp [hbracket]) (by simp [hbracket]) (.bind h fun hposition =>
        .expect rfl (by decide) fun _ _ =>
          hnext (Nat.lt_succ_self k) hk hl (.index he hposition))
    by_cases hdot : c.current.kind = .symbol .dot
    · obtain ⟨k, l, rfl, rfl⟩ := hc.exists_fuel (k := k) (l := l) (by simp [hdot]) (by omega)
        (by omega)
      rw [Parser.accessors_of_dot hdot,
        Parser.accessors_of_dot ((hc.counterpart.kind_iff rfl).1 hdot)]
      exact .step hc hi hj (by simp [hdot]) (by simp [hdot]) (.expect rfl (by decide)
        fun _ hname => hnext (Nat.lt_succ_self k) hk hl (.property he hname))
    · have hbracket' := mt (hc.counterpart.kind_iff rfl).2 hbracket
      have hdot' := mt (hc.counterpart.kind_iff rfl).2 hdot
      rw [Parser.accessors_of_stops ⟨hbracket, hdot⟩, Parser.accessors_of_stops ⟨hbracket', hdot'⟩]
      exact .ok he hc

theorem postfixed_parallel :
    L.Parallel (n + 1) (m + 1) Expr.Relined (Parser.postfixed x) (Parser.postfixed y) := by
  refine .bind (primary_parallel h) fun he => .remaining fun k l => ?_
  have hless := h.mono (Nat.min_le_right k n) (Nat.min_le_right l m)
  exact (accessors_parallel hless (Nat.min_le_left _ _) (Nat.min_le_left _ _) he).mono (by omega)
    (by omega)

/-- A sign passes a token on each side, so it leaves fuel for its operand. -/
theorem signed_parallel {k l : Nat} (hk : n ≤ k) (hl : m ≤ l) :
    L.Parallel (n + 1) (m + 1) Expr.Relined (Parser.signed x k) (Parser.signed y l) := by
  induction k using Nat.strong_induction_on generalizing l n m with
  | _ k ih =>
    intro i j c d hi hj hc
    cases hop : signOp? c.current.kind with
    | none =>
      have hop' : signOp? d.current.kind = none := by rw [← hc.counterpart.signOp?_eq, hop]
      rw [Parser.signed_of_none hop, Parser.signed_of_none hop']
      exact postfixed_parallel h hi hj hc
    | some op =>
      have hop' : signOp? d.current.kind = some op := by rw [← hc.counterpart.signOp?_eq, hop]
      have hne : c.current.kind ≠ .eof := fun heq => by rw [heq] at hop; cases hop
      have hw : c.current.kind ≠ .keyword .otherwiseWhen := fun heq => by rw [heq] at hop; cases hop
      obtain ⟨k, l, rfl, rfl⟩ := hc.exists_fuel (k := k) (l := l) hne (by omega) (by omega)
      have hnext := ih k (Nat.lt_succ_self k) (l := l)
        (h.mono (Nat.sub_le n 1) (Nat.sub_le m 1)) (by omega) (by omega)
      rw [Parser.signed_of_some hop, Parser.signed_of_some hop']
      exact .step hc hi hj hne hw (.bind (hnext.mono (by omega) (by omega)) fun he =>
        .pure (.unary he))

theorem unary_parallel :
    L.Parallel (n + 1) (m + 1) Expr.Relined (Parser.unary x) (Parser.unary y) := by
  refine .remaining fun k l => ?_
  have hless := h.mono (Nat.min_le_right k n) (Nat.min_le_right l m)
  exact (signed_parallel hless (Nat.min_le_left _ _) (Nat.min_le_left _ _)).mono (by omega)
    (by omega)

/-- The operators of a level are the same on both sides, whichever way they are spelled. -/
theorem chain_parallel (level : Level) {k l : Nat} (hk : n ≤ k + 1) (hl : m ≤ l + 1) {e e' : Expr}
    (he : e.Relined e') : L.Parallel n m Expr.Relined
      (Parser.chain level x k e) (Parser.chain level y l e') := by
  induction k using Nat.strong_induction_on generalizing l n m e e' with
  | _ k ih =>
    intro i j c d hi hj hc
    cases hop : level.op? c.current.kind with
    | none =>
      have hop' : level.op? d.current.kind = none := by rw [← hc.counterpart.op?_eq, hop]
      rw [Parser.chain_of_stops hop, Parser.chain_of_stops hop']
      exact .ok he hc
    | some op =>
      have hop' : level.op? d.current.kind = some op := by rw [← hc.counterpart.op?_eq, hop]
      have hne : c.current.kind ≠ .eof := fun heq => by
        rw [heq] at hop
        cases level <;> cases hop
      have hw : c.current.kind ≠ .keyword .otherwiseWhen := fun heq => by
        rw [heq] at hop
        cases level <;> cases hop
      obtain ⟨k, l, rfl, rfl⟩ := hc.exists_fuel (k := k) (l := l) hne (by omega) (by omega)
      have hless := h.mono (Nat.sub_le n 1) (Nat.sub_le m 1)
      rw [Parser.chain_of_some hop, Parser.chain_of_some hop']
      exact .step hc hi hj hne hw (.bind hless fun hright =>
        ih k (Nat.lt_succ_self k) hless (by omega) (by omega) (.binary he hright))

theorem joined_parallel (level : Level) :
    L.Parallel n m Expr.Relined (Parser.joined level x) (Parser.joined level y) := by
  refine .bind h fun he => .remaining fun k l => ?_
  exact chain_parallel (h.mono (Nat.min_le_right _ _) (Nat.min_le_right _ _)) level
    (Nat.min_le_left _ _) (Nat.min_le_left _ _) he

theorem disjunction_parallel : L.Parallel (n + 1) (m + 1) Expr.Relined (Parser.disjunction x)
    (Parser.disjunction y) :=
  have hproduct := joined_parallel (unary_parallel h) .product
  have hrelation := joined_parallel (joined_parallel hproduct .sum) .relation
  have hconjunction := joined_parallel (joined_parallel hrelation .equality) .conjunction
  joined_parallel hconjunction .disjunction

end Expressions

/-- The two sides may have different fuel, as long as each has enough for its tokens. -/
theorem expressionWithin_parallel (n m : Nat) : L.Parallel n m Expr.Relined
    (Parser.expressionWithin n) (Parser.expressionWithin m) := by
  induction n generalizing m with
  | zero => exact fun _ _ _ _ hi _ hc => absurd (hc.within.mono hi) Cursor.Within.not_zero
  | succ n ih =>
    cases m with
    | zero => exact fun _ _ _ _ _ hj hc => absurd (hc.within'.mono hj) Cursor.Within.not_zero
    | succ m => exact disjunction_parallel (ih m)

theorem expression_parallel :
    L.Parallel n m Expr.Relined Parser.expression Parser.expression := by
  refine .remaining fun k l => ?_
  exact (expressionWithin_parallel (k + 1) (l + 1)).mono (Nat.min_le_left _ _) (Nat.min_le_left _ _)

end Spellings

end Boli
