import Boli.Proofs.Rescanning

/-!
# Writing a program and reading it again

The words of a well-formed tree can be written side by side: each of them is writable, and no two
names meet.  So the text of a well-formed program is scanned into its words, from which the grammar
derives the program.  Only the lines are new.
-/

namespace Boli

namespace Word

/-- What can be written behind a name can be written anywhere. -/
theorem Flows.weaken {named : Bool} {ws : List Word} (h : Flows named ws) : Flows false ws := by
  cases ws with
  | nil => trivial
  | cons w ws => exact ⟨h.1, by simp, h.2.2⟩

theorem flows_symbol {named : Bool} {sign : Symbol} {ws : List Word} (h : Flows false ws) :
    Flows named (.symbol sign :: ws) :=
  ⟨decide_eq_true rfl, fun _ => by simp [symbol], h⟩

theorem admits_spelling (word : Keyword) : (Kind.keyword word).admits word.spelling.toList := by
  cases word <;> decide

theorem flows_keyword {named : Bool} {word : Keyword} {ws : List Word} (h : Flows false ws) :
    Flows named (.keyword word :: ws) :=
  ⟨admits_spelling word, fun _ => by simp [keyword], h⟩

/-- A name can be written if no name stands in front of it. -/
theorem flows_name {name : String} {ws : List Word} (hname : IsName name) (h : Flows true ws) :
    Flows false (.spelled name :: ws) := by
  have hkind : (spelled name).kind = .identifier := wordKind_of_isName hname
  refine ⟨?_, by simp, ?_⟩
  · rw [Writable, hkind]
    exact hname
  · rw [hkind]
    exact h

/-- A keyword is a word in any mixture of cases. -/
theorem isWord_of_ofWord? {cs : List Char} {word : Keyword} (h : Keyword.ofWord? cs = some word) :
    Lexeme.isWord cs := by
  have hspelling := List.find?_some h
  simp only [beq_iff_eq] at hspelling
  have hletters : ∀ c ∈ cs, c.isAlpha := by
    intro c hc
    have halpha : (word.spelling.toList.map Char.toLower).all Char.isAlpha := by
      cases word <;> decide
    have hmem : c.toLower ∈ word.spelling.toList.map Char.toLower := by
      rw [hspelling]
      exact List.mem_map_of_mem hc
    exact Lexeme.isAlpha_of_toLower (List.all_eq_true.mp halpha _ hmem)
  cases cs with
  | nil => cases word <;> cases hspelling
  | cons c cs =>
    have hstarts : Lexeme.startsWord c := by simp [Lexeme.startsWord, hletters c (.head _)]
    have hcontinues : ∀ d ∈ cs, Lexeme.continuesWord d := by
      intro d hd
      simp [Lexeme.continuesWord, Char.isAlphanum, hletters d (.tail _ hd)]
    simpa [Lexeme.isWord, hstarts] using hcontinues

/-- A keyword in any mixture of cases. -/
theorem flows_spelled {named : Bool} {raw : String} {word : Keyword} {ws : List Word}
    (hraw : Keyword.ofWord? raw.toList = some word) (h : Flows false ws) :
    Flows named (.spelled raw :: ws) := by
  have hkind : (spelled raw).kind = .keyword word := wordKind_of_ofWord? hraw
  refine ⟨?_, fun _ => ?_, ?_⟩
  · rw [Writable, hkind]
    simp only [Kind.admits, Bool.and_eq_true, decide_eq_true_eq]
    exact ⟨isWord_of_ofWord? hraw, hraw⟩
  · rw [hkind]
    simp
  · rw [hkind]
    exact h

end Word

/-! ## Expressions -/

/-- The expression can be written in front of everything that may follow a name. -/
def Expr.Flows (e : Expr) : Prop :=
  ∀ rest, Word.Flows true rest → Word.Flows false (e.words ++ rest)

/-- Parentheses around an operand separate it from names. -/
theorem Expr.Flows.enclosed {e : Expr} (h : e.Flows) {place : Rank} {rest : List Word}
    (hrest : Word.Flows true rest) :
    Word.Flows false (Expr.enclose place e.rank e.words ++ rest) := by
  rw [Expr.enclose]
  split
  · exact h _ hrest
  · rw [List.cons_append, List.append_assoc]
    exact Word.flows_symbol (h _ (Word.flows_symbol hrest.weaken))

/-- Commas separate expressions. -/
theorem flows_wordsAll {es : List Expr} (h : ∀ e ∈ es, e.Flows) {rest : List Word}
    (hrest : Word.Flows true rest) : Word.Flows false (Expr.wordsAll es ++ rest) := by
  induction es with
  | nil => exact hrest.weaken
  | cons e es ih =>
    cases es with
    | nil => exact h e (.head _) _ hrest
    | cons f fs =>
      rw [Expr.wordsAll, List.append_assoc]
      · exact h e (.head _) _ (Word.flows_symbol (ih fun c hc => h c (.tail _ hc)))
      · simp

/-- An operator of the language has a word that is no name. -/
theorem flows_op {named : Bool} {op : Op} {ws : List Word} (hop : ∀ symbol, op ≠ .other symbol)
    (h : Word.Flows false ws) : Word.Flows named (op.word :: ws) := by
  cases op with
  | and | or | not => exact Word.flows_keyword h
  | other symbol => exact absurd rfl (hop symbol)
  | _ => exact Word.flows_symbol h

/-- A constant can be written as it was spelled. -/
theorem flows_constant {v : Value} {raw : String} {ws : List Word} (hv : v.IsSpelled raw)
    (h : Word.Flows true ws) : Word.Flows false (Expr.constantWord v raw :: ws) := by
  cases v with
  | number x => exact ⟨hv.1, by simp, h.weaken⟩
  | text s => exact ⟨rfl, by simp, h.weaken⟩
  | boolean b => exact Word.flows_spelled hv h.weaken
  | null => exact Word.flows_spelled hv h.weaken
  | list | function | foreign => exact hv.elim

theorem flows_callee {name : String} {ws : List Word}
    (hname : IsName name ∨ ∃ b : Builtin, name = b.name) (h : Word.Flows true ws) :
    Word.Flows false (.spelled name :: ws) := by
  rcases hname with hname | ⟨b, rfl⟩
  · exact Word.flows_name hname h
  · have hword : ∃ word, Keyword.ofWord? b.name.toList = some word := by
      cases b <;> exact ⟨_, rfl⟩
    obtain ⟨word, hword⟩ := hword
    exact Word.flows_spelled hword h.weaken

/-- Every expression of a well-formed tree can be written. -/
theorem flows_of_proper {e : Expr} (h : e.Everywhere Expr.Proper) : e.Flows := by
  induction h with
  | @intro e here _ ih =>
    intro rest hrest
    cases e with
    | literal line v raw =>
      rw [Expr.words]
      exact flows_constant here hrest
    | name line id =>
      rw [Expr.words]
      exact Word.flows_name here hrest
    | binary line op l r =>
      rw [Expr.words, List.append_assoc]
      refine (ih l (.head _)).enclosed (flows_op ?_ ((ih r (.tail _ (.head _))).enclosed hrest))
      rintro symbol rfl
      simp [Expr.Proper, Op.binaries] at here
    | unary line op a =>
      rw [Expr.words]
      refine flows_op ?_ ((ih a (.head _)).enclosed hrest)
      rintro symbol rfl
      simp [Expr.Proper] at here
    | call line callee args =>
      rw [Expr.words, List.cons_append, List.cons_append, List.append_assoc]
      exact flows_callee here
        (Word.flows_symbol (flows_wordsAll ih (Word.flows_symbol hrest.weaken)))
    | index line e i =>
      rw [Expr.words, List.append_assoc, List.cons_append, List.append_assoc]
      exact (ih e (.head _)).enclosed
        (Word.flows_symbol (ih i (.tail _ (.head _)) _ (Word.flows_symbol hrest.weaken)))
    | property line e n =>
      rw [Expr.words, List.append_assoc]
      exact (ih e (.head _)).enclosed (Word.flows_symbol (Word.flows_name here hrest))
    | list line es =>
      rw [Expr.words, List.cons_append, List.append_assoc]
      exact Word.flows_symbol (flows_wordsAll ih (Word.flows_symbol hrest.weaken))
    | misplaced => exact here.elim

/-! ## Statements -/

/-- The statement can be written in front of everything that may follow a semicolon. -/
def Stmt.Flows (s : Stmt) : Prop :=
  ∀ rest, Word.Flows false rest → Word.Flows false (s.words ++ rest)

theorem flows_value {e : Expr} (he : e.Everywhere Expr.Proper) {rest : List Word}
    (hrest : Word.Flows false rest) :
    Word.Flows false (e.words ++ [.symbol .semicolon] ++ rest) := by
  rw [List.append_assoc]
  exact flows_of_proper he _ (Word.flows_symbol hrest)

/-- Statements end with a semicolon or a brace, so any word may follow. -/
theorem flows_statements {ss : List Stmt} (h : ∀ s ∈ ss, s.Flows) {rest : List Word}
    (hrest : Word.Flows false rest) : Word.Flows false (Stmt.wordsAll ss ++ rest) := by
  induction ss with
  | nil => exact hrest
  | cons s ss ih =>
    rw [Stmt.wordsAll, List.append_assoc]
    exact h s (.head _) _ (ih fun c hc => h c (.tail _ hc))

theorem flows_block {b : Block} (h : ∀ s ∈ b.statements, s.Flows) {rest : List Word}
    (hrest : Word.Flows false rest) : Word.Flows false (b.words ++ rest) := by
  obtain ⟨line, ss⟩ := b
  rw [Block.words, List.cons_append, List.append_assoc]
  exact Word.flows_symbol (flows_statements h (Word.flows_symbol hrest))

theorem flows_names {ns : List String} (h : ∀ n ∈ ns, IsName n) {rest : List Word}
    (hrest : Word.Flows true rest) : Word.Flows false (Word.names ns ++ rest) := by
  induction ns with
  | nil => exact hrest.weaken
  | cons n ns ih =>
    cases ns with
    | nil => exact Word.flows_name (h n (.head _)) hrest
    | cons m ms =>
      rw [Word.names, List.cons_append, List.cons_append]
      · exact Word.flows_name (h n (.head _))
          (Word.flows_symbol (ih fun c hc => h c (.tail _ hc)))
      · simp

/-- A condition in its parentheses. -/
theorem flows_condition {e : Expr} (he : e.Everywhere Expr.Proper) {rest : List Word}
    (hrest : Word.Flows false rest) :
    Word.Flows false (.symbol .openParen :: (e.words ++ .symbol .closeParen :: rest)) :=
  Word.flows_symbol (flows_of_proper he _ (Word.flows_symbol hrest))

/-- Every statement of a well-formed tree can be written. -/
theorem stmt_flows_of_proper {s : Stmt} (h : s.Everywhere Expr.Proper Stmt.Proper) : s.Flows := by
  induction h with
  | @intro s here exprs _ ih =>
    intro rest hrest
    cases s with
    | declare line n initial =>
      cases initial with
      | none =>
        exact Word.flows_keyword (Word.flows_name here (Word.flows_symbol hrest))
      | some e =>
        exact Word.flows_keyword (Word.flows_name here
          (Word.flows_symbol (flows_value (exprs e (.head _)) hrest)))
    | assign line n e =>
      rw [Stmt.words]
      exact Word.flows_name here (Word.flows_symbol (flows_value (exprs e (.head _)) hrest))
    | print line es =>
      rw [Stmt.words, List.cons_append, List.append_assoc]
      exact Word.flows_keyword (flows_wordsAll (fun e he => flows_of_proper (exprs e he))
        (Word.flows_symbol hrest))
    | block b =>
      rw [Stmt.words]
      exact flows_block ih hrest
    | branch line e s alternate =>
      have hs := ih s (.head _)
      cases alternate with
      | none =>
        simp only [Stmt.words, List.cons_append, List.append_assoc, List.nil_append]
        exact Word.flows_keyword (flows_condition (exprs e (.head _)) (hs _ hrest))
      | some a =>
        have ha := ih a (.tail _ (.head _)) _ hrest
        simp only [Stmt.words, List.cons_append, List.append_assoc]
        exact Word.flows_keyword (flows_condition (exprs e (.head _))
          (hs _ (Word.flows_keyword ha)))
    | loop line e b =>
      simp only [Stmt.words, List.cons_append, List.append_assoc]
      exact Word.flows_keyword (flows_condition (exprs e (.head _)) (flows_block ih hrest))
    | function line n ps b =>
      obtain ⟨hn, hps, _⟩ := here
      simp only [Stmt.words, List.cons_append, List.append_assoc]
      exact Word.flows_keyword (Word.flows_name hn (Word.flows_symbol
        (flows_names hps (Word.flows_symbol (flows_block ih hrest)))))
    | giveBack line value =>
      cases value with
      | none => exact Word.flows_keyword (Word.flows_symbol hrest)
      | some e => exact Word.flows_keyword (flows_value (exprs e (.head _)) hrest)
    | stop line => exact Word.flows_keyword (Word.flows_symbol hrest)
    | skip line => exact Word.flows_keyword (Word.flows_symbol hrest)
    | expression line e =>
      rw [Stmt.words]
      exact flows_value (exprs e (.head _)) hrest
    | misplaced => exact here.elim

/-! ## Programs -/

/-- The words of a well-formed program can be written side by side. -/
theorem flows_program {p : Program} (h : p.WellFormed) : Word.Flows false p.words := by
  have hend : Word.Flows false [⟨.finish, "bas re ata"⟩, .symbol .semicolon] :=
    ⟨rfl, by simp, Word.flows_symbol trivial⟩
  have hbody := flows_statements (fun s hs => stmt_flows_of_proper (h s hs)) hend
  exact ⟨rfl, by simp, Word.flows_symbol hbody⟩

/-- The text of a well-formed program is read as that program, up to lines. -/
theorem ofText_source {p : Program} (h : p.WellFormed) :
    ∃ p', Program.ofText p.source = .ok p' ∧ p'.unlined = p.unlined := by
  obtain ⟨ts, q, htext, hwords⟩ := Token.scan_spaced (flows_program h) (p := .first) (.inl rfl)
  obtain ⟨p', hp', heq⟩ := isProgram_of_words h hwords (z := Token.endAt q) rfl
  refine ⟨p', ofText_eq_ok.2 ⟨_, ?_, ofTokens_of_isProgram hp'⟩, heq⟩
  rw [Token.ofText, Program.source, String.toList_ofList]
  exact htext

/-- Every program that is read is well formed, and every well-formed program is read from its own
text, up to lines. -/
theorem wellFormed_roundTrip :
    (∀ text p, Program.ofText text = .ok p → p.WellFormed) ∧
      ∀ p : Program, p.WellFormed →
        ∃ p', Program.ofText p.source = .ok p' ∧ p'.unlined = p.unlined :=
  ⟨fun _ _ => wellFormed_of_ofText, fun _ => ofText_source⟩

/-- A sum as a factor, and a sign behind an operator. -/
def product : Program :=
  .mk none [.assign none "x" (.binary none .mul
    (.binary none .add (.name none "a") (.name none "b")) (.unary none .sub (.name none "c")))]

theorem ofText_product :
    ∃ p', Program.ofText "chala suru karu ; x = ( a + b ) * - c ; bas re ata ;" = .ok p' ∧
      p'.unlined = product.unlined := by
  have hname {id : String} (h : IsName id) : (Expr.name none id).Everywhere Expr.Proper :=
    .intro h nofun
  have hsum : (Expr.binary none .add (.name none "a") (.name none "b")).Everywhere Expr.Proper :=
    everywhere_binary (by decide) (hname (by decide)) (hname (by decide))
  have hsign : (Expr.unary none .sub (.name none "c")).Everywhere Expr.Proper :=
    everywhere_unary (.inl rfl) (hname (by decide))
  have hproduct : product.WellFormed := by
    intro s hs
    obtain rfl := List.mem_singleton.1 hs
    refine .intro (show IsName "x" by decide) (fun e he => ?_) nofun
    obtain rfl := List.mem_singleton.1 he
    exact everywhere_binary (by decide) hsum hsign
  exact wellFormed_roundTrip.2 product hproduct

end Boli
