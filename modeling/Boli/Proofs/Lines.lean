import Boli.Proofs.Rewriting
import Boli.Proofs.RoundTrip
import Boli.Syntax.Alike

/-!
# Lines are for messages only

Two programs that were read and are alike differ in nothing but their lines.  What is loose about
likeness is that a boolean and a number may be alike as constants.  But constants that were read
carry their spelling, and nothing spells both (`Value.eq_of_isAlike`).

Without their lines, alike programs are the same program (`Block.unlined_eq_of_isAlike`).  Taking
the lines away is a rewriting, so each of the two does what that one program does, and they do the
same as each other.  `Session.runWithin_alike` says so of whole runs.
-/

namespace Boli

/-! ## Constants -/

namespace Lexeme

/-- No word is a number. -/
theorem isNumber_eq_false_of_isWord {cs : List Char} (h : isWord cs) : isNumber cs = false := by
  cases cs with
  | nil => cases h
  | cons c cs =>
    simp only [isWord, Bool.and_eq_true] at h
    rw [isNumber, List.takeWhile_cons_of_neg (by simp [isDigit_of_startsWord h.1])]
    rfl

end Lexeme

namespace Value

/-- No text spells both a number and a boolean. -/
theorem not_isSpelled_both {x : Float} {b : Bool} {raw : String} (hx : (number x).IsSpelled raw)
    (hb : (boolean b).IsSpelled raw) : False := by
  have hnumber := Lexeme.isNumber_eq_false_of_isWord (Word.isWord_of_ofWord? hb)
  rw [hx.1] at hnumber
  cases hnumber

/-- Constants with one spelling that are alike are equal. -/
theorem eq_of_isAlike {v v' : Value} {raw : String} (hv : v.IsSpelled raw)
    (hv' : v'.IsSpelled raw) (h : v.isAlike v') : v = v' := by
  cases v with
  | null =>
    cases v' with
    | null => rfl
    | _ => cases h
  | boolean b =>
    cases v' with
    | boolean b' =>
      have hwords : ∀ b b' : Bool,
          (if b then Keyword.yes else .no) = (if b' then Keyword.yes else .no) → b = b' := by
        decide
      rw [hwords b b' (Option.some.inj (hv.symm.trans hv'))]
    | number x => exact (not_isSpelled_both hv' hv).elim
    | _ => cases h
  | number x =>
    cases v' with
    | number y => rw [Option.some.inj (hv.2.symm.trans hv'.2)]
    | boolean b => exact (not_isSpelled_both hv hv').elim
    | _ => cases h
  | text s =>
    cases v' with
    | text t => rw [eq_of_beq h]
    | _ => cases h
  | list _ | function _ | foreign _ => exact hv.elim

end Value

/-! ## Trees -/

/-- Expressions that are alike are related one by one. -/
theorem Expr.relined_of_areAlike {es es' : List Expr}
    (ih : ∀ e ∈ es, ∀ e' ∈ es', e.isAlike e' → e.Relined e') (h : Expr.areAlike es es') :
    List.Forall₂ Expr.Relined es es' := by
  induction es generalizing es' with
  | nil =>
    cases es' with
    | nil => exact .nil
    | cons e' es' => cases h
  | cons e es ihs =>
    cases es' with
    | nil => cases h
    | cons e' es' =>
      simp only [Expr.areAlike, Bool.and_eq_true] at h
      refine .cons (ih e (.head _) e' (.head _) h.1) ?_
      exact ihs (fun e he e' he' => ih e (.tail _ he) e' (.tail _ he')) h.2

/-- Well-formed expressions that are alike are the same without their lines. -/
theorem Expr.relined_of_isAlike {e e' : Expr} (he : e.Everywhere Expr.Proper)
    (he' : e'.Everywhere Expr.Proper) (h : e.isAlike e') : e.Relined e' := by
  induction he generalizing e' with
  | @intro e here _ ih =>
    cases e with
    | literal line v raw =>
      cases e' with
      | literal line' v' raw' =>
        simp only [Expr.isAlike, Bool.and_eq_true, beq_iff_eq] at h
        obtain ⟨hv, rfl⟩ := h
        rw [Value.eq_of_isAlike here he'.root hv]
        exact .literal rfl
      | _ => cases h
    | name line id =>
      cases e' with
      | name line' id' => exact .name (eq_of_beq h)
      | _ => cases h
    | binary line op left right =>
      cases e' with
      | binary line' op' left' right' =>
        simp only [Expr.isAlike, Bool.and_eq_true, beq_iff_eq] at h
        obtain ⟨⟨rfl, hleft⟩, hright⟩ := h
        exact .binary (ih left (.head _) (he'.child (.head _)) hleft)
          (ih right (.tail _ (.head _)) (he'.child (.tail _ (.head _))) hright)
      | _ => cases h
    | unary line op e =>
      cases e' with
      | unary line' op' e' =>
        simp only [Expr.isAlike, Bool.and_eq_true, beq_iff_eq] at h
        obtain ⟨rfl, he⟩ := h
        exact .unary (ih e (.head _) (he'.child (.head _)) he)
      | _ => cases h
    | call line callee args =>
      cases e' with
      | call line' callee' args' =>
        simp only [Expr.isAlike, Bool.and_eq_true, beq_iff_eq] at h
        refine .call h.1 (Expr.relined_of_areAlike (fun e he e' hmem => ?_) h.2)
        exact ih e he (he'.child hmem)
      | _ => cases h
    | index line e i =>
      cases e' with
      | index line' e' i' =>
        simp only [Expr.isAlike, Bool.and_eq_true] at h
        exact .index (ih e (.head _) (he'.child (.head _)) h.1)
          (ih i (.tail _ (.head _)) (he'.child (.tail _ (.head _))) h.2)
      | _ => cases h
    | property line e n =>
      cases e' with
      | property line' e' n' =>
        simp only [Expr.isAlike, Bool.and_eq_true, beq_iff_eq] at h
        exact .property (ih e (.head _) (he'.child (.head _)) h.1) h.2
      | _ => cases h
    | list line es =>
      cases e' with
      | list line' es' =>
        refine .list (Expr.relined_of_areAlike (fun e he e' hmem => ?_) h)
        exact ih e he (he'.child hmem)
      | _ => cases h
    | misplaced line form => exact here.elim

/-- Expressions that may be missing are both there if they are alike, or both missing. -/
theorem Expr.relined_of_isAlike? {e? e?' : Option Expr}
    (he : ∀ e ∈ e?.toList, e.Everywhere Expr.Proper)
    (he' : ∀ e ∈ e?'.toList, e.Everywhere Expr.Proper) (h : Expr.isAlike? e? e?') :
    Option.Rel Expr.Relined e? e?' := by
  cases e? with
  | none =>
    cases e?' with
    | none => exact .none
    | some e' => cases h
  | some e =>
    cases e?' with
    | none => cases h
    | some e' => exact .some (Expr.relined_of_isAlike (he e (.head _)) (he' e' (.head _)) h)

/-- Statements that are alike are related one by one. -/
theorem Stmt.relined_of_areAlike {ss ss' : List Stmt}
    (ih : ∀ s ∈ ss, ∀ s' ∈ ss', s.isAlike s' → s.Relined s') (h : Stmt.areAlike ss ss') :
    List.Forall₂ Stmt.Relined ss ss' := by
  induction ss generalizing ss' with
  | nil =>
    cases ss' with
    | nil => exact .nil
    | cons s' ss' => cases h
  | cons s ss ihs =>
    cases ss' with
    | nil => cases h
    | cons s' ss' =>
      simp only [Stmt.areAlike, Bool.and_eq_true] at h
      refine .cons (ih s (.head _) s' (.head _) h.1) ?_
      exact ihs (fun s hs s' hs' => ih s (.tail _ hs) s' (.tail _ hs')) h.2

/-- Blocks that are alike are the same without their lines, if that holds of their statements. -/
theorem Block.relined_of_statements {b b' : Block}
    (ih : ∀ s ∈ b.statements, ∀ s' ∈ b'.statements, s.isAlike s' → s.Relined s')
    (h : b.isAlike b') : b.Relined b' := by
  obtain ⟨line, ss⟩ := b
  obtain ⟨line', ss'⟩ := b'
  exact Block.relined_mk (Stmt.relined_of_areAlike ih h)

/-- Well-formed statements that are alike are the same without their lines. -/
theorem Stmt.relined_of_isAlike {s s' : Stmt} (hs : s.Everywhere Expr.Proper Stmt.Proper)
    (hs' : s'.Everywhere Expr.Proper Stmt.Proper) (h : s.isAlike s') : s.Relined s' := by
  induction hs generalizing s' with
  | @intro s here exprs _ ih =>
    have hexpr {e e' : Expr} (he : e ∈ s.exprs) (he' : e' ∈ s'.exprs) (h : e.isAlike e') :
        e.Relined e' :=
      Expr.relined_of_isAlike (exprs e he) (hs'.expr he') h
    cases s with
    | declare line n e =>
      cases s' with
      | declare line' n' e' =>
        simp only [Stmt.isAlike, Bool.and_eq_true, beq_iff_eq] at h
        exact .declare h.1 (Expr.relined_of_isAlike? exprs (fun _ he' => hs'.expr he') h.2)
      | _ => cases h
    | assign line n e =>
      cases s' with
      | assign line' n' e' =>
        simp only [Stmt.isAlike, Bool.and_eq_true, beq_iff_eq] at h
        exact .assign h.1 (hexpr (.head _) (.head _) h.2)
      | _ => cases h
    | print line es =>
      cases s' with
      | print line' es' =>
        exact .print (Expr.relined_of_areAlike (fun e he e' he' => hexpr he he') h)
      | _ => cases h
    | block b =>
      cases s' with
      | block b' =>
        exact .block (Block.relined_of_statements (fun s hs s' hmem => ih s hs (hs'.child hmem)) h)
      | _ => cases h
    | branch line e s alternate =>
      cases s' with
      | branch line' e' t alternate' =>
        simp only [Stmt.isAlike, Bool.and_eq_true] at h
        have he := hexpr (.head _) (.head _) h.1.1
        have ht := ih s (.head _) (hs'.child (.head _)) h.1.2
        cases alternate with
        | none =>
          cases alternate' with
          | none => exact .branch he ht .none
          | some a' => cases h.2
        | some a =>
          cases alternate' with
          | none => cases h.2
          | some a' =>
            have ha := ih a (.tail _ (.head _)) (hs'.child (.tail _ (.head _))) h.2
            exact .branch he ht (.some ha)
      | _ => cases h
    | loop line e b =>
      cases s' with
      | loop line' e' b' =>
        simp only [Stmt.isAlike, Bool.and_eq_true] at h
        refine .loop (hexpr (.head _) (.head _) h.1) (Block.relined_of_statements ?_ h.2)
        exact fun s hs s' hmem => ih s hs (hs'.child hmem)
      | _ => cases h
    | function line n ps b =>
      cases s' with
      | function line' n' ps' b' =>
        simp only [Stmt.isAlike, Bool.and_eq_true, beq_iff_eq] at h
        obtain ⟨⟨hn, rfl⟩, hb⟩ := h
        refine .function hn (Block.relined_of_statements ?_ hb)
        exact fun s hs s' hmem => ih s hs (hs'.child hmem)
      | _ => cases h
    | giveBack line e =>
      cases s' with
      | giveBack line' e' =>
        exact .giveBack (Expr.relined_of_isAlike? exprs (fun _ he' => hs'.expr he') h)
      | _ => cases h
    | stop line =>
      cases s' with
      | stop line' => rfl
      | _ => cases h
    | skip line =>
      cases s' with
      | skip line' => rfl
      | _ => cases h
    | expression line e =>
      cases s' with
      | expression line' e' => exact .expression (hexpr (.head _) (.head _) h)
      | _ => cases h
    | misplaced line form => exact here.elim

/-- Well-formed programs that are alike are the same without their lines. -/
theorem Block.unlined_eq_of_isAlike {p q : Program} (hp : p.WellFormed) (hq : q.WellFormed)
    (h : p.isAlike q) : p.unlined = q.unlined :=
  Block.relined_of_statements
    (fun s hs s' hs' => Stmt.relined_of_isAlike (hp s hs) (hq s' hs')) h

theorem Rewriting.keeps_unlining (coerce : Bool) : unlining.Keeps coerce coerce :=
  fun _ => rfl

/-! ## Runs -/

/-- The record without the line of its fault. -/
def Record.unlined : Record → Record
  | .calling function arguments => .calling function arguments
  | .runtimeError file fault => .runtimeError file { fault with line := none }
  | .unknownError file error => .unknownError file error

/-- The function without the lines of its body. -/
def Closure.unlined (c : Closure) : Closure :=
  { c with body := c.body.unlined }

namespace Session

/-- Two runs that nobody can tell apart, except by the lines of the faults in the log and of the
functions left behind. -/
structure SameButLines (run run' : Completion × Machine) : Prop where
  completion : run.1 = run'.1
  output : run.2.output = run'.2.output
  log : run.2.log.map Record.unlined = run'.2.log.map Record.unlined
  input : run.2.input = run'.2.input
  globals : globals run.2 = globals run'.2
  lists : run.2.store.lists = run'.2.store.lists
  functions : ∀ id, (run.2.store.closure? id).map Closure.unlined =
    (run'.2.store.closure? id).map Closure.unlined

theorem SameButLines.refl (run : Completion × Machine) : SameButLines run run :=
  ⟨rfl, rfl, rfl, rfl, rfl, rfl, fun _ => rfl⟩

/-- Machines that are the same without lines stay so with records that are. -/
theorem SameButLines.of_log {m m' : Machine} (h : m.rewritten .unlining = m'.rewritten .unlining)
    (completion : Completion) {log log' : Array Record}
    (hlog : log.map Record.unlined = log'.map Record.unlined) :
    SameButLines (completion, { m with log := log }) (completion, { m' with log := log' }) where
  completion := rfl
  output := congrArg (fun m => m.output) h
  log := hlog
  input := congrArg (fun m => m.input) h
  globals := by
    have hglobals := congrArg Session.globals h
    exact hglobals
  lists := congrArg (fun m => m.store.lists) h
  functions id := by
    have hid := congrArg (fun m => m.store.closure? id) h
    simp only [Machine.closure?_rewritten] at hid
    exact hid

/-- On one machine, programs that are the same without lines do the same up to lines. -/
theorem sameButLines_of_unlined_eq {p q : Program} (h : p.unlined = q.unlined) (fuel : Nat)
    (settings : Settings) (m : Machine) :
    SameButLines (runWithin fuel settings p m) (runWithin fuel settings q m) := by
  have hp := Action.topLevel_mirrors (Rewriting.keeps_unlining settings.coerce) fuel p m
  have hq := Action.topLevel_mirrors (Rewriting.keeps_unlining settings.coerce) fuel q m
  change p.rewritten .unlining = q.rewritten .unlining at h
  rw [h] at hp
  -- both runs are mirrored by the run of the program without lines
  have hends := hp.symm.trans hq
  unfold runWithin runBy
  generalize Action.topLevel (Action.exec settings.coerce fuel globalScope) p.statements m = run,
    Action.topLevel (Action.exec settings.coerce fuel globalScope) q.statements m = run' at hends
  cases run with
  | ok u m₁ =>
    cases run' with
    | error e m₂ => cases hends
    | ok u m₂ =>
      injection hends with _ hm
      have hlog : m₁.log = m₂.log := congrArg (fun m => m.log) hm
      exact .of_log hm .completed (by rw [hlog])
  | error e₁ m₁ =>
    cases run' with
    | ok u m₂ => cases hends
    | error e₂ m₂ =>
      injection hends with he hm
      have hlog : m₁.log = m₂.log := congrArg (fun m => m.log) hm
      cases e₁ with
      | fault f₁ =>
        cases e₂ with
        | fault f₂ =>
          injection he with hfault
          simp only [Rewriting.line_unlining] at hfault
          exact .of_log hm .failed (by simp only [Array.map_push, hlog, Record.unlined, hfault])
        | _ => cases he
      | host error =>
        cases e₂ with
        | host error' =>
          cases he
          exact .of_log hm _ (by rw [hlog])
        | _ => cases he
      | unfinished =>
        cases e₂ with
        | unfinished => exact .of_log hm .unfinished (by rw [hlog])
        | _ => cases he

/-- Programs that were read and are alike do the same from a fresh machine, up to lines. -/
theorem runWithin_alike {text text' : String} {p q : Program} (hp : Program.ofText text = .ok p)
    (hq : Program.ofText text' = .ok q) (h : p.isAlike q) (fuel : Nat) (settings : Settings)
    (input : InputSource) (sink : Sink) :
    SameButLines (runWithin fuel settings p (.fresh input sink))
      (runWithin fuel settings q (.fresh input sink)) := by
  have hunlined : p.unlined = q.unlined :=
    Block.unlined_eq_of_isAlike (wellFormed_of_ofText hp) (wellFormed_of_ofText hq) h
  exact sameButLines_of_unlined_eq hunlined fuel settings _

/-- A program that prints a boolean and reads a variable that does not exist, on these lines. -/
def unknownName (printed read : Int) : Program :=
  .mk (some 1) [.print (some printed) [.literal (some printed) (.boolean true) "khara"],
    .expression (some read) (.name (some read) "x")]

theorem runWithin_alike_unknownName :
    Program.ofText "chala suru karu; dakhava khara; x; bas re ata;" = .ok (unknownName 1 1) ∧
      Program.ofText "chala suru karu;\ndakhava khara;\n\nx;\nbas re ata;" =
        .ok (unknownName 2 4) ∧
      (runWithin 4 {} (unknownName 1 1) (.fresh .unavailable {})).2.log =
        #[.runtimeError "<stdin>" ⟨.undefinedVariable "x", some 1⟩] ∧
      (runWithin 4 {} (unknownName 2 4) (.fresh .unavailable {})).2.log =
        #[.runtimeError "<stdin>" ⟨.undefinedVariable "x", some 4⟩] ∧
      SameButLines (runWithin 4 {} (unknownName 1 1) (.fresh .unavailable {}))
        (runWithin 4 {} (unknownName 2 4) (.fresh .unavailable {})) := by
  have hflat : Program.ofText "chala suru karu; dakhava khara; x; bas re ata;" =
      .ok (unknownName 1 1) := by
    cbv
  have htall : Program.ofText "chala suru karu;\ndakhava khara;\n\nx;\nbas re ata;" =
      .ok (unknownName 2 4) := by
    cbv
  have halike : (unknownName 1 1).isAlike (unknownName 2 4) := by decide
  exact ⟨hflat, htall, by cbv, by cbv, runWithin_alike hflat htall halike 4 {} .unavailable {}⟩

end Session

end Boli
