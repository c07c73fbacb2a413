import Boli.Proofs.Jumps
import Boli.Proofs.WellFormedness
import Boli.Run.Session

/-!
# Faults are on lines of the source

A fault that stops a program is on the line of a token of its text.  The line comes from the node
that was at work, and a node has the line of one of its tokens (`linedBy_of_derives`,
`linedBy_of_builds`).  The node may stand in the body of a function that is called from elsewhere,
so the run also has to keep the lines of all functions in the store (`bounds_linedBy`).

There is one exception.  A jump out of a function is noticed when the body has ended, and no node is
at work then.  Such a fault is on no line.

`Session.fault_on_source_line` is the result.
-/

namespace Boli

open Grammar

variable {L : Line → Prop}

/-! ## Lines in trees -/

/-- All lines in an expression are as described. -/
def Expr.LinedBy (L : Line → Prop) (e : Expr) : Prop :=
  e.Everywhere fun e => L e.line

/-- All lines in a statement are as described. -/
def Stmt.LinedBy (L : Line → Prop) (s : Stmt) : Prop :=
  s.Everywhere (fun e => L e.line) fun s => L s.line

/-- All lines in a phrase are as described. -/
def Grammar.Phrase.LinedBy (L : Line → Prop) : Phrase → Prop
  | .expr _ e => e.LinedBy L
  | .exprs es | .items es => ∀ e ∈ es, e.LinedBy L

/-- An expression has the lines of its tokens. -/
theorem linedBy_of_derives {φ : Phrase} {ts : List Token} (h : Derives φ ts)
    (hL : ∀ t ∈ ts, L (some t.line)) : φ.LinedBy L := by
  induction h with
  | operand _ ih | unsigned _ ih | plain _ ih | something _ ih => exact ih hL
  | binary _ _ _ ihl ihr =>
    refine .intro (hL _ (by simp)) (List.forall_mem_cons.2 ⟨?_, List.forall_mem_singleton.2 ?_⟩)
    · exact ihl fun t ht => hL t (by simp [ht])
    · exact ihr fun t ht => hL t (by simp [ht])
  | signed _ _ ih =>
    exact .intro (hL _ (by simp)) (List.forall_mem_singleton.2 (ih fun t ht => hL t (by simp [ht])))
  | index _ _ _ _ ihe ihi =>
    refine .intro (hL _ (by simp)) (List.forall_mem_cons.2 ⟨?_, List.forall_mem_singleton.2 ?_⟩)
    · exact ihe fun t ht => hL t (by simp [ht])
    · exact ihi fun t ht => hL t (by simp [ht])
  | property _ _ _ ih =>
    exact .intro (hL _ (by simp)) (List.forall_mem_singleton.2 (ih fun t ht => hL t (by simp [ht])))
  | constant _ | number _ _ | text _ | name _ => exact .intro (hL _ (by simp)) nofun
  | call _ _ _ _ ih | builtin _ _ _ _ ih | list _ _ _ ih =>
    exact .intro (hL _ (by simp)) (ih fun t ht => hL t (by simp [ht]))
  | group _ _ _ ih => exact ih fun t ht => hL t (by simp [ht])
  | one _ ih => exact List.forall_mem_singleton.2 (ih hL)
  | more _ _ _ ih ihs =>
    refine List.forall_mem_cons.2 ⟨?_, ?_⟩
    · exact ih fun t ht => hL t (by simp [ht])
    · exact ihs fun t ht => hL t (by simp [ht])
  | nothing => exact fun e he => nomatch he

/-- All lines in a form are as described, if that of the keyword in front of a choice is. -/
def Grammar.Form.LinedBy (L : Line → Prop) : Form → Prop
  | .stmt s => s.LinedBy L
  | .stmts ss => ∀ s ∈ ss, s.LinedBy L
  | .block b => (Stmt.block b).LinedBy L
  | .guarded e b => e.LinedBy L ∧ (Stmt.block b).LinedBy L
  | .choice keyword s => L (some keyword.line) → s.LinedBy L

/-- A choice has the lines of its condition and of its sides. -/
theorem linedBy_branch {line : Line} {e : Expr} {b : Block} {alternate : Option Stmt}
    (hline : L line) (he : e.LinedBy L) (hb : (Stmt.block b).LinedBy L)
    (ha : ∀ a ∈ alternate, a.LinedBy L) : (Stmt.branch line e (.block b) alternate).LinedBy L := by
  refine .intro hline (List.forall_mem_singleton.2 he) (List.forall_mem_cons.2 ⟨hb, fun a h => ?_⟩)
  exact ha a (Option.mem_toList.1 h)

/-- A statement has the lines of its tokens. -/
theorem linedBy_of_builds {φ : Form} {ts : List Token} (h : Builds φ ts)
    (hL : ∀ t ∈ ts, L (some t.line)) : φ.LinedBy L := by
  induction h with
  | declare _ _ _ | giveBack _ _ | stop _ _ | skip _ _ => exact .intro (hL _ (by simp)) nofun nofun
  | declareAs _ _ _ hd _ | assign _ _ hd _ | giveBackOf _ hd _ =>
    refine .intro (hL _ (by simp)) (List.forall_mem_singleton.2 ?_) nofun
    exact linedBy_of_derives hd fun t ht => hL t (by simp [ht])
  | expression hd _ _ =>
    refine .intro (hL _ (by simp)) (List.forall_mem_singleton.2 ?_) nofun
    exact linedBy_of_derives hd fun t ht => hL t (List.mem_append_left [_] ht)
  | print _ hd _ =>
    exact .intro (hL _ (by simp)) (linedBy_of_derives hd fun t ht => hL t (by simp [ht])) nofun
  | branch _ _ ih => exact ih (fun t ht => hL t (by simp [ht])) (hL _ (by simp))
  | loop _ _ ih =>
    obtain ⟨he, hb⟩ := ih fun t ht => hL t (by simp [ht])
    exact .intro (hL _ (by simp)) (List.forall_mem_singleton.2 he) fun c hc => hb.child hc
  | function _ _ _ _ _ ih | functionOf _ _ _ _ _ _ _ ih =>
    have hb := ih fun t ht => hL t (by simp [ht])
    exact .intro (hL _ (by simp)) nofun fun c hc => hb.child hc
  | block _ ih => exact ih hL
  | none => exact fun s hs => nomatch hs
  | more _ _ ih ihs =>
    refine List.forall_mem_cons.2 ⟨?_, ?_⟩
    · exact ih fun t ht => hL t (by simp [ht])
    · exact ihs fun t ht => hL t (by simp [ht])
  | braces _ _ _ ih =>
    exact .intro (hL _ (by simp)) nofun (ih fun t ht => hL t (by simp [ht]))
  | guard _ hd _ _ ih =>
    refine ⟨?_, ih fun t ht => hL t (by simp [ht])⟩
    exact linedBy_of_derives hd fun t ht => hL t (by simp [ht])
  | alone _ ih =>
    intro hline
    obtain ⟨he, hb⟩ := ih hL
    exact linedBy_branch hline he hb nofun
  | otherwiseWhen _ _ _ ihg ihs =>
    intro hline
    obtain ⟨he, hb⟩ := ihg fun t ht => hL t (by simp [ht])
    have hs := ihs (fun t ht => hL t (by simp [ht])) (hL _ (by simp))
    exact linedBy_branch hline he hb fun a ha => Option.some.inj ha ▸ hs
  | otherwiseBranch _ _ _ _ ihg ihs =>
    intro hline
    obtain ⟨he, hb⟩ := ihg fun t ht => hL t (by simp [ht])
    have hs := ihs (fun t ht => hL t (by simp [ht])) (hL _ (by simp))
    exact linedBy_branch hline he hb fun a ha => Option.some.inj ha ▸ hs
  | otherwiseBlock _ _ _ ihg iha =>
    intro hline
    obtain ⟨he, hb⟩ := ihg fun t ht => hL t (by simp [ht])
    have ha := iha fun t ht => hL t (by simp [ht])
    exact linedBy_branch hline he hb fun a h => Option.some.inj h ▸ ha

/-- The statements of a program that was read have the lines of its tokens. -/
theorem linedBy_of_ofText {text : String} {tokens : List Token} {p : Program}
    (htokens : Token.ofText text = .ok tokens) (hp : Program.ofText text = .ok p) :
    ∀ s ∈ p.statements, s.LinedBy fun line =>
      ∃ t ∈ tokens, t.kind ≠ .eof ∧ line = some t.line := by
  obtain ⟨tokens', htokens', hp⟩ := ofText_eq_ok.1 hp
  obtain rfl := Except.ok.inj (htokens.symm.trans htokens')
  obtain ⟨vs, q, heq, hfits⟩ := Token.fits_of_scan htokens
  cases isProgram_of_ofTokens htokens hp with
  | @mk ss ts t u f w z _ _ hb _ _ _ =>
    -- The tokens of the statements come before the mark of the end.
    have hcut : vs ++ [Token.endAt q] = (t :: u :: (ts ++ [f, w])) ++ [z] := by
      simpa using heq.symm
    obtain rfl := (List.append_inj' hcut rfl).1
    refine linedBy_of_builds hb fun t' ht => ⟨t', by simp [ht], ?_, rfl⟩
    exact (hfits t' (by simp [ht])).kind_ne_eof

/-! ## Lines of faults -/

/-- The cause is a jump out of a function. -/
def Cause.leavesFunction : Cause → Bool
  | strayInFunction .. => true
  | _ => false

/-- A fault that is no stray jump is no jump out of a function. -/
theorem Cause.leavesFunction_eq_false {cause : Cause} (h : cause.isStray = false) :
    cause.leavesFunction = false := by
  cases cause with
  | strayInFunction jump function => cases h
  | _ => rfl

/-- The fault is on a line as described, or it is a jump that leaves a function and on no line. -/
inductive Fault.LocatedBy (L : Line → Prop) : Fault → Prop where
  | on {cause : Cause} {line : Line} (hcause : cause.leavesFunction = false) (hline : L line) :
    LocatedBy L ⟨cause, line⟩
  | leaving {jump : Jump} (function : String) (hjump : jump = .stop ∨ jump = .skip) :
    LocatedBy L ⟨.strayInFunction jump function, none⟩

/-- The reason to stop, if it is a fault, has its line as described. -/
def Stop.LocatedBy (L : Line → Prop) : Stop → Prop
  | fault f => f.LocatedBy L
  | host _ | unfinished => True

/-- Trees and functions with lines as described have faults on such lines. -/
theorem bounds_linedBy (L : Line → Prop) : Action.Bounds (fun e => e.LinedBy L) (fun s => s.LinedBy L)
    (fun c => ∀ s ∈ c.body.statements, s.LinedBy L) (Stop.LocatedBy L) where
  host _ := trivial
  unfinished := trivial
  expr he hcause := .on (Cause.leavesFunction_eq_false hcause) he.root
  stmt hs hcause := .on (Cause.leavesFunction_eq_false hcause) hs.root
  leaving {c s j} _ _ _ hj := by
    refine .leaving c.name ?_
    cases j with
    | stop => exact .inl rfl
    | skip => exact .inr rfl
    | giveBack => exact absurd rfl hj
  closure hs _ _ h := hs.child h
  body hc := hc
  below he _ hc := he.child hc
  exprs hs _ he := hs.expr he
  children hs _ _ hc := hs.child hc

/-- A program with lines as described has its faults on such lines.  A jump out of the program is on
the line of the statement that asked for it. -/
theorem Action.topLevel_located (coerce : Bool) (fuel : Nat) {ss : List Stmt}
    (h : ∀ s ∈ ss, s.LinedBy L) :
    Upholds (fun c => ∀ s ∈ c.body.statements, s.LinedBy L) (Stop.LocatedBy L)
      (topLevel (exec coerce fuel globalScope) ss) fun _ => True :=
  (sustains_upholds (bounds_linedBy L) coerce).topLevel fuel () globalScope h
    fun s hs _ _ _ _ _ _ => .throw (.on rfl (h s hs).root)

/-! ## Lines of tokens -/

/-- A line feed is a line more. -/
theorem length_charLines_cons (c : Char) (cs : List Char) :
    (charLines (c :: cs)).length =
      if c = '\n' then (charLines cs).length + 1 else max 1 (charLines cs).length := by
  rw [charLines]
  split
  · rfl
  · cases charLines cs with
    | nil => rfl
    | cons line lines => simp

/-- A token of a text is on a line of it. -/
theorem Token.line_of_scan {inside : Nat} {before : Option Char} {p : Position} {cs : List Char}
    {tokens : List Token} (h : scan inside before p cs = .ok tokens) :
    ∀ t ∈ tokens, t.kind ≠ .eof → p.line ≤ t.line ∧ t.line < p.line + (charLines cs).length := by
  induction cs generalizing inside before p tokens with
  | nil =>
    cases h
    intro t ht hkind
    obtain rfl := List.mem_singleton.1 ht
    exact absurd rfl hkind
  | cons c cs ih =>
    have hlines := length_charLines_cons c cs
    -- what is read behind the first character is on a line of the text as well
    have hbehind {n : Int}
        (hn : (p.after c).line ≤ n ∧ n < (p.after c).line + (charLines cs).length) :
        p.line ≤ n ∧ n < p.line + (charLines (c :: cs)).length := by
      rw [Position.after] at hn
      split at hn <;> simp_all <;> omega
    cases inside with
    | succ inside => exact fun t ht hkind => hbehind (ih h t ht hkind)
    | zero =>
      rw [scan] at h
      split at h
      · cases h
      · exact fun t ht hkind => hbehind (ih h t ht hkind)
      · rename_i kind value more _
        cases hrest : scan more (some c) (p.after c) cs with
        | error e =>
          rw [hrest] at h
          cases h
        | ok rest =>
          rw [hrest] at h
          cases h
          refine List.forall_mem_cons.2 ⟨fun _ => ⟨le_refl _, ?_⟩, fun t ht hkind => ?_⟩
          · show p.line < _
            split at hlines <;> omega
          · exact hbehind (ih hrest t ht hkind)

/-! ## Lines in messages -/

/-- No number has a blank in it. -/
theorem space_not_mem_toString (n : Int) : ' ' ∉ (toString n).toList := by
  have hdigits (k : Nat) : ' ' ∉ k.repr.toList := by
    rw [Nat.toList_repr]
    intro h
    cases Nat.isDigit_of_mem_toDigits (by decide) (by decide) h
  cases n with
  | ofNat k => exact hdigits k
  | negSucc k =>
    show ' ' ∉ ("-" ++ (k + 1).repr).toList
    rw [String.toList_append, List.mem_append, not_or]
    exact ⟨by decide, hdigits (k + 1)⟩

/-- Behind the last blank of a text stands its last word. -/
theorem rtakeWhile_append_space (front : List Char) {word : List Char} (h : ' ' ∉ word) :
    (front ++ ' ' :: word).rtakeWhile (· != ' ') = word := by
  have hword : ∀ c ∈ word.reverse, (c != ' ') = true := by
    intro c hc
    exact bne_iff_ne.2 fun heq => h (heq ▸ List.mem_reverse.1 hc)
  rw [List.rtakeWhile, List.reverse_append, List.reverse_cons, List.append_assoc,
    List.takeWhile_append_of_pos hword]
  simp

/-- A number at the end of a text is the only one that the text ends with. -/
theorem eq_of_append_toString {front front' : String} {k n : Int}
    (h : front ++ " on line " ++ toString k = front' ++ " on line " ++ toString n) : k = n := by
  have hlast (front : String) (n : Int) :
      (front ++ " on line " ++ toString n).toList.rtakeWhile (· != ' ') = (toString n).toList := by
    have hcut : (front ++ " on line " ++ toString n).toList =
        front.toList ++ " on line".toList ++ ' ' :: (toString n).toList := by
      simp
    rw [hcut, rtakeWhile_append_space _ (space_not_mem_toString n)]
  have hlists : (toString k).toList = (toString n).toList := by
    rw [← hlast front k, h, hlast]
  exact Int.repr_injective (String.toList_inj.1 hlists)

/-- The record of a fault on a line ends with the number of that line. -/
theorem Record.message_runtimeError_eq_iff {f : Fault} {n : Int} (hline : f.line = some n)
    (file : String) (k : Int) :
    (∃ front, (Record.runtimeError file f).message = front ++ " on line " ++ toString k) ↔
      k = n := by
  have hmessage : (Record.runtimeError file f).message =
      "Runtime error in " ++ file ++ ": " ++ f.cause.message ++ " on line " ++ toString n := by
    have hfault : f.message = f.cause.message ++ " on line " ++ toString n := by
      rw [Fault.message, hline]
    show "Runtime error in " ++ file ++ ": " ++ f.message = _
    rw [hfault]
    simp only [String.append_assoc]
  rw [hmessage]
  constructor
  · rintro ⟨front, h⟩
    exact eq_of_append_toString h.symm
  · rintro rfl
    exact ⟨_, rfl⟩

namespace Session

/-- A program that was read and fails has logged a fault on the line of a token, and the record ends
with that line and no other.  The fault is on no line only if a jump to a loop leaves a function. -/
theorem fault_on_source_line {text : String} {tokens : List Token} {p : Program}
    (htokens : Token.ofText text = .ok tokens) (hp : Program.ofText text = .ok p) {fuel : Nat}
    {settings : Settings} {input : InputSource} {sink : Sink} {m : Machine}
    (hrun : runWithin fuel settings p (.fresh input sink) = (.failed, m)) :
    ∃ f : Fault, m.log.back? = some (.runtimeError settings.file f) ∧
      (f.line = none ↔
        ∃ function, f.cause = .strayInFunction .stop function ∨
          f.cause = .strayInFunction .skip function) ∧
      ∀ n, f.line = some n →
        (∃ t ∈ tokens, t.kind ≠ .eof ∧ t.line = n) ∧
        (1 ≤ n ∧ n ≤ (charLines text.toList).length) ∧
        ∀ k : Int, (∃ front, (Record.runtimeError settings.file f).message =
          front ++ " on line " ++ toString k) ↔ k = n := by
  obtain ⟨f, m', hend, hlog⟩ := exists_of_runWithin_failed hrun
  have hlocated := Action.topLevel_located settings.coerce fuel (linedBy_of_ofText htokens hp)
    (.fresh input sink) fun c hc => absurd hc (Array.not_mem_empty c)
  rw [hend] at hlocated
  refine ⟨f, hlog, ?_⟩
  cases hlocated.2 with
  | leaving function hjump =>
    refine ⟨⟨fun _ => ⟨function, ?_⟩, fun _ => rfl⟩, nofun⟩
    rcases hjump with rfl | rfl
    · exact .inl rfl
    · exact .inr rfl
  | on hcause hline =>
    obtain ⟨t, ht, hkind, rfl⟩ := hline
    refine ⟨⟨nofun, ?_⟩, ?_⟩
    · rintro ⟨function, rfl | rfl⟩ <;> cases hcause
    · rintro n ⟨⟩
      obtain ⟨hfirst, hlast⟩ := Token.line_of_scan htokens t ht hkind
      have hbounds : 1 ≤ t.line ∧ t.line ≤ (charLines text.toList).length := by
        change 1 ≤ t.line at hfirst
        change t.line < 1 + _ at hlast
        omega
      exact ⟨⟨t, ht, hkind, rfl⟩, hbounds, Record.message_runtimeError_eq_iff rfl settings.file⟩

/-- A function with a fault in its body, which is called further down. -/
def failingBody : Program :=
  .mk (some 1) [
    .function (some 2) "f" ["x"] (.mk (some 2) [
      .giveBack (some 3) (some (.binary (some 3) .add (.name (some 3) "x") (.name (some 3) "y")))]),
    .expression (some 5) (.call (some 5) ⟨some 5, "f"⟩ [.literal (some 5) (.boolean true) "khara"])]

/-- A function that leaves a loop which is not there. -/
def leavingBody : Program :=
  .mk (some 1) [
    .function (some 2) "f" [] (.mk (some 2) [.stop (some 2)]),
    .expression (some 3) (.call (some 3) ⟨some 3, "f"⟩ [])]

theorem fault_on_source_line_bodies :
    (∃ m, runWithin 9 {} failingBody (.fresh .unavailable {}) = (.failed, m) ∧
      m.log.back? = some (.runtimeError "<stdin>" ⟨.undefinedVariable "y", some 3⟩) ∧
      ∀ k : Int, (∃ front,
        (Record.runtimeError "<stdin>" ⟨.undefinedVariable "y", some 3⟩).message =
          front ++ " on line " ++ toString k) ↔ k = 3) ∧
    ∃ m f, runWithin 9 {} leavingBody (.fresh .unavailable {}) = (.failed, m) ∧
      m.log.back? = some (.runtimeError "<stdin>" f) ∧ f.line = none := by
  have hfailing : Program.ofText ("chala suru karu;\nkaamKar f(x) \x7b\nparatDe x + y;\n\x7d\n" ++
      "f(khara);\nbas re ata;") = .ok failingBody := by
    cbv
  have hleaving : Program.ofText ("chala suru karu;\nkaamKar f() \x7b thamb; \x7d\nf();\n" ++
      "bas re ata;") = .ok leavingBody := by
    cbv
  obtain ⟨tokens, htokens, -⟩ := ofText_eq_ok.1 hfailing
  obtain ⟨tokens', htokens', -⟩ := ofText_eq_ok.1 hleaving
  have hfailed : runWithin 9 {} failingBody (.fresh .unavailable {}) =
      (.failed, (runWithin 9 {} failingBody (.fresh .unavailable {})).2) := rfl
  have hleft : runWithin 9 {} leavingBody (.fresh .unavailable {}) =
      (.failed, (runWithin 9 {} leavingBody (.fresh .unavailable {})).2) := rfl
  constructor
  · obtain ⟨f, hlog, -, hlines⟩ := fault_on_source_line htokens hfailing hfailed
    obtain rfl : ⟨.undefinedVariable "y", some 3⟩ = f :=
      (Record.runtimeError.inj (Option.some.inj hlog)).2
    exact ⟨_, hfailed, hlog, (hlines 3 rfl).2.2⟩
  · obtain ⟨f, hlog, hnone, -⟩ := fault_on_source_line htokens' hleaving hleft
    obtain rfl : ⟨.strayInFunction .stop "f", none⟩ = f :=
      (Record.runtimeError.inj (Option.some.inj hlog)).2
    exact ⟨_, _, hleft, hlog, hnone.2 ⟨"f", .inl rfl⟩⟩

end Session

end Boli
