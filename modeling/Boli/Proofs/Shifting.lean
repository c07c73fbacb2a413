import Boli.Proofs.Lines
import Boli.Proofs.Extents

/-!
# Texts further down

A text that stands some lines further down has the same tokens, and they are the same program, some
lines further down.

* `Position.shifted` and `Token.shifted` move positions and tokens.
* `Rewriting.shifting` moves the lines of a tree and changes nothing else
  (`Block.unlined_shifted`).
* `Token.scan_shifted` and `Grammar.builds_shifted` are the results.
-/

namespace Boli

open Boli.Grammar

/-! ## Tokens -/

namespace Position

/-- The position `k` lines further down. -/
def shifted (k : Int) (p : Position) : Position := ⟨p.line + k, p.column⟩

/-- Positions further down are counted in the same way. -/
theorem after_shifted (k : Int) (p : Position) (c : Char) :
    (p.shifted k).after c = (p.after c).shifted k := by
  by_cases hc : c = '\n'
  · simp [after, shifted, hc, Int.add_right_comm]
  · simp [after, shifted, hc]

end Position

/-- The error `k` lines further down. -/
def LexError.shifted (k : Int) (e : LexError) : LexError :=
  { e with position := e.position.shifted k }

namespace Token

/-- The token `k` lines further down. -/
def shifted (k : Int) (t : Token) : Token := { t with position := t.position.shifted k }

theorem kind_shifted (k : Int) {t : Token} {kind : Kind} (h : t.kind = kind) :
    (t.shifted k).kind = kind := h

theorem mem_shifted (k : Int) {t : Token} {α : Type} {a : α} {pairs : List (Kind × α)}
    (h : (t.kind, a) ∈ pairs) : ((t.shifted k).kind, a) ∈ pairs := h

/-- The outcome of a scan `k` lines further down. -/
def outcomeShifted (k : Int) : Except LexError (List Token) → Except LexError (List Token)
  | .ok tokens => .ok (tokens.map (shifted k))
  | .error e => .error (e.shifted k)

theorem outcomeShifted_map (k : Int) (t : Token) (outcome : Except LexError (List Token)) :
    outcomeShifted k (outcome.map (t :: ·)) =
      (outcomeShifted k outcome).map (t.shifted k :: ·) := by
  cases outcome <;> rfl

/-- A text has its tokens, or what is wrong with it, wherever it starts. -/
theorem scan_outcomeShifted (k : Int) (inside : Nat) (before : Option Char) (p : Position)
    (cs : List Char) :
    scan inside before (p.shifted k) cs = outcomeShifted k (scan inside before p cs) := by
  induction cs generalizing inside before p with
  | nil => rfl
  | cons c cs ih =>
    cases inside with
    | succ inside => rw [scan, p.after_shifted, ih, scan]
    | zero =>
      obtain ⟨⟨lexeme, more⟩, hread⟩ : ∃ e, Lexeme.read before c cs = e := ⟨_, rfl⟩
      cases lexeme with
      | fault cause =>
        rw [scan_of_fault hread, scan_of_fault hread]
        rfl
      | gap => rw [scan_of_gap hread, scan_of_gap hread, p.after_shifted, ih]
      | token kind value =>
        rw [scan_of_token hread, scan_of_token hread, p.after_shifted, ih, outcomeShifted_map]
        rfl

/-- A text that starts further down has its tokens further down. -/
theorem scan_shifted (k : Int) {inside : Nat} {before : Option Char} {p : Position}
    {cs : List Char} {tokens : List Token} (h : scan inside before p cs = .ok tokens) :
    scan inside before (p.shifted k) cs = .ok (tokens.map (shifted k)) := by
  rw [scan_outcomeShifted, h]
  rfl

end Token

/-! ## Trees -/

/-- Lines move down by `k`, and constants stay. -/
def Rewriting.shifting (k : Int) : Rewriting := ⟨Option.map (· + k), rfl, id⟩

variable {k : Int}

/-- An expression further down differs in its lines only. -/
theorem Expr.relined_shifted (e : Expr) : (e.rewritten (.shifting k)).Relined e := by
  rw [Expr.Relined, Expr.unlined, Expr.rewritten_rewritten, Rewriting.andThen_unlining rfl]
  rfl

/-- Without lines, a tree further down is the tree itself. -/
theorem Block.unlined_shifted (b : Block) : (b.rewritten (.shifting k)).unlined = b.unlined := by
  rw [Block.unlined, Block.rewritten_rewritten, Rewriting.andThen_unlining rfl]
  rfl

/-! ## Phrases and forms -/

namespace Grammar

open Token (kind_shifted mem_shifted)

/-- The phrase `k` lines further down. -/
def Phrase.shifted (k : Int) : Phrase → Phrase
  | expr rank e => expr rank (e.rewritten (.shifting k))
  | exprs es => exprs (Expr.rewrittenAll (.shifting k) es)
  | items es => items (Expr.rewrittenAll (.shifting k) es)

/-- Tokens further down are the same phrase further down. -/
theorem derives_shifted {phrase : Phrase} {ts : List Token} (h : Derives phrase ts) :
    Derives (phrase.shifted k) (ts.map (Token.shifted k)) := by
  induction h with
  | operand _ ih => exact .operand ih
  | binary _ hop _ ihl ihr =>
    rw [List.map_append]
    exact .binary ihl (mem_shifted k hop) ihr
  | unsigned _ ih => exact .unsigned ih
  | signed hop _ ih => exact .signed (mem_shifted k hop) ih
  | plain _ ih => exact .plain ih
  | index _ ht _ hu ihe ihi =>
    rw [List.map_append, List.map_cons, List.map_append]
    exact .index ihe (kind_shifted k ht) ihi (kind_shifted k hu)
  | property _ ht hn ih =>
    rw [List.map_append]
    exact .property ih (kind_shifted k ht) (kind_shifted k hn)
  | constant hv => exact .constant (mem_shifted k hv)
  | number ht hx => exact .number (kind_shifted k ht) hx
  | text ht => exact .text (kind_shifted k ht)
  | name ht => exact .name (kind_shifted k ht)
  | call ht ho _ hu ih =>
    rw [List.map_cons, List.map_cons, List.map_append]
    exact .call (kind_shifted k ht) (kind_shifted k ho) ih (kind_shifted k hu)
  | builtin ht ho _ hu ih =>
    rw [List.map_cons, List.map_cons, List.map_append]
    exact .builtin (mem_shifted k ht) (kind_shifted k ho) ih (kind_shifted k hu)
  | list ht _ hu ih =>
    rw [List.map_cons, List.map_append]
    exact .list (kind_shifted k ht) ih (kind_shifted k hu)
  | group ht _ hu ih =>
    rw [List.map_cons, List.map_append]
    exact .group (kind_shifted k ht) ih (kind_shifted k hu)
  | one _ ih => exact .one ih
  | more _ ht _ ihe ihes =>
    rw [List.map_append]
    exact .more ihe (kind_shifted k ht) ihes
  | nothing => exact .nothing
  | something _ ih => exact .something ih

theorem names_shifted {ns : List String} {ts : List Token} (h : Names ns ts) :
    Names ns (ts.map (Token.shifted k)) := by
  induction h with
  | one hn => exact .one (kind_shifted k hn)
  | more hn ht _ ih => exact .more (kind_shifted k hn) (kind_shifted k ht) ih

/-- The form `k` lines further down. -/
def Form.shifted (k : Int) : Form → Form
  | stmt s => stmt (s.rewritten (.shifting k))
  | stmts ss => stmts (Stmt.rewrittenAll (.shifting k) ss)
  | block b => block (b.rewritten (.shifting k))
  | guarded e b => guarded (e.rewritten (.shifting k)) (b.rewritten (.shifting k))
  | choice keyword s => choice (keyword.shifted k) (s.rewritten (.shifting k))

/-- Tokens further down are the same form further down. -/
theorem builds_shifted {form : Form} {ts : List Token} (h : Builds form ts) :
    Builds (form.shifted k) (ts.map (Token.shifted k)) := by
  induction h with
  | declare ht hn hu =>
    exact .declare (kind_shifted k ht) (kind_shifted k hn) (kind_shifted k hu)
  | declareAs ht hn ha he hu =>
    rw [List.map_cons, List.map_cons, List.map_cons, List.map_append]
    exact .declareAs (kind_shifted k ht) (kind_shifted k hn) (kind_shifted k ha)
      (derives_shifted he) (kind_shifted k hu)
  | assign hn ha he hu =>
    rw [List.map_cons, List.map_cons, List.map_append]
    exact .assign (kind_shifted k hn) (kind_shifted k ha) (derives_shifted he) (kind_shifted k hu)
  | print ht hes hu =>
    rw [List.map_cons, List.map_append]
    exact .print (kind_shifted k ht) (derives_shifted hes) (kind_shifted k hu)
  | branch ht _ ih => exact .branch (kind_shifted k ht) ih
  | loop ht _ ih => exact .loop (kind_shifted k ht) ih
  | function ht hn ho hu _ ih =>
    exact .function (kind_shifted k ht) (kind_shifted k hn) (kind_shifted k ho) (kind_shifted k hu)
      ih
  | functionOf ht hn ho hns hnodup hu _ ih =>
    rw [List.map_cons, List.map_cons, List.map_cons, List.map_append]
    exact .functionOf (kind_shifted k ht) (kind_shifted k hn) (kind_shifted k ho)
      (names_shifted hns) hnodup (kind_shifted k hu) ih
  | giveBack ht hu => exact .giveBack (kind_shifted k ht) (kind_shifted k hu)
  | giveBackOf ht he hu =>
    rw [List.map_cons, List.map_append]
    exact .giveBackOf (kind_shifted k ht) (derives_shifted he) (kind_shifted k hu)
  | stop ht hu => exact .stop (kind_shifted k ht) (kind_shifted k hu)
  | skip ht hu => exact .skip (kind_shifted k ht) (kind_shifted k hu)
  | block _ ih => exact .block ih
  | @expression e ts t u he hopens hu =>
    rw [List.map_cons, List.map_append]
    have hopens' := opens_of_relined hopens (e.relined_shifted (k := k))
    exact .expression (derives_shifted he) hopens' (kind_shifted k hu)
  | none => exact .none
  | more _ _ ihs ihss =>
    rw [List.map_append]
    exact .more ihs ihss
  | braces ht _ hu ih =>
    rw [List.map_cons, List.map_append]
    exact .braces (kind_shifted k ht) ih (kind_shifted k hu)
  | guard ho he hu _ ih =>
    rw [List.map_cons, List.map_append]
    exact .guard (kind_shifted k ho) (derives_shifted he) (kind_shifted k hu) ih
  | alone _ ih => exact .alone ih
  | otherwiseWhen _ ht _ ih ihs =>
    rw [List.map_append]
    exact .otherwiseWhen ih (kind_shifted k ht) ihs
  | otherwiseBranch _ ht hw _ ih ihs =>
    rw [List.map_append]
    exact .otherwiseBranch ih (kind_shifted k ht) (kind_shifted k hw) ihs
  | otherwiseBlock _ ht _ ih ihb =>
    rw [List.map_append]
    exact .otherwiseBlock ih (kind_shifted k ht) ihb

end Grammar

end Boli
