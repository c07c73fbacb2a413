import Boli.Syntax.Basic

/-!
# The nodes of a tree

A property of single nodes extends to whole trees: it holds `Everywhere` in a tree if it holds of
the root and everywhere in what stands directly below.  A statement has expressions and statements
below it, and the body of a function counts among the latter.  `Block.HasStmt` and `Block.HasExpr`
tell what stands in a block at any depth.

`Expr.inductionOn` and `Stmt.inductionOn` prove something of all trees by going from what stands
directly below a node to the node itself.
-/

namespace Boli

namespace Expr

/-- The line of an expression. -/
def line : Expr → Line
  | literal line .. | name line _ | binary line .. | unary line .. | call line .. | index line ..
  | property line .. | list line _ | misplaced line _ => line

/-- The expressions directly below an expression. -/
def children : Expr → List Expr
  | binary _ _ left right => [left, right]
  | unary _ _ argument => [argument]
  | call _ _ arguments => arguments
  | index _ target position => [target, position]
  | property _ target _ => [target]
  | list _ elements => elements
  | literal .. | name .. | misplaced .. => []

theorem sizeOf_lt_of_mem_children {c e : Expr} (h : c ∈ e.children) : sizeOf c < sizeOf e := by
  cases e with
  | call line callee args | list line args =>
    have hlt : sizeOf c < sizeOf args := List.sizeOf_lt_of_mem h
    simp only [call.sizeOf_spec, list.sizeOf_spec]
    omega
  | binary line op left right | index line left right =>
    simp only [children, List.mem_cons, List.not_mem_nil, or_false] at h
    rcases h with rfl | rfl <;> simp only [binary.sizeOf_spec, index.sizeOf_spec] <;> omega
  | unary line op argument | property line argument name =>
    obtain rfl := List.mem_singleton.1 h
    simp only [unary.sizeOf_spec, property.sizeOf_spec]
    omega
  | literal | name | misplaced => cases h

/-- What goes from the expressions directly below an expression to the expression itself holds of all
expressions. -/
@[elab_as_elim]
theorem inductionOn {motive : Expr → Prop} (e : Expr)
    (step : ∀ e, (∀ c ∈ e.children, motive c) → motive e) : motive e :=
  step e fun c _ => inductionOn c step
termination_by e
decreasing_by exact sizeOf_lt_of_mem_children (by assumption)

/-- The property holds of all nodes of an expression. -/
inductive Everywhere (P : Expr → Prop) : Expr → Prop where
  | intro (here : P e) (below : ∀ c ∈ e.children, Everywhere P c) : Everywhere P e

namespace Everywhere

variable {P : Expr → Prop} {e : Expr}

theorem root (h : Everywhere P e) : P e := by
  cases h
  assumption

theorem child (h : Everywhere P e) {c : Expr} (hc : c ∈ e.children) : Everywhere P c := by
  cases h with
  | intro _ below => exact below c hc

/-- A weaker property holds everywhere as well. -/
theorem mono {P' : Expr → Prop} (h : Everywhere P e) (hP : ∀ e, P e → P' e) :
    Everywhere P' e := by
  induction h with
  | intro here _ ih => exact .intro (hP _ here) ih

end Everywhere

end Expr

namespace Stmt

/-- The expressions directly below a statement. -/
def exprs : Stmt → List Expr
  | declare _ _ initial => initial.toList
  | assign _ _ value | expression _ value => [value]
  | print _ values => values
  | branch _ condition _ _ | loop _ condition _ => [condition]
  | giveBack _ value => value.toList
  | block _ | function .. | stop _ | skip _ | misplaced .. => []

/-- The statements directly below a statement. -/
def children : Stmt → List Stmt
  | block body | loop _ _ body | function _ _ _ body => body.statements
  | branch _ _ consequent alternate => consequent :: alternate.toList
  | declare .. | assign .. | print .. | giveBack .. | stop _ | skip _ | expression .. => []
  | misplaced .. => []

/-- The name that a statement declares by itself. -/
def declared? : Stmt → Option String
  | declare _ name _ | function _ name _ _ => some name
  | _ => none

/-- The statement runs others in its own scope. -/
def isCompound : Stmt → Bool
  | block _ | branch .. | loop .. => true
  | _ => false

theorem sizeOf_lt_of_mem_statements {c : Stmt} {b : Block} (h : c ∈ b.statements) :
    sizeOf c < sizeOf b := by
  obtain ⟨line, ss⟩ := b
  have hlt : sizeOf c < sizeOf ss := List.sizeOf_lt_of_mem h
  rw [Block.mk.sizeOf_spec]
  omega

theorem sizeOf_lt_of_mem_children {c s : Stmt} (h : c ∈ s.children) : sizeOf c < sizeOf s := by
  cases s with
  | block b | loop line e b | function line name ps b =>
    have hlt := sizeOf_lt_of_mem_statements h
    simp only [block.sizeOf_spec, loop.sizeOf_spec, function.sizeOf_spec]
    omega
  | branch line e consequent alternate =>
    simp only [branch.sizeOf_spec]
    rcases List.mem_cons.1 h with rfl | h
    · omega
    · obtain rfl := Option.mem_toList.1 h
      simp only [Option.some.sizeOf_spec]
      omega
  | _ => cases h

/-- What goes from the statements directly below a statement to the statement itself holds of all
statements. -/
@[elab_as_elim]
theorem inductionOn {motive : Stmt → Prop} (s : Stmt)
    (step : ∀ s, (∀ c ∈ s.children, motive c) → motive s) : motive s :=
  step s fun c _ => inductionOn c step
termination_by s
decreasing_by exact sizeOf_lt_of_mem_children (by assumption)

/-- The properties hold of all nodes of a statement. -/
inductive Everywhere (P : Expr → Prop) (Q : Stmt → Prop) : Stmt → Prop where
  | intro (here : Q s) (exprs : ∀ e ∈ s.exprs, e.Everywhere P)
    (below : ∀ c ∈ s.children, Everywhere P Q c) : Everywhere P Q s

namespace Everywhere

variable {P : Expr → Prop} {Q : Stmt → Prop} {s : Stmt}

theorem root (h : Everywhere P Q s) : Q s := by
  cases h
  assumption

theorem expr (h : Everywhere P Q s) {e : Expr} (he : e ∈ s.exprs) : e.Everywhere P := by
  cases h with
  | intro _ exprs _ => exact exprs e he

theorem child (h : Everywhere P Q s) {c : Stmt} (hc : c ∈ s.children) : Everywhere P Q c := by
  cases h with
  | intro _ _ below => exact below c hc

/-- Weaker properties hold everywhere as well. -/
theorem mono {P' : Expr → Prop} {Q' : Stmt → Prop} (h : Everywhere P Q s)
    (hP : ∀ e, P e → P' e) (hQ : ∀ s, Q s → Q' s) : Everywhere P' Q' s := by
  induction h with
  | intro here exprs _ ih => exact .intro (hQ _ here) (fun e he => (exprs e he).mono hP) ih

end Everywhere

end Stmt

namespace Block

/-- The properties hold everywhere in a block. -/
def Everywhere (P : Expr → Prop) (Q : Stmt → Prop) (b : Block) : Prop :=
  ∀ s ∈ b.statements, s.Everywhere P Q

/-- The statement stands somewhere in the block. -/
inductive HasStmt (b : Block) : Stmt → Prop where
  | top (h : s ∈ b.statements) : HasStmt b s
  | inside (h : HasStmt b s) (hc : c ∈ s.children) : HasStmt b c

/-- The expression stands somewhere in the block. -/
inductive HasExpr (b : Block) : Expr → Prop where
  | top (h : b.HasStmt s) (he : e ∈ s.exprs) : HasExpr b e
  | inside (h : HasExpr b e) (hc : c ∈ e.children) : HasExpr b c

variable {P : Expr → Prop} {Q : Stmt → Prop} {b : Block}

/-- What holds everywhere in a block holds everywhere in the statements at any depth. -/
theorem Everywhere.stmt (h : b.Everywhere P Q) {s : Stmt} (hs : b.HasStmt s) :
    s.Everywhere P Q := by
  induction hs with
  | top hs => exact h _ hs
  | inside _ hc ih => exact ih.child hc

/-- And in the expressions at any depth. -/
theorem Everywhere.expr (h : b.Everywhere P Q) {e : Expr} (he : b.HasExpr e) :
    e.Everywhere P := by
  induction he with
  | top hs he => exact (h.stmt hs).expr he
  | inside _ hc ih => exact ih.child hc

end Block

end Boli
