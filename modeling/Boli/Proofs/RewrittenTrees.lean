import Mathlib.Data.List.Forall2
import Mathlib.Data.Option.Defs
import Boli.Proofs.Trees

/-!
# Trees with other lines and constants

A rewriting changes the lines of a tree, its constants, or both, and leaves the rest of the tree as
it is.

* `Expr.rewritten`, `Stmt.rewritten` and `Block.rewritten` rewrite trees, inside functions as well.
* `Rewriting.identity` changes nothing (`Block.rewritten_identity`), and one rewriting after another
  is a rewriting (`Block.rewritten_rewritten`).
* `Rewriting.unlining` takes the lines away, and `Block.unlined` is the tree without them.

Two readings of the same words give trees that differ in their lines at most.  Such trees are related
node by node: each node is related to another one of its kind if the parts of the two are
(`Expr.Relined`, `Stmt.Relined`).
-/

namespace Boli

/-- What becomes of the lines and the constants of a tree. -/
structure Rewriting where
  /-- The line in place of a line. -/
  line : Line → Line
  /-- A node that is on no line stays so. -/
  line_none : line none = none
  /-- The value in place of a constant. -/
  constant : Value → Value

namespace Rewriting

/-- Nothing changes. -/
def identity : Rewriting := ⟨id, rfl, id⟩

/-- Lines go, and constants stay. -/
def unlining : Rewriting := ⟨fun _ => none, rfl, id⟩

/-- The first rewriting, and then the second one. -/
def andThen (r r' : Rewriting) : Rewriting where
  line line := r'.line (r.line line)
  line_none := by rw [r.line_none, r'.line_none]
  constant v := r'.constant (r.constant v)

@[simp] theorem line_identity (line : Line) : identity.line line = line := rfl

@[simp] theorem constant_identity (v : Value) : identity.constant v = v := rfl

@[simp] theorem line_unlining (line : Line) : unlining.line line = none := rfl

@[simp] theorem line_andThen (r r' : Rewriting) (line : Line) :
    (r.andThen r').line line = r'.line (r.line line) := rfl

@[simp] theorem constant_andThen (r r' : Rewriting) (v : Value) :
    (r.andThen r').constant v = r'.constant (r.constant v) := rfl

/-- What was changed before does not matter if the lines go. -/
theorem andThen_unlining {r : Rewriting} (h : r.constant = id) : r.andThen unlining = unlining := by
  simp only [andThen, unlining, h, id]
  rfl

end Rewriting

/-! ## Rewritten trees -/

mutual

/-- The expression with other lines and constants. -/
def Expr.rewritten (r : Rewriting) : Expr → Expr
  | .literal line v raw => .literal (r.line line) (r.constant v) raw
  | .name line id => .name (r.line line) id
  | .binary line op left right => .binary (r.line line) op (left.rewritten r) (right.rewritten r)
  | .unary line op e => .unary (r.line line) op (e.rewritten r)
  | .call line callee args =>
    .call (r.line line) ⟨r.line callee.line, callee.name⟩ (Expr.rewrittenAll r args)
  | .index line e i => .index (r.line line) (e.rewritten r) (i.rewritten r)
  | .property line e n => .property (r.line line) (e.rewritten r) ⟨r.line n.line, n.name⟩
  | .list line es => .list (r.line line) (Expr.rewrittenAll r es)
  | .misplaced line form => .misplaced (r.line line) form
termination_by structural e => e

/-- The expressions with other lines and constants. -/
def Expr.rewrittenAll (r : Rewriting) : List Expr → List Expr
  | [] => []
  | e :: es => e.rewritten r :: Expr.rewrittenAll r es
termination_by structural es => es

end

mutual

/-- The statement with other lines and constants. -/
def Stmt.rewritten (r : Rewriting) : Stmt → Stmt
  | .declare line name e => .declare (r.line line) name (e.map (Expr.rewritten r))
  | .assign line name e => .assign (r.line line) name (e.rewritten r)
  | .print line es => .print (r.line line) (Expr.rewrittenAll r es)
  | .block b => .block (b.rewritten r)
  | .branch line e s none => .branch (r.line line) (e.rewritten r) (s.rewritten r) none
  | .branch line e s (some a) =>
    .branch (r.line line) (e.rewritten r) (s.rewritten r) (some (a.rewritten r))
  | .loop line e b => .loop (r.line line) (e.rewritten r) (b.rewritten r)
  | .function line name ps b => .function (r.line line) name ps (b.rewritten r)
  | .giveBack line e => .giveBack (r.line line) (e.map (Expr.rewritten r))
  | .stop line => .stop (r.line line)
  | .skip line => .skip (r.line line)
  | .expression line e => .expression (r.line line) (e.rewritten r)
  | .misplaced line form => .misplaced (r.line line) form
termination_by structural s => s

/-- The statements with other lines and constants. -/
def Stmt.rewrittenAll (r : Rewriting) : List Stmt → List Stmt
  | [] => []
  | s :: ss => s.rewritten r :: Stmt.rewrittenAll r ss
termination_by structural ss => ss

/-- The block with other lines and constants. -/
def Block.rewritten (r : Rewriting) : Block → Block
  | .mk line ss => .mk (r.line line) (Stmt.rewrittenAll r ss)
termination_by structural b => b

end

variable {r r' : Rewriting}

theorem Expr.rewrittenAll_eq_map (r : Rewriting) (es : List Expr) :
    Expr.rewrittenAll r es = es.map (Expr.rewritten r) := by
  induction es with
  | nil => rfl
  | cons e es ih => rw [Expr.rewrittenAll, List.map_cons, ih]

theorem Stmt.rewrittenAll_eq_map (r : Rewriting) (ss : List Stmt) :
    Stmt.rewrittenAll r ss = ss.map (Stmt.rewritten r) := by
  induction ss with
  | nil => rfl
  | cons s ss ih => rw [Stmt.rewrittenAll, List.map_cons, ih]

theorem Stmt.line_rewritten (s : Stmt) : (s.rewritten r).line = r.line s.line := by
  cases s with
  | block b =>
    cases b with
    | mk line ss => rfl
  | branch line e s alternate => cases alternate <;> rfl
  | _ => rfl

theorem Block.statements_rewritten (b : Block) :
    (b.rewritten r).statements = Stmt.rewrittenAll r b.statements := by
  cases b with
  | mk line ss => rfl

/-! ## Laws of rewriting -/

/-- One rewriting after another. -/
theorem Expr.rewritten_rewritten (r r' : Rewriting) (e : Expr) :
    (e.rewritten r).rewritten r' = e.rewritten (r.andThen r') := by
  induction e using Expr.inductionOn with
  | step e ih => cases e <;> simp_all [children, rewritten, rewrittenAll_eq_map]

/-- A block is rewritten twice as its statements are. -/
theorem Block.rewritten_rewritten_of_statements {b : Block}
    (h : ∀ s ∈ b.statements, (s.rewritten r).rewritten r' = s.rewritten (r.andThen r')) :
    (b.rewritten r).rewritten r' = b.rewritten (r.andThen r') := by
  obtain ⟨line, ss⟩ := b
  simp_all [rewritten, Stmt.rewrittenAll_eq_map, statements]

/-- One rewriting after another, also inside functions. -/
theorem Stmt.rewritten_rewritten (r r' : Rewriting) (s : Stmt) :
    (s.rewritten r).rewritten r' = s.rewritten (r.andThen r') := by
  have hexpr (e : Expr) := e.rewritten_rewritten r r'
  induction s using Stmt.inductionOn with
  | step s ih =>
    cases s with
    | block b | loop line e b | function line name ps b =>
      simp [rewritten, hexpr, Block.rewritten_rewritten_of_statements ih]
    | branch line e s alternate => cases alternate <;> simp_all [children, rewritten]
    | declare line name e | giveBack line e => cases e <;> simp [rewritten, hexpr]
    | _ => simp [rewritten, Expr.rewrittenAll_eq_map, hexpr]

theorem Block.rewritten_rewritten (r r' : Rewriting) (b : Block) :
    (b.rewritten r).rewritten r' = b.rewritten (r.andThen r') :=
  rewritten_rewritten_of_statements fun s _ => s.rewritten_rewritten r r'

/-- Nothing of an expression changes if neither lines nor constants do. -/
theorem Expr.rewritten_identity (e : Expr) : e.rewritten .identity = e := by
  induction e using Expr.inductionOn with
  | step e ih =>
    have hall (es : List Expr) (h : ∀ c ∈ es, c.rewritten .identity = c) :
        rewrittenAll .identity es = es := by
      rw [rewrittenAll_eq_map, List.map_congr_left h, List.map_id']
    cases e with
    | call line callee args | list line args => simp [rewritten, hall args ih]
    | _ => simp_all [children, rewritten]

theorem Block.rewritten_identity_of_statements {b : Block}
    (h : ∀ s ∈ b.statements, s.rewritten .identity = s) : b.rewritten .identity = b := by
  obtain ⟨line, ss⟩ := b
  change ∀ s ∈ ss, s.rewritten .identity = s at h
  rw [rewritten, Stmt.rewrittenAll_eq_map, List.map_congr_left h, List.map_id']
  rfl

/-- Nothing of a statement changes either. -/
theorem Stmt.rewritten_identity (s : Stmt) : s.rewritten .identity = s := by
  have hexpr : Expr.rewritten .identity = id := funext Expr.rewritten_identity
  induction s using Stmt.inductionOn with
  | step s ih =>
    cases s with
    | block b | loop line e b | function line name ps b =>
      simp [rewritten, hexpr, Block.rewritten_identity_of_statements ih]
    | branch line e s alternate => cases alternate <;> simp_all [children, rewritten]
    | _ => simp [rewritten, Expr.rewrittenAll_eq_map, hexpr]

theorem Stmt.rewrittenAll_identity (ss : List Stmt) : Stmt.rewrittenAll .identity ss = ss := by
  rw [Stmt.rewrittenAll_eq_map, List.map_congr_left fun s _ => s.rewritten_identity, List.map_id']

theorem Block.rewritten_identity (b : Block) : b.rewritten .identity = b :=
  rewritten_identity_of_statements fun s _ => s.rewritten_identity

/-! ## Trees that differ in their lines -/

/-- The expression without its lines. -/
def Expr.unlined (e : Expr) : Expr := e.rewritten .unlining

/-- The statement without its lines. -/
def Stmt.unlined (s : Stmt) : Stmt := s.rewritten .unlining

/-- The block without its lines. -/
def Block.unlined (b : Block) : Block := b.rewritten .unlining

/-- The expressions differ at most in their lines. -/
def Expr.Relined (e e' : Expr) : Prop := e.unlined = e'.unlined

/-- The statements differ at most in their lines. -/
def Stmt.Relined (s s' : Stmt) : Prop := s.unlined = s'.unlined

/-- The blocks differ at most in their lines. -/
def Block.Relined (b b' : Block) : Prop := b.unlined = b'.unlined

/-- Expressions that are related one by one are the same without their lines. -/
theorem Expr.rewrittenAll_eq_of_relined {es es' : List Expr}
    (h : List.Forall₂ Expr.Relined es es') :
    Expr.rewrittenAll .unlining es = Expr.rewrittenAll .unlining es' := by
  induction h with
  | nil => rfl
  | cons he _ ih => exact congrArg₂ List.cons he ih

/-- Statements that are related one by one are the same without their lines. -/
theorem Stmt.rewrittenAll_eq_of_relined {ss ss' : List Stmt}
    (h : List.Forall₂ Stmt.Relined ss ss') :
    Stmt.rewrittenAll .unlining ss = Stmt.rewrittenAll .unlining ss' := by
  induction h with
  | nil => rfl
  | cons hs _ ih => exact congrArg₂ List.cons hs ih

/-- An expression that may be missing is there in both trees or in none. -/
theorem Expr.map_unlined_eq_of_relined {e e' : Option Expr} (h : Option.Rel Expr.Relined e e') :
    e.map Expr.unlined = e'.map Expr.unlined := by
  cases h with
  | none => rfl
  | some h => exact congrArg some h

theorem Block.relined_mk {line line' : Line} {ss ss' : List Stmt}
    (h : List.Forall₂ Stmt.Relined ss ss') : Block.Relined (.mk line ss) (.mk line' ss') :=
  congrArg (Block.mk none) (Stmt.rewrittenAll_eq_of_relined h)

section Nodes

variable {line line' : Line} {n n' : String} {e e' f f' : Expr} {es es' : List Expr}
  {b b' : Block}

namespace Expr.Relined

theorem literal {v : Value} {raw raw' : String} (h : raw = raw') :
    (Expr.literal line v raw).Relined (.literal line' v raw') :=
  congrArg (Expr.literal none v) h

theorem name (h : n = n') : (Expr.name line n).Relined (.name line' n') :=
  congrArg (Expr.name none) h

theorem binary {op : Op} (he : e.Relined e') (hf : f.Relined f') :
    (Expr.binary line op e f).Relined (.binary line' op e' f') :=
  congrArg₂ (Expr.binary none op) he hf

theorem unary {op : Op} (he : e.Relined e') :
    (Expr.unary line op e).Relined (.unary line' op e') :=
  congrArg (Expr.unary none op) he

/-- The name that is called is on a line of its own, which does not matter either. -/
theorem call {callee callee' : Ident} (h : callee.name = callee'.name)
    (hes : List.Forall₂ Expr.Relined es es') :
    (Expr.call line callee es).Relined (.call line' callee' es') :=
  congrArg₂ (fun n as => Expr.call none ⟨none, n⟩ as) h (rewrittenAll_eq_of_relined hes)

theorem index (he : e.Relined e') (hf : f.Relined f') :
    (Expr.index line e f).Relined (.index line' e' f') :=
  congrArg₂ (Expr.index none) he hf

theorem property {property property' : Ident} (he : e.Relined e')
    (h : property.name = property'.name) :
    (Expr.property line e property).Relined (.property line' e' property') :=
  congrArg₂ (fun e n => Expr.property none e ⟨none, n⟩) he h

theorem list (hes : List.Forall₂ Expr.Relined es es') :
    (Expr.list line es).Relined (.list line' es') :=
  congrArg (Expr.list none) (rewrittenAll_eq_of_relined hes)

end Expr.Relined

namespace Stmt.Relined

theorem declare {initial initial' : Option Expr} (h : n = n')
    (he : Option.Rel Expr.Relined initial initial') :
    (Stmt.declare line n initial).Relined (.declare line' n' initial') :=
  congrArg₂ (Stmt.declare none) h (Expr.map_unlined_eq_of_relined he)

theorem assign (h : n = n') (he : e.Relined e') :
    (Stmt.assign line n e).Relined (.assign line' n' e') :=
  congrArg₂ (Stmt.assign none) h he

theorem print (hes : List.Forall₂ Expr.Relined es es') :
    (Stmt.print line es).Relined (.print line' es') :=
  congrArg (Stmt.print none) (Expr.rewrittenAll_eq_of_relined hes)

theorem block (hb : b.Relined b') : (Stmt.block b).Relined (.block b') :=
  congrArg Stmt.block hb

/-- The other side of a branch may be missing in both trees. -/
theorem branch {s s' : Stmt} {alternate alternate' : Option Stmt} (he : e.Relined e')
    (hs : s.Relined s') (ha : Option.Rel Stmt.Relined alternate alternate') :
    (Stmt.branch line e s alternate).Relined (.branch line' e' s' alternate') := by
  have hboth {a : Option Stmt} : Stmt.branch none e.unlined s.unlined a =
      .branch none e'.unlined s'.unlined a :=
    congrArg₂ (fun e s => Stmt.branch none e s a) he hs
  cases ha with
  | none => exact hboth
  | some ha => exact hboth.trans (congrArg (fun a => Stmt.branch none _ _ (some a)) ha)

theorem loop (he : e.Relined e') (hb : b.Relined b') :
    (Stmt.loop line e b).Relined (.loop line' e' b') :=
  congrArg₂ (Stmt.loop none) he hb

theorem function {ps : List String} (h : n = n') (hb : b.Relined b') :
    (Stmt.function line n ps b).Relined (.function line' n' ps b') :=
  congrArg₂ (fun n b => Stmt.function none n ps b) h hb

theorem giveBack {value value' : Option Expr} (he : Option.Rel Expr.Relined value value') :
    (Stmt.giveBack line value).Relined (.giveBack line' value') :=
  congrArg (Stmt.giveBack none) (Expr.map_unlined_eq_of_relined he)

theorem expression (he : e.Relined e') :
    (Stmt.expression line e).Relined (.expression line' e') :=
  congrArg (Stmt.expression none) he

end Stmt.Relined

end Nodes

end Boli
