import Boli.Proofs.FaultLines
import Boli.Proofs.Links

/-!
# What a run keeps true of its functions

The functions in the store are values, and a call may come from anywhere.  So a property of a run
that depends on the bodies it comes across needs a property of all functions in the store, and the
run has to keep it.

* `Action.Upholds` says that an action does.  Only a new function adds to the store, and a function
  that is called was in it.
* `Action.Bounds` describes trees and functions together with what a run of them may stop on.
* `Action.sustains_upholds` has it for all parts of a run.  It also tells which jump a statement may
  end with: one that stands in it and that nothing in it catches (`Stmt.Releases`).
-/

namespace Boli

/-! ## Jumps of statements -/

/-- The jump that a statement makes by itself. -/
def Stmt.jump? : Stmt → Option Jump
  | .stop _ => some .stop
  | .skip _ => some .skip
  | .giveBack .. => some .giveBack
  | _ => none

/-- A jump stands in a statement, and nothing in the statement catches it. -/
inductive Stmt.Releases (j : Jump) : Stmt → Prop where
  | here (h : s.jump? = some j) : Releases j s
  | block (hs : s ∈ b.statements) (h : Releases j s) : Releases j (.block b)
  | consequent {line : Line} (h : Releases j s) : Releases j (.branch line e s a)
  | alternate {line : Line} (h : Releases j s) : Releases j (.branch line e c (some s))
  | loop {line : Line} (hs : s ∈ b.statements) (h : Releases j s) (hj : j = .giveBack) :
    Releases j (.loop line e b)

/-- The jump of a signal, if it has one, is as described. -/
def Signal.Asks (Q : Jump → Prop) (signal : Signal) : Prop :=
  ∀ j, signal.jump? = some j → Q j

/-- What a statement passes on, it releases. -/
theorem Stmt.Passes.asks {s c : Stmt} {signal : Signal} (h : s.Passes c signal)
    (hc : signal.Asks fun j => c.Releases j) : signal.Asks fun j => s.Releases j := by
  intro j hj
  cases h with
  | block hmem => exact .block hmem (hc j hj)
  | consequent => exact .consequent (hc j hj)
  | alternate => exact .alternate (hc j hj)
  | loop hmem => exact .loop hmem (hc j hj) (Option.some.inj hj).symm

/-! ## Actions that keep functions as they are described -/

/-- Binding names leaves the functions alone. -/
theorem Store.functions_defineAll (scope : ScopeId) (bs : List (String × Value)) (s : Store) :
    (s.defineAll scope bs).functions = s.functions := by
  induction bs generalizing s with
  | nil => rfl
  | cons b bs ih => exact ih _

namespace Action

variable {α β : Type} {C : Closure → Prop} {E : Stop → Prop} {P Q : α → Prop} {R : β → Prop}

/-- The action keeps all functions as described by `C`.  It ends with a value as described by `Q`,
or for a reason as described by `E`. -/
def Upholds (C : Closure → Prop) (E : Stop → Prop) (x : Action α) (Q : α → Prop) : Prop :=
  ∀ m : Machine, (∀ c ∈ m.store.functions, C c) →
    match x m with
    | .ok a m' => (∀ c ∈ m'.store.functions, C c) ∧ Q a
    | .error e m' => (∀ c ∈ m'.store.functions, C c) ∧ E e

namespace Upholds

theorem pure {a : α} (h : Q a) : Upholds C E (pure a) Q :=
  fun _ hm => ⟨hm, h⟩

theorem throw {e : Stop} (h : E e) : Upholds C E (throw e : Action α) Q :=
  fun _ hm => ⟨hm, h⟩

/-- The second action starts from functions that are still as described. -/
theorem bind {x : Action α} {f : α → Action β} (h : Upholds C E x P)
    (hf : ∀ a, P a → Upholds C E (f a) R) : Upholds C E (x >>= f) R := by
  intro m hm
  have hx := h m hm
  cases heq : x m with
  | ok a m' =>
    rw [heq] at hx
    rw [bind_of_ok heq]
    exact hf a hx.2 m' hx.1
  | error e m' =>
    rw [heq] at hx
    rw [bind_of_error heq]
    exact hx

/-- The action looks at a machine whose functions are as described. -/
theorem get {f : Machine → Action β}
    (h : ∀ m : Machine, (∀ c ∈ m.store.functions, C c) → Upholds C E (f m) R) :
    Upholds C E (get >>= f) R :=
  fun m hm => h m hm m hm

/-- An action that only reports faults on its line keeps the functions, and stops on those. -/
theorem ofReported {line : Line} {x : Action α} (hd : Detached x) (hr : Reported line line x x)
    (hhost : ∀ e, E (.host e)) (hunfinished : E .unfinished)
    (hfault : ∀ cause, cause.isStray = false → E (.fault ⟨cause, line⟩)) :
    Upholds C E x fun _ => True := by
  intro m hm
  cases heq : x m with
  | ok a m' =>
    obtain ⟨-, hfunctions⟩ := hd.ok_eq heq
    exact ⟨fun c hc => hm c (hfunctions ▸ hc), trivial⟩
  | error e m' =>
    obtain ⟨-, hfunctions⟩ := hd.error_eq heq
    refine ⟨fun c hc => hm c (hfunctions ▸ hc), ?_⟩
    have hcaught := hd.caught m e m' heq
    have hends := hr m
    rw [heq] at hends
    cases hends with
    | fault cause => exact hfault cause hcaught
    | host e => exact hhost e
    | unfinished => exact hunfinished

end Upholds

/-! ## Variables and functions -/

/-- A name that is not bound is a reason to stop. -/
theorem lookup_upholds (scope : ScopeId) {name : String} {line : Line}
    (hE : E (.fault ⟨.undefinedVariable name, line⟩)) :
    Upholds C E (lookup scope name line) fun _ => True := by
  refine .get fun m _ => ?_
  cases m.store.lookup? scope name with
  | some v => exact .pure trivial
  | none => exact .throw hE

theorem define_upholds (scope : ScopeId) (name : String) (v : Value) :
    Upholds C E (define scope name v) fun _ => True :=
  fun _ hm => ⟨hm, trivial⟩

theorem assign_upholds (scope : ScopeId) {name : String} (v : Value) {line : Line}
    (hE : E (.fault ⟨.undefinedTarget name, line⟩)) :
    Upholds C E (assign scope name v line) fun _ => True := by
  refine .get fun m _ => ?_
  cases m.store.resolve? scope name with
  | some target => exact define_upholds target name v
  | none => exact .throw hE

/-- A new function has to be as described. -/
theorem newFunction_upholds {c : Closure} (hc : C c) :
    Upholds C E (newFunction c) fun _ => True := by
  intro m hm
  refine ⟨fun c' hc' => ?_, trivial⟩
  rcases Array.mem_push.mp hc' with hc' | rfl
  · exact hm c' hc'
  · exact hc

/-- A function that is called comes from the store. -/
theorem functionNamed_upholds (scope : ScopeId) {name : String} {line : Line}
    (hE : E (.fault ⟨.unknownFunction name, line⟩)) :
    Upholds C E (functionNamed scope name line) C := by
  refine .get fun m hm => ?_
  dsimp only
  cases m.store.lookup? scope name with
  | none => exact .throw hE
  | some v =>
    cases v with
    | function id =>
      dsimp only
      cases hc : m.store.closure? id with
      | none => exact .throw hE
      | some c => exact .pure (hm c (Array.mem_of_getElem? hc))
    | _ => exact .throw hE

/-- A call makes no function. -/
theorem enter_upholds (c : Closure) (args : List Value) {S : ScopeId → Prop} (h : ∀ id, S id) :
    Upholds C E (enter c args) S := by
  have hparameters (scope : ScopeId) :
      Upholds C E (modifyStore (·.defineAll scope (c.parameters.zip args))) fun _ => True := by
    intro m hm
    refine ⟨fun c' hc' => hm c' ?_, trivial⟩
    exact Store.functions_defineAll scope _ m.store ▸ hc'
  have hscope : Upholds C E (newScope c.scope) fun _ => True := fun _ hm => ⟨hm, trivial⟩
  have hrecord : Upholds C E (record (.calling c.name args.length)) fun _ => True :=
    fun _ hm => ⟨hm, trivial⟩
  refine hscope.bind fun scope _ => (hparameters scope).bind fun _ _ => ?_
  exact hrecord.bind fun _ _ => .pure (h scope)

end Action

/-! ## Runs -/

namespace Action

variable {α : Type} {P : Expr → Prop} {Q : Stmt → Prop} {C : Closure → Prop} {E : Stop → Prop}

/-- The trees that are run are as described by `P` and `Q`, and the functions by `C`.  A run of them
may stop for reasons as described by `E`: on a fault on the line of a tree, and on a jump that leaves
a function. -/
structure Bounds (P : Expr → Prop) (Q : Stmt → Prop) (C : Closure → Prop) (E : Stop → Prop) :
    Prop where
  host : ∀ e, E (.host e)
  unfinished : E .unfinished
  expr : ∀ {e : Expr} {cause : Cause}, P e → cause.isStray = false → E (.fault ⟨cause, e.line⟩)
  stmt : ∀ {s : Stmt} {cause : Cause}, Q s → cause.isStray = false → E (.fault ⟨cause, s.line⟩)
  leaving : ∀ {c : Closure} {s : Stmt} {j : Jump}, C c → s ∈ c.body.statements → s.Releases j →
    j ≠ .giveBack → E (.fault ⟨.strayInFunction j c.name, none⟩)
  closure : ∀ {line : Line} {name : String} {ps : List String} {b : Block},
    Q (.function line name ps b) → ∀ scope, C ⟨name, ps, b, scope⟩
  body : ∀ {c : Closure}, C c → ∀ s ∈ c.body.statements, Q s
  below : ∀ {e : Expr}, P e → ∀ c ∈ e.children, P c
  exprs : ∀ {s : Stmt}, Q s → ∀ e ∈ s.exprs, P e
  children : ∀ {s : Stmt}, Q s → s.isCompound = true → ∀ c ∈ s.children, Q c

/-- Any trees, any functions and any reason to stop. -/
theorem Bounds.anything :
    Bounds (fun _ => True) (fun _ => True) (fun _ => True) (fun _ => True) := by
  constructor <;> intros <;> trivial

end Action

/-- Trees and functions are as described, and statements end with the jumps that they release. -/
def Engine.releasing (P : Expr → Prop) (Q : Stmt → Prop) (C : Closure → Prop) : Account Unit where
  signal s _ signal := signal.Asks fun j => s.Releases j
  expr _ _ := P
  stmt _ _ := Q
  closure _ := C

namespace Action

variable {α : Type} {P : Expr → Prop} {Q : Stmt → Prop} {C : Closure → Prop} {E : Stop → Prop}

/-- A jump that leaves a function is one that its body releases. -/
theorem leave_upholds (hb : Bounds P Q C E) {c : Closure} {signal : Signal} (hc : C c)
    (h : (Engine.releasing P Q C).signals c.body.statements () signal) :
    Upholds C E (leave c signal) fun _ => True := by
  have hleaving (j : Jump) (hj : signal.jump? = some j) (hne : j ≠ .giveBack) :
      E (.fault ⟨.strayInFunction j c.name, none⟩) := by
    rcases h with rfl | ⟨s, hs, hsignal⟩
    · cases hj
    · exact hb.leaving hc hs (hsignal j hj) hne
  cases signal with
  | normal => exact .pure trivial
  | giveBack v => exact .pure trivial
  | stop => exact .throw (hleaving .stop rfl nofun)
  | skip => exact .throw (hleaving .skip rfl nofun)

/-- The steps that make no function stop on faults on their lines. -/
theorem upholds_of_elementary (hb : Bounds P Q C E) {w : Unit} {V : Unit → α → Prop}
    {x y : Action α} (h : ElementaryIn (Engine.releasing P Q C) .identity w V x y) :
    Upholds C E x (V ()) := by
  have hexpr {e : Expr} (he : P e) {β : Type} {x : Action β} (hd : Detached x)
      (hr : Reported e.line e.line x x) : Upholds C E x fun _ => True :=
    .ofReported hd hr hb.host hb.unfinished fun _ => hb.expr he
  have hstmt {s : Stmt} (hs : Q s) {β : Type} {x : Action β} (hd : Detached x)
      (hr : Reported s.line s.line x x) : Upholds C E x fun _ => True :=
    .ofReported hd hr hb.host hb.unfinished fun _ => hb.stmt hs
  cases h with
  | lookup he => exact lookup_upholds _ (hb.expr he rfl)
  | binary he => exact hexpr he (binary_detached _ _ _ _) (binary_reported _ _ _)
  | unary he => exact hexpr he (unary_detached _ _ _) (unary_reported _ _)
  | arity he => exact .throw (hb.expr he rfl)
  | requireIndexable he =>
    exact hexpr he (requireIndexable_detached _ _) (requireIndexable_reported _)
  | element he => exact hexpr he (element_detached _ _ _) (element_reported _ _)
  | typeOf he => exact hexpr he (typeOf_detached _) (typeOf_reported _)
  | noProperty he => exact .throw (hb.expr he rfl)
  | newList he => exact hexpr he (newList_detached _) (newList_reported _)
  | misplacedExpr he => exact .throw (hb.expr he rfl)
  | display hs => exact hstmt hs (display_detached _) (display_reported _)
  | write hs => exact hstmt hs (write_detached _) (write_reported _)
  | truth hs => exact hstmt hs (truth_detached _) (truth_reported _)
  | misplacedStmt hs => exact .throw (hb.stmt hs rfl)
  | leave hc hsignal => exact leave_upholds hb hc hsignal
  | unfinishedValue | unfinishedSignal => exact .throw hb.unfinished

/-- What is called is part of the language, or it was in the store. -/
theorem builtinsFirst_upholds (scope : ScopeId) {name : String} {line : Line}
    (hE : E (.fault ⟨.unknownFunction name, line⟩)) :
    Upholds C E (Engine.builtinsFirst scope name line) ((Engine.releasing P Q C).callee ()) := by
  rw [Engine.builtinsFirst]
  cases Builtin.ofName? name with
  | some b => exact .pure trivial
  | none => exact (functionNamed_upholds scope hE).bind fun c hc => .pure hc

/-- All parts of a run keep the functions as described, and stop for no other reasons. -/
theorem sustains_upholds (hb : Bounds P Q C E) (coerce : Bool) :
    Engine.Sustains coerce (fun (_ : Unit) V x => Upholds C E x (V ()))
      (Engine.releasing P Q C) where
  keeps _ := rfl
  pure := .pure
  bind hx hf := hx.bind fun a ha => hf () a le_rfl ha
  elementary := upholds_of_elementary hb
  normal _ _ := nofun
  stop _ _ j hj := .here hj
  skip _ _ j hj := .here hj
  giveBack _ _ _ j hj := .here hj
  passed h hc := h.asks hc
  define _ _ _ := define_upholds _ _ _
  assign hs _ := assign_upholds _ _ (hb.stmt hs rfl)
  newFunction hs := newFunction_upholds (hb.closure hs _)
  callee he hk := (builtinsFirst_upholds _ (hb.expr he rfl)).bind fun callee hc =>
    hk () callee le_rfl hc
  builtin he _ _ := .ofReported (builtin_detached _ _ _) (builtin_reported _ _) hb.host
    hb.unfinished fun _ => hb.expr he
  enter hc _ := enter_upholds _ _ fun _ => hb.body hc
  below := hb.below
  exprs := hb.exprs
  children := hb.children

end Action

end Boli
