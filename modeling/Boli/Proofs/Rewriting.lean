import Boli.Proofs.FaultLines
import Boli.Proofs.Links

/-!
# Programs with other lines and constants

If the new constants of a rewriting mean what the old ones meant, the rewritten program does what the
program did.  It ends in the same way and leaves the same machine behind, except that the functions
it has defined are rewritten too, and that a fault is on the new line.

* `Machine.rewritten` rewrites the functions of a machine, and leaves all else.
* `Action.Mirrors` says that one action does on the rewritten machine what another one does on the
  machine itself.
* `Action.links_mirrors` has it for all parts of a run, and `Action.topLevel_mirrors` is the result.
-/

namespace Boli

variable {r : Rewriting}

/-! ## Machines -/

/-- The machine with its functions rewritten. -/
def Machine.rewritten (r : Rewriting) (m : Machine) : Machine :=
  m.refit m.store.scopes (m.store.functions.map (Closure.rewritten r))

/-- The stop with the line of its fault rewritten. -/
def Stop.rewritten (r : Rewriting) : Stop → Stop
  | fault f => fault { f with line := r.line f.line }
  | host e => host e
  | unfinished => unfinished

namespace Machine

theorem scopes_rewritten (m : Machine) : (m.rewritten r).store.scopes = m.store.scopes :=
  rfl

/-- Rewriting a function leaves its name. -/
theorem sameNames_rewritten (m : Machine) :
    SameNames (m.store.functions.map (Closure.rewritten r)) m := by
  rw [SameNames, Array.map_map]
  rfl

theorem closure?_rewritten (m : Machine) (id : FunctionId) :
    (m.rewritten r).store.closure? id = (m.store.closure? id).map (Closure.rewritten r) :=
  Array.getElem?_map

/-- A fresh machine has no functions to be rewritten. -/
theorem rewritten_fresh (input : InputSource) (sink : Sink) :
    (Machine.fresh input sink).rewritten r = .fresh input sink := by
  simp [Machine.rewritten, Machine.refit, Machine.fresh]

end Machine

/-! ## Mirrored actions -/

namespace Action

variable {α β γ δ : Type}

/-- The second action does on the rewritten machine what the first one does on the machine itself,
and `g` takes the value of the first to that of the second. -/
def Mirrors (r : Rewriting) (g : α → β) (x : Action α) (y : Action β) : Prop :=
  ∀ m : Machine, y (m.rewritten r) =
    match x m with
    | .ok a m' => .ok (g a) (m'.rewritten r)
    | .error e m' => .error (e.rewritten r) (m'.rewritten r)

namespace Mirrors

theorem pure (g : α → β) (a : α) : Mirrors r g (pure a) (pure (g a)) :=
  fun _ => rfl

theorem throw (g : α → β) (e : Stop) : Mirrors r g (throw e) (throw (e.rewritten r)) :=
  fun _ => rfl

theorem fail (g : α → β) (cause : Cause) (line : Line) :
    Mirrors r g (fail cause line) (Action.fail cause (r.line line)) :=
  throw g _

/-- A fault on no line stays on no line. -/
theorem failNowhere (g : α → β) (cause : Cause) :
    Mirrors r g (Action.fail cause none) (Action.fail cause none) := by
  have hfail := fail (r := r) g cause none
  rwa [r.line_none] at hfail

/-- What follows has to be mirrored only for values that the first action gives. -/
theorem bind {g : α → β} {k : γ → δ} {x : Action α} {y : Action β} {f : α → Action γ}
    {f' : β → Action δ} (h : Mirrors r g x y)
    (hf : ∀ a, (∃ m m', x m = .ok a m') → Mirrors r k (f a) (f' (g a))) :
    Mirrors r k (x >>= f) (y >>= f') := by
  intro m
  have hxy := h m
  cases hx : x m with
  | ok a m' =>
    rw [hx] at hxy
    rw [bind_of_ok hx, bind_of_ok hxy]
    exact hf a ⟨m, m', hx⟩ m'
  | error e m' =>
    rw [hx] at hxy
    rw [bind_of_error hx, bind_of_error hxy]

/-- Both actions look at their machine. -/
theorem get {k : γ → δ} {f : Machine → Action γ} {f' : Machine → Action δ}
    (h : ∀ m, Mirrors r k (f m) (f' (m.rewritten r))) : Mirrors r k (get >>= f) (get >>= f') :=
  fun m => h m m

/-- An action that does not look at scopes and functions mirrors itself, on the line it is told. -/
theorem ofDetached {line : Line} {x x' : Action α} (hd : Detached x')
    (hr : Reported line (r.line line) x x') : Mirrors r id x x' := by
  intro m
  have hrefit : x' (m.rewritten r) = onMachine _ (x' m) :=
    hd.refit m m.store.scopes _ m.sameNames_rewritten
  -- what the action leaves behind has the scopes and functions it was given
  have hkept := hd.onMachine_eq m
  have hends := hr m
  generalize x m = e, x' m = e' at hends hrefit hkept
  refine hrefit.trans ?_
  cases hends <;>
    · injection hkept with _ hm
      rw [← hm]
      rfl

/-- An action without a line mirrors itself. -/
theorem ofUnlined {x : Action α} (hd : Detached x) (hr : Reported none none x x) :
    Mirrors r id x x := by
  have hlines : Reported none (r.line none) x x := r.line_none.symm ▸ hr
  exact ofDetached hd hlines

end Mirrors

/-! ## Values, variables and functions -/

/-- Names have the same values on both machines. -/
theorem lookup_mirrors (scope : ScopeId) (name : String) (line : Line) :
    Mirrors r id (lookup scope name line) (lookup scope name (r.line line)) := by
  refine .get fun m => ?_
  have hlookup : (m.rewritten r).store.lookup? scope name = m.store.lookup? scope name :=
    Store.lookup?_congr m.scopes_rewritten scope name
  rw [hlookup]
  cases m.store.lookup? scope name with
  | some v => exact .pure id v
  | none => exact .fail id _ _

theorem define_mirrors (scope : ScopeId) (name : String) (v : Value) :
    Mirrors r id (define scope name v) (define scope name v) :=
  fun _ => rfl

theorem assign_mirrors (scope : ScopeId) (name : String) (v : Value) (line : Line) :
    Mirrors r id (assign scope name v line) (assign scope name v (r.line line)) := by
  refine .get fun m => ?_
  have hresolve : (m.rewritten r).store.resolve? scope name = m.store.resolve? scope name :=
    Store.resolve?_congr m.scopes_rewritten scope name
  rw [hresolve]
  cases m.store.resolve? scope name with
  | some target => exact define_mirrors target name v
  | none => exact .fail id _ _

/-- A new function gets the same number on both machines. -/
theorem newFunction_mirrors (c : Closure) :
    Mirrors r id (newFunction c) (newFunction (c.rewritten r)) := by
  intro m
  show EStateM.Result.ok (Value.function ⟨(m.store.functions.map (Closure.rewritten r)).size⟩)
    (m.refit m.store.scopes
      ((m.store.functions.map (Closure.rewritten r)).push (c.rewritten r))) = _
  rw [Array.size_map, ← Array.map_push]
  rfl

/-- The function that is called on the rewritten machine is the rewritten one. -/
theorem functionNamed_mirrors (scope : ScopeId) (name : String) (line : Line) :
    Mirrors r (Closure.rewritten r) (functionNamed scope name line)
      (functionNamed scope name (r.line line)) := by
  refine .get fun m => ?_
  have hlookup : (m.rewritten r).store.lookup? scope name = m.store.lookup? scope name :=
    Store.lookup?_congr m.scopes_rewritten scope name
  dsimp only
  rw [hlookup]
  cases m.store.lookup? scope name with
  | none => exact .fail _ _ _
  | some v =>
    cases v with
    | function id =>
      dsimp only
      rw [m.closure?_rewritten id]
      cases m.store.closure? id with
      | none => exact .fail _ _ _
      | some c => exact .pure _ c
    | _ => exact .fail _ _ _

theorem defineAll_mirrors (scope : ScopeId) (bs : List (String × Value)) :
    Mirrors r id (modifyStore (·.defineAll scope bs)) (modifyStore (·.defineAll scope bs)) := by
  intro m
  induction bs generalizing m with
  | nil => rfl
  | cons b bs ih => exact ih { m with store := m.store.define scope b.1 b.2 }

/-- A rewritten function has the same parameters and the same scope. -/
theorem enter_mirrors (c : Closure) (args : List Value) :
    Mirrors r id (enter c args) (enter (c.rewritten r) args) := by
  have hscope : Mirrors r id (newScope c.scope) (newScope (c.rewritten r).scope) := fun _ => rfl
  have hrecord : Mirrors r id (record (.calling c.name args.length))
      (record (.calling (c.rewritten r).name args.length)) := fun _ => rfl
  refine hscope.bind fun scope _ => ?_
  exact (defineAll_mirrors scope _).bind fun _ _ => hrecord.bind fun _ _ => .pure id scope

/-- A jump that leaves a function is on no line, before and after. -/
theorem leave_mirrors (c : Closure) (signal : Signal) :
    Mirrors r id (leave c signal) (leave (c.rewritten r) signal) := by
  cases signal with
  | normal => exact .pure id _
  | giveBack v => exact .pure id v
  | stop | skip => exact .failNowhere id _

/-- Functions of the language are found on both machines. -/
theorem builtinsFirst_mirrors (scope : ScopeId) (name : String) (line : Line) :
    Mirrors r (Callee.rewritten r) (Engine.builtinsFirst scope name line)
      (Engine.builtinsFirst scope name (r.line line)) := by
  unfold Engine.builtinsFirst
  cases Builtin.ofName? name with
  | some b => exact .pure (Callee.rewritten r) (Callee.builtin b)
  | none =>
    refine (functionNamed_mirrors scope name line).bind fun c _ => ?_
    exact .pure (Callee.rewritten r) (Callee.function c)

/-! ## Expressions and statements -/

/-- The second action mirrors the first one, whose values are as described. -/
structure MirrorsAs (r : Rewriting) (V : α → Prop) (x y : Action α) : Prop where
  mirrors : Mirrors r id x y
  value : ∀ m a m', x m = .ok a m' → V a

theorem MirrorsAs.pure {V : α → Prop} {a : α} (h : V a) :
    MirrorsAs r V (Pure.pure a) (Pure.pure a) := by
  refine ⟨.pure id a, fun m a' m' heq => ?_⟩
  cases heq
  exact h

theorem MirrorsAs.bind {V : α → Prop} {U : β → Prop} {x y : Action α} {f g : α → Action β}
    (h : MirrorsAs r V x y) (hf : ∀ a, V a → MirrorsAs r U (f a) (g a)) :
    MirrorsAs r U (x >>= f) (y >>= g) where
  mirrors := h.mirrors.bind fun a ⟨m, m', hx⟩ => (hf a (h.value m a m' hx)).mirrors
  value m b m' hb := by
    obtain ⟨a, m₁, hx, hb⟩ := exists_of_bind_eq_ok hb
    exact (hf a (h.value m a m₁ hx)).value m₁ b m' hb

/-- Nothing needs to be said of the values. -/
theorem Mirrors.any {x y : Action α} (h : Mirrors r id x y) : MirrorsAs r (fun _ => True) x y :=
  ⟨h, fun _ _ _ _ => trivial⟩

/-- The steps that bind no name and make no function mirror themselves. -/
theorem mirrors_of_elementary {w : Unit} {V : Unit → α → Prop} {x y : Action α}
    (h : ElementaryIn {} r w V x y) : MirrorsAs r (V ()) x y := by
  cases h with
  | lookup => exact (lookup_mirrors _ _ _).any
  | binary => exact (Mirrors.ofDetached (binary_detached _ _ _ _) (binary_reported _ _ _)).any
  | unary => exact (Mirrors.ofDetached (unary_detached _ _ _) (unary_reported _ _)).any
  | arity | noProperty | misplacedExpr | misplacedStmt => exact (Mirrors.fail id _ _).any
  | requireIndexable =>
    exact (Mirrors.ofDetached (requireIndexable_detached _ _) (requireIndexable_reported _)).any
  | element => exact (Mirrors.ofDetached (element_detached _ _ _) (element_reported _ _)).any
  | typeOf => exact (Mirrors.ofUnlined (typeOf_detached _) (typeOf_reported _)).any
  | newList => exact (Mirrors.ofUnlined (newList_detached _) (newList_reported _)).any
  | display => exact (Mirrors.ofUnlined (display_detached _) (display_reported _)).any
  | write => exact (Mirrors.ofUnlined (write_detached _) (write_reported _)).any
  | truth => exact (Mirrors.ofUnlined (truth_detached _) (truth_reported _)).any
  | leave => exact (leave_mirrors _ _).any
  | unfinishedValue | unfinishedSignal => exact (Mirrors.throw id _).any

/-- All parts of a run are mirrored by the same parts of the run of a rewritten tree. -/
theorem links_mirrors {coerce coerce' : Bool} (hr : r.Keeps coerce coerce') :
    Engine.LinksIn Engine.standard Engine.standard r coerce coerce'
      (fun (_ : Unit) V => MirrorsAs r (V ())) {} where
  keeps := hr
  pure := .pure
  bind hx hf := hx.bind fun a ha => hf () a le_rfl ha
  elementary := mirrors_of_elementary
  define _ _ _ := (define_mirrors _ _ _).any
  assign _ _ := (assign_mirrors _ _ _ _).any
  newFunction _ := (newFunction_mirrors _).any
  callee _ hk := by
    have hcallee (callee : Callee) := hk () callee le_rfl (by cases callee <;> trivial)
    refine ⟨(builtinsFirst_mirrors _ _ _).bind fun callee _ => (hcallee callee).mirrors, ?_⟩
    intro m b m' hb
    obtain ⟨callee, m₁, -, hb⟩ := exists_of_bind_eq_ok hb
    exact (hcallee callee).value m₁ b m' hb
  builtin _ _ _ := (Mirrors.ofDetached (builtin_detached _ _ _) (builtin_reported _ _)).any
  enter _ _ := ⟨enter_mirrors _ _, fun _ _ _ _ _ _ => trivial⟩

/-- The statements of a program are mirrored by the rewritten ones. -/
theorem topLevel_mirrors {coerce coerce' : Bool} (hr : r.Keeps coerce coerce') (fuel : Nat)
    (p : Program) : Mirrors r id (topLevel (exec coerce fuel globalScope) p.statements)
      (topLevel (exec coerce' fuel globalScope) (p.rewritten r).statements) := by
  have htop := (links_mirrors hr).topLevel fuel () globalScope (fun s (_ : s ∈ p.statements) => trivial)
    fun _ _ _ _ _ _ _ _ => (Mirrors.fail id _ _).any
  rw [p.statements_rewritten]
  rw [Engine.run_standard, Engine.run_standard, Engine.topLevel_standard,
    Engine.topLevel_standard] at htop
  exact htop.mirrors

end Action

end Boli
