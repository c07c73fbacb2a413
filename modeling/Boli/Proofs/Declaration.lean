import Boli.Proofs.Detachment
import Boli.Proofs.Frame

/-!
# Where names are declared

A scope gets a new name only from a declaration that is executed in it, and it never loses one.
Evaluating an expression adds no name to any scope there is.  Executing a statement adds names to its
own scope only, and only those that are declared in it outside of functions (`Stmt.Declares`).  This
holds however the execution ends.

So a name belongs to the same scope before and after an expression is evaluated.  An assignment, which
looks for that scope last, finds the one that it would have found at first.  And since a call opens a
new scope for its names, nobody outside sees them.

* `Store.Keeps` compares the names and parents of scopes in two stores.
* `Action.Retains` says the same of what an action does to a store, and `Action.sustains_retains` has
  it for all parts of a run.
* `Action.names_retained` is the result for expressions and statements.
-/

namespace Boli

/-! ## Names of scopes -/

/-- Binding a name again adds none. -/
theorem Bindings.names_set_of_mem {name : String} {b : Bindings} (h : name ∈ b.names) (v : Value) :
    (b.set name v).names = b.names := by
  induction b with
  | nil => cases h
  | cons p rest ih =>
    obtain ⟨n, w⟩ := p
    by_cases hn : n = name
    · simp only [set, if_pos hn, names, List.map_cons]
    · have hrest : name ∈ names rest := (List.mem_cons.mp h).resolve_left (Ne.symm hn)
      simp only [names] at ih hrest
      simp only [set, if_neg hn, names, List.map_cons, ih hrest]

theorem Bindings.mem_names_set {name other : String} {v : Value} {b : Bindings} :
    other ∈ (b.set name v).names ↔ other = name ∨ other ∈ b.names := by
  rw [← isSome_get?, ← isSome_get?, get?_set]
  by_cases h : other = name
  · simp [h]
  · simp [h]

theorem Bindings.names_subset_set (name : String) (v : Value) (b : Bindings) :
    b.names ⊆ (b.set name v).names :=
  fun _ hn => mem_names_set.2 (.inr hn)

namespace Store

variable {s s' s'' : Store} {N : ScopeId → String → Prop} {id : ScopeId}

/-- The names that a scope binds. -/
def names (s : Store) (id : ScopeId) : List String := (s.bindings id).names

/-- In the second store all scopes of the first one are still there, and they lie in the same scopes
as before. -/
structure Continues (s s' : Store) : Prop where
  has : s.scopes.size ≤ s'.scopes.size
  parent : ∀ id, s.Has (.scope id) → s'.parent? id = s.parent? id

/-- All scopes have also kept their names.  The names that they got are as described by `N`. -/
structure Keeps (N : ScopeId → String → Prop) (s s' : Store) : Prop extends Continues s s' where
  names : ∀ id, s.Has (.scope id) → (∀ name, ¬N id name) → s'.names id = s.names id
  more : ∀ id, s.Has (.scope id) → s.names id ⊆ s'.names id
  gained : ∀ id, s.Has (.scope id) → ∀ name ∈ s'.names id, name ∈ s.names id ∨ N id name

/-- A scope that is not there yet may get any name. -/
def Admits (N : ScopeId → String → Prop) (s : Store) : Prop :=
  ∀ id, ¬s.Has (.scope id) → ∀ name, N id name

theorem Continues.trans (h : Continues s s') (h' : Continues s' s'') : Continues s s'' where
  has := h.has.trans h'.has
  parent id hid := (h'.parent id (Nat.lt_of_lt_of_le hid h.has)).trans (h.parent id hid)

theorem Continues.admits (h : Continues s s') (hs : s.Admits N) : s'.Admits N :=
  fun id hid => hs id fun hold => hid (Nat.lt_of_lt_of_le hold h.has)

namespace Keeps

/-- A step that leaves the scopes alone keeps everything about them. -/
theorem of_scopes_eq (h : s'.scopes = s.scopes) : Keeps N s s' := by
  have hnames : ∀ id, s'.names id = s.names id := fun id => by
    simp only [Store.names, bindings, h]
  refine ⟨⟨?_, fun id _ => ?_⟩, fun id _ _ => hnames id, fun id _ => ?_, fun id _ name hname => ?_⟩
  · rw [h]
  · rw [parent?, parent?, h]
  · rw [hnames]
    exact List.Subset.refl _
  · exact .inl (hnames id ▸ hname)

theorem refl (s : Store) : Keeps N s s :=
  of_scopes_eq rfl

theorem trans (h : Keeps N s s') (h' : Keeps N s' s'') : Keeps N s s'' where
  toContinues := h.toContinues.trans h'.toContinues
  names id hid hN := (h'.names id (Nat.lt_of_lt_of_le hid h.has) hN).trans (h.names id hid hN)
  more id hid := List.Subset.trans (h.more id hid) (h'.more id (Nat.lt_of_lt_of_le hid h.has))
  gained id hid name hname :=
    (h'.gained id (Nat.lt_of_lt_of_le hid h.has) name hname).elim (h.gained id hid name) .inr

/-- No scope loses a name, and one that is not there has none. -/
theorem names_subset (h : Keeps N s s') (id : ScopeId) : s.names id ⊆ s'.names id := by
  by_cases hid : s.Has (.scope id)
  · exact h.more id hid
  · have hnone : s.names id = [] := by
      simp only [Store.names, bindings, Array.getElem?_eq_none (Nat.le_of_not_lt hid)]
      rfl
    rw [hnone]
    exact List.nil_subset _

end Keeps

theorem size_define (s : Store) (id : ScopeId) (name : String) (v : Value) :
    (s.define id name v).scopes.size = s.scopes.size :=
  Array.size_modify

/-- A binding in one scope is none in the others. -/
theorem names_define (s : Store) (id other : ScopeId) (name : String) (v : Value)
    (h : other ≠ id) : (s.define id name v).names other = s.names other := by
  have hne : ¬id.index = other.index := fun heq => h (by cases id; cases other; simp_all)
  simp only [names, bindings, define, Array.getElem?_modify, if_neg hne]

theorem names_define_self (s : Store) (id : ScopeId) (name : String) (v : Value)
    (h : s.Has (.scope id)) :
    (s.define id name v).names id = ((s.bindings id).set name v).names := by
  rw [names, bindings_define s id id name v h, if_pos rfl]

/-- A declaration adds a name to one scope. -/
theorem keeps_define {name : String} (h : N id name) (s : Store) (v : Value) :
    Keeps N s (s.define id name v) where
  has := (size_define s id name v).ge
  parent other _ := parent?_define s id other name v
  names other _ hN := names_define s id other name v fun heq => hN name (heq ▸ h)
  more other hother := by
    by_cases heq : other = id
    · subst heq
      rw [names_define_self s other name v hother]
      exact Bindings.names_subset_set name v _
    · rw [names_define s id other name v heq]
      exact List.Subset.refl _
  gained other hother n hn := by
    by_cases heq : other = id
    · subst heq
      rw [names_define_self s other name v hother, Bindings.mem_names_set] at hn
      rcases hn with rfl | hn
      · exact .inr h
      · exact .inl hn
    · rw [names_define s id other name v heq] at hn
      exact .inl hn

/-- Any number of bindings go to one scope. -/
theorem keeps_defineAll (h : ∀ name, N id name) (bs : List (String × Value)) (s : Store) :
    Keeps N s (s.defineAll id bs) := by
  induction bs generalizing s with
  | nil => exact .refl s
  | cons b bs ih => exact (keeps_define (h b.1) s b.2).trans (ih _)

/-- A name that is bound already is not added. -/
theorem keeps_define_of_mem {name : String} (h : name ∈ s.names id) (v : Value) :
    Keeps N s (s.define id name v) := by
  have hnames (other : ScopeId) (hother : s.Has (.scope other)) :
      (s.define id name v).names other = s.names other := by
    by_cases heq : other = id
    · subst heq
      rw [names_define_self s other name v hother]
      exact Bindings.names_set_of_mem h v
    · exact names_define s id other name v heq
  refine ⟨⟨(size_define s id name v).ge, fun other _ => parent?_define s id other name v⟩, ?_, ?_, ?_⟩
  · exact fun other hother _ => hnames other hother
  · exact fun other hother => (hnames other hother).symm ▸ List.Subset.refl _
  · exact fun other hother n hn => .inl (hnames other hother ▸ hn)

/-- The scope that a name belongs to binds it. -/
theorem mem_names_of_resolve? {name : String} {target : ScopeId}
    (h : s.resolve? id name = some target) : name ∈ s.names target :=
  (Bindings.isSome_get? name (s.bindings target)).mp
    (List.find?_some (p := fun scope => (Bindings.get? name (s.bindings scope)).isSome) h)

theorem keeps_newScope (p : Option ScopeId) (s : Store) : Keeps N s (s.newScope p).2 := by
  have hold : ∀ id : ScopeId, s.Has (.scope id) →
      (s.newScope p).2.scopes[id.index]? = s.scopes[id.index]? := fun id hid =>
    Array.getElem?_push_lt hid ▸ (Array.getElem?_eq_getElem hid).symm
  have hnames (id : ScopeId) (hid : s.Has (.scope id)) : (s.newScope p).2.names id = s.names id := by
    simp only [names, bindings, hold id hid]
  refine ⟨⟨?_, fun id hid => ?_⟩, fun id hid _ => hnames id hid, fun id hid => ?_, ?_⟩
  · exact (Array.size_push _).ge.trans' (Nat.le_succ _)
  · rw [parent?, parent?, hold id hid]
  · exact (hnames id hid).symm ▸ List.Subset.refl _
  · exact fun id hid name hname => .inl (hnames id hid ▸ hname)

/-! ## Chains of scopes -/

/-- Scopes lie in scopes of the store. -/
def Nested (s : Store) : Prop := ∀ id p, s.parent? id = some p → s.Has (.scope p)

/-- The scopes around a scope of the store are in the store. -/
theorem Nested.has_of_mem_chainWithin (hs : s.Nested) {depth : Nat} {member : ScopeId}
    (hid : s.Has (.scope id)) (h : member ∈ s.chainWithin depth id) : s.Has (.scope member) := by
  induction depth generalizing id with
  | zero => cases h
  | succ depth ih =>
    rw [chainWithin] at h
    rcases List.mem_cons.mp h with rfl | h
    · exact hid
    · cases hp : s.parent? id with
      | none =>
        rw [hp] at h
        cases h
      | some p =>
        rw [hp] at h
        exact ih (hs id p hp) h

/-- The way outward is the same after any number of steps. -/
theorem Continues.chainWithin_eq (h : Continues s s') (hs : s.Nested) (depth : Nat)
    (hid : s.Has (.scope id)) : s'.chainWithin depth id = s.chainWithin depth id := by
  induction depth generalizing id with
  | zero => rfl
  | succ depth ih =>
    rw [chainWithin, chainWithin, h.parent id hid]
    cases hp : s.parent? id with
    | none => rfl
    | some p => simp only [ih (hs id p hp)]

/-- The scopes around a scope stay the same. -/
theorem Continues.chain_eq (h : Continues s s') (hs : s.Nested) (hid : s.Has (.scope id)) :
    s'.chain id = s.chain id :=
  h.chainWithin_eq hs _ hid

/-- If no scope there is gets a name, a name belongs to the same scope as before. -/
theorem Keeps.resolve?_eq (h : Keeps N s s') (hN : ∀ id, s.Has (.scope id) → ∀ name, ¬N id name)
    (hs : s.Nested) (hid : s.Has (.scope id)) (name : String) :
    s'.resolve? id name = s.resolve? id name := by
  rw [resolve?, resolve?, h.toContinues.chain_eq hs hid]
  refine List.find?_congr fun scope hscope => ?_
  have hscope := hs.has_of_mem_chainWithin hid hscope
  have hnames := h.names scope hscope (hN scope hscope)
  rw [Bool.eq_iff_iff, Bindings.isSome_get?, Bindings.isSome_get?]
  exact iff_of_eq (congrArg (name ∈ ·) hnames)

theorem mem_chain_of_resolve? {name : String} {target : ScopeId}
    (h : s.resolve? id name = some target) : target ∈ s.chain id :=
  List.mem_of_find?_eq_some h

end Store

/-! ## Actions that retain names -/

/-- The name is declared in a statement, outside of the functions in it. -/
inductive Stmt.Declares (name : String) : Stmt → Prop where
  | here (h : s.declared? = some name) : Declares name s
  | inside (hs : s.isCompound = true) (hc : c ∈ s.children) (h : Declares name c) : Declares name s

namespace Action

open Store

variable {α β : Type} {N : ScopeId → String → Prop} {V : α → Prop} {U : β → Prop}

/-- Whatever comes of the action, the scopes keep their names and parents, and the names that they
get are as described by `N`.  A value of the action is as described by `V`. -/
def Retains (N : ScopeId → String → Prop) (x : Action α) (V : α → Prop) : Prop :=
  ∀ m : Machine, m.store.Admits N →
    Keeps N m.store (x.after m).store ∧ ∀ a m', x m = .ok a m' → V a

namespace Retains

theorem pure {a : α} (h : V a) : Retains N (pure a) V := by
  refine fun m _ => ⟨.refl m.store, fun a' m' heq => ?_⟩
  cases heq
  exact h

theorem throw (e : Stop) : Retains N (throw e : Action α) V :=
  fun m _ => ⟨.refl m.store, fun a m' heq => by cases heq⟩

theorem bind {x : Action α} {f : α → Action β} (h : Retains N x V)
    (hf : ∀ a, V a → Retains N (f a) U) : Retains N (x >>= f) U := by
  intro m hm
  obtain ⟨hkeeps, hvalue⟩ := h m hm
  cases heq : x m with
  | ok a m' =>
    rw [after, heq] at hkeeps
    obtain ⟨hkeeps', hvalue'⟩ := hf a (hvalue a m' heq) m' (hkeeps.toContinues.admits hm)
    rw [after_bind_ok heq, bind_of_ok heq]
    exact ⟨hkeeps.trans hkeeps', hvalue'⟩
  | error e m' =>
    rw [after, heq] at hkeeps
    rw [after_bind_error heq, bind_of_error heq]
    exact ⟨hkeeps, fun b m'' hb => by cases hb⟩

theorem get {f : Machine → Action β} (h : ∀ m, Retains N (f m) U) : Retains N (get >>= f) U :=
  fun m => h m m

theorem of_keeps {x : Action α} (h : ∀ m, Keeps N m.store (x.after m).store) :
    Retains N x fun _ => True :=
  fun m _ => ⟨h m, fun _ _ _ => trivial⟩

/-- An action that does not depend on scopes leaves their names alone. -/
theorem ofDetached {x : Action α} (h : Detached x) : Retains N x fun _ => True := by
  refine .of_keeps fun m => .of_scopes_eq ?_
  unfold after
  cases heq : x m with
  | ok a m' => exact (h.ok_eq heq).1
  | error e m' => exact (h.error_eq heq).1

end Retains

theorem lookup_retains (scope : ScopeId) (name : String) (line : Line) :
    Retains N (lookup scope name line) fun _ => True := by
  refine .get fun m => ?_
  cases m.store.lookup? scope name with
  | some v => exact .pure trivial
  | none => exact .throw _

theorem define_retains {scope : ScopeId} {name : String} (h : N scope name) (v : Value) :
    Retains N (define scope name v) fun _ => True :=
  .of_keeps fun m => keeps_define h m.store v

/-- An assignment binds the name in the scope that it belongs to, or it fails. -/
theorem assign_eq (scope : ScopeId) (name : String) (v : Value) (line : Line) (m : Machine) :
    assign scope name v line m =
      match m.store.resolve? scope name with
      | some target => .ok () { m with store := m.store.define target name v }
      | none => .error (.fault ⟨.undefinedTarget name, line⟩) m := by
  show (match m.store.resolve? scope name with
    | some target => modifyStore (·.define target name v)
    | none => fail (.undefinedTarget name) line : Action Unit) m = _
  cases m.store.resolve? scope name with
  | some target => rfl
  | none => rfl

/-- An assignment binds a name where it is bound already. -/
theorem assign_retains (scope : ScopeId) (name : String) (v : Value) (line : Line) :
    Retains N (assign scope name v line) fun _ => True := by
  refine .of_keeps fun m => ?_
  rw [after, assign_eq]
  cases h : m.store.resolve? scope name with
  | some target => exact keeps_define_of_mem (mem_names_of_resolve? h) v
  | none => exact .refl m.store

theorem newFunction_retains (c : Closure) : Retains N (newFunction c) fun _ => True :=
  .of_keeps fun _ => .of_scopes_eq rfl

theorem functionNamed_retains (scope : ScopeId) (name : String) (line : Line) :
    Retains N (functionNamed scope name line) fun _ => True := by
  refine .get fun m => ?_
  dsimp only
  cases m.store.lookup? scope name with
  | none => exact .throw _
  | some v =>
    cases v with
    | function id =>
      dsimp only
      cases m.store.closure? id with
      | none => exact .throw _
      | some c => exact .pure trivial
    | _ => exact .throw _

theorem leave_retains (c : Closure) (signal : Signal) :
    Retains N (leave c signal) fun _ => True := by
  cases signal with
  | normal => exact .pure trivial
  | giveBack v => exact .pure trivial
  | stop | skip => exact .throw _

/-- A call binds its parameters in a scope that was not there before. -/
theorem enter_keeps {c : Closure} {args : List Value} {m m' : Machine} {scope : ScopeId}
    (h : enter c args m = .ok scope m') (hscope : ∀ name, N scope name) :
    ¬m.store.Has (.scope scope) ∧ Keeps N m.store m'.store := by
  cases h
  refine ⟨Nat.lt_irrefl _, ?_⟩
  exact (keeps_newScope (some c.scope) m.store).trans (keeps_defineAll hscope _ _)

/-- The scope of a call is new, so it may get any name. -/
theorem enter_retains (c : Closure) (args : List Value) :
    Retains N (enter c args) fun scope => ∀ name, N scope name := by
  intro m hm
  cases h : enter c args m with
  | error e m' => cases h
  | ok scope m' =>
    have hnew : ¬m.store.Has (.scope scope) := by
      cases h
      exact Nat.lt_irrefl _
    rw [after, h]
    refine ⟨(enter_keeps h (hm scope hnew)).2, fun scope' m'' heq => ?_⟩
    cases heq
    exact hm scope hnew

end Action

/-! ## Expressions and statements -/

/-- Statements declare only names as described by `N`. -/
def Engine.declaring (N : ScopeId → String → Prop) : Account Unit where
  stmt _ scope s := ∀ name, s.Declares name → N scope name

namespace Action

open Store

variable {α : Type} {N : ScopeId → String → Prop} {coerce : Bool} {fuel : Nat}

/-- The steps that bind no name retain all names. -/
theorem retains_of_elementary {w : Unit} {V : Unit → α → Prop} {x y : Action α}
    (h : ElementaryIn (Engine.declaring N) .identity w V x y) : Retains N x (V ()) := by
  cases h with
  | lookup => exact lookup_retains _ _ _
  | binary => exact .ofDetached (binary_detached _ _ _ _)
  | unary => exact .ofDetached (unary_detached _ _ _)
  | arity | noProperty | misplacedExpr | misplacedStmt => exact .throw _
  | requireIndexable => exact .ofDetached (requireIndexable_detached _ _)
  | element => exact .ofDetached (element_detached _ _ _)
  | typeOf => exact .ofDetached (typeOf_detached _)
  | newList => exact .ofDetached (newList_detached _)
  | display => exact .ofDetached (display_detached _)
  | write => exact .ofDetached (write_detached _)
  | truth => exact .ofDetached (truth_detached _)
  | leave => exact leave_retains _ _
  | unfinishedValue | unfinishedSignal => exact .throw _

theorem builtinsFirst_retains (scope : ScopeId) (name : String) (line : Line) :
    Retains N (Engine.builtinsFirst scope name line) fun _ => True := by
  rw [Engine.builtinsFirst]
  cases Builtin.ofName? name with
  | some b => exact .pure trivial
  | none => exact (functionNamed_retains scope name line).bind fun _ _ => .pure trivial

/-- All parts of a run retain names.  The statements of a function run in the new scope of the call,
so that the names they declare go to no scope that was there before. -/
theorem sustains_retains (N : ScopeId → String → Prop) (coerce : Bool) :
    Engine.Sustains coerce (fun (_ : Unit) V x => Retains N x (V ())) (Engine.declaring N) where
  keeps _ := rfl
  pure := .pure
  bind hx hf := hx.bind fun a ha => hf () a le_rfl ha
  elementary := retains_of_elementary
  define hs hname _ := define_retains (hs _ (.here hname)) _
  assign _ _ := assign_retains _ _ _ _
  newFunction _ := newFunction_retains _
  callee _ hk := (builtinsFirst_retains _ _ _).bind fun callee _ => by
    refine hk () callee le_rfl ?_
    cases callee <;> trivial
  builtin _ _ _ := .ofDetached (builtin_detached _ _ _)
  enter {w c args} _ _ m hm := by
    obtain ⟨hkeeps, hscope⟩ := enter_retains c args m hm
    exact ⟨hkeeps, fun scope m' heq s _ name _ => hscope scope m' heq name⟩
  children hs hcompound c hc name hname := hs name (.inside hcompound hc hname)

/-- Expressions and calls add no names to scopes that are there. -/
theorem eval_retains (coerce : Bool) (fuel : Nat) (scope : ScopeId) (e : Expr) :
    Retains N (eval coerce fuel scope e) fun _ => True :=
  (sustains_retains N coerce).eval fuel () trivial

/-- Statements add the names that they declare to the scope that they run in. -/
theorem exec_retains (coerce : Bool) (fuel : Nat) {scope : ScopeId} {s : Stmt}
    (h : ∀ name, s.Declares name → N scope name) :
    Retains N (exec coerce fuel scope s) fun _ => True :=
  (sustains_retains N coerce).exec fuel () h

/-- What an action does to the names, if nothing is said of those that it adds. -/
theorem Retains.keeps {x : Action α} {V : α → Prop} (h : Retains (fun _ _ => True) x V)
    (m : Machine) : Keeps (fun _ _ => True) m.store (x.after m).store :=
  (h m fun _ _ _ => trivial).1

/-- The value of an assignment goes to the scope that the name belonged to before the value was
computed. -/
theorem exec_assign_of_eval {m m' : Machine} {E : ScopeId} {e : Expr} {v : Value}
    (hnested : m.store.Nested) (hE : m.store.Has (.scope E)) (he : eval coerce fuel E e m = .ok v m')
    (line : Line) (name : String) :
    exec coerce (fuel + 1) E (.assign line name e) m =
      match m.store.resolve? E name with
      | some target => .ok .normal { m' with store := m'.store.define target name v }
      | none => .error (.fault ⟨.undefinedTarget name, line⟩) m' := by
  have hkeeps : Keeps (fun id _ => ¬m.store.Has (.scope id)) m.store m'.store := by
    have hafter := (eval_retains coerce fuel E e m fun _ hid _ => hid).1
    rwa [after, he] at hafter
  show EStateM.bind (eval coerce fuel E e)
    (fun v => EStateM.bind (assign E name v line) fun _ => pure Signal.normal) m = _
  rw [EStateM.bind, he]
  dsimp only
  rw [EStateM.bind, assign_eq, ← hkeeps.resolve?_eq (fun _ hid _ => not_not.2 hid) hnested hE name]
  cases m'.store.resolve? E name with
  | some target => rfl
  | none => rfl

end Action

/-- The states that a machine can get to: expressions are evaluated, statements executed and calls
opened, in any scopes and with any outcome. -/
inductive Machine.LeadsTo (coerce : Bool) (m : Machine) : Machine → Prop where
  | refl : LeadsTo coerce m m
  | eval (h : LeadsTo coerce m m') (fuel : Nat) (scope : ScopeId) (e : Expr) :
    LeadsTo coerce m ((Action.eval coerce fuel scope e).after m')
  | exec (h : LeadsTo coerce m m') (fuel : Nat) (scope : ScopeId) (s : Stmt) :
    LeadsTo coerce m ((Action.exec coerce fuel scope s).after m')
  | enter (h : LeadsTo coerce m m') (c : Closure) (args : List Value) :
    LeadsTo coerce m ((Action.enter c args).after m')

/-- Whatever a machine does, its scopes stay where they are. -/
theorem Machine.LeadsTo.continues {coerce : Bool} {m m' : Machine} (h : m.LeadsTo coerce m') :
    m.store.Continues m'.store := by
  induction h with
  | refl => exact ⟨le_rfl, fun _ _ => rfl⟩
  | eval _ fuel scope e ih =>
    exact ih.trans ((Action.eval_retains coerce fuel scope e).keeps _).toContinues
  | exec _ fuel scope s ih =>
    exact ih.trans ((Action.exec_retains coerce fuel fun _ _ => trivial).keeps _).toContinues
  | enter _ c args ih => exact ih.trans ((Action.enter_retains c args).keeps _).toContinues

namespace Action

open Store

/-- Expressions leave the names of all scopes as they are, and statements those of all scopes but their
own, which may get more.  The names that it gets are declared in the statement.

So an assignment binds a name anew in the scope that it belonged to before the value was computed, and
whatever happens after a call has opened its scope, no scope that was there before sees into it. -/
theorem names_retained (coerce : Bool) (fuel : Nat) (m : Machine) (E : ScopeId) :
    (∀ e id, m.store.Has (.scope id) →
      ((eval coerce fuel E e).after m).store.names id = m.store.names id) ∧
    (∀ s, (∀ id, m.store.Has (.scope id) → id ≠ E →
        ((exec coerce fuel E s).after m).store.names id = m.store.names id) ∧
      m.store.names E ⊆ ((exec coerce fuel E s).after m).store.names E ∧
      (m.store.Has (.scope E) → ∀ name ∈ ((exec coerce fuel E s).after m).store.names E,
        name ∈ m.store.names E ∨ s.Declares name)) ∧
    (m.store.Nested → m.store.Has (.scope E) →
      (∀ line name e v m', eval coerce fuel E e m = .ok v m' →
        exec coerce (fuel + 1) E (.assign line name e) m =
          match m.store.resolve? E name with
          | some target => .ok .normal { m' with store := m'.store.define target name v }
          | none => .error (.fault ⟨.undefinedTarget name, line⟩) m') ∧
      ∀ c args scope m₁ m₂ name, enter c args m = .ok scope m₁ → m₁.LeadsTo coerce m₂ →
        m₂.store.resolve? E name ≠ some scope) := by
  refine ⟨fun e id hid => ?_, fun s => ?_, fun hnested hE => ⟨?_, ?_⟩⟩
  · -- only scopes that are not there get names
    have hkeeps := (eval_retains coerce fuel E e m fun _ hid _ => hid).1
    exact hkeeps.names id hid fun _ => not_not.2 hid
  · have hkeeps := (exec_retains coerce fuel (fun _ h => .inr ⟨rfl, h⟩) m fun _ hid _ => .inl hid :
      Keeps (fun id name => ¬m.store.Has (.scope id) ∨ id = E ∧ s.Declares name) _ _ ∧ _).1
    refine ⟨fun id hid hne => hkeeps.names id hid ?_, hkeeps.names_subset E, fun hE name hname => ?_⟩
    · exact fun name h => h.elim (fun hnot => hnot hid) fun hown => hne hown.1
    · exact (hkeeps.gained E hE name hname).imp_right fun h => (h.resolve_left (not_not.2 hE)).2
  · exact fun line name e v m' he => exec_assign_of_eval hnested hE he line name
  · intro c args scope m₁ m₂ name henter hlater hresolve
    obtain ⟨hnew, hkeeps⟩ := enter_keeps (N := fun _ _ => True) henter fun _ => trivial
    have hcontinues := hkeeps.toContinues.trans hlater.continues
    have hmem := mem_chain_of_resolve? hresolve
    rw [hcontinues.chain_eq hnested hE] at hmem
    exact hnew (hnested.has_of_mem_chainWithin hE hmem)

/-- A function with a local variable of the same name as a global one. -/
def shadowing : Closure :=
  ⟨"f", [], .mk none [.declare none "x" (some (.literal none (.boolean false) "khota"))], globalScope⟩

/-- A machine with the global variable and the function. -/
def shadowed : Machine where
  store :=
    { scopes := #[⟨none, [("x", .boolean true), ("f", .function ⟨0⟩)]⟩], functions := #[shadowing] }

/-- A call of the function. -/
def callShadowing : Expr := .call none ⟨none, "f"⟩ []

theorem names_retained_shadowed :
    shadowed.store.Nested ∧ shadowed.store.Has (.scope globalScope) ∧
      (∃ m', eval false 4 globalScope callShadowing shadowed = .ok .null m' ∧
        exec false 5 globalScope (.assign none "x" callShadowing) shadowed =
          .ok .normal { m' with store := m'.store.define globalScope "x" .null }) ∧
      ∃ scope m₁, enter shadowing [] shadowed = .ok scope m₁ ∧
        ((exec false 4 scope (.block shadowing.body)).after m₁).store.resolve? globalScope "x" ≠
          some scope := by
  have hnested : shadowed.store.Nested := by
    intro id p hp
    obtain ⟨_ | index⟩ := id
    · cases hp
    · cases hp
  have hglobal : shadowed.store.Has (.scope globalScope) := Nat.zero_lt_one
  obtain ⟨hassign, hlocal⟩ := (names_retained false 4 shadowed globalScope).2.2 hnested hglobal
  obtain ⟨m', hcall⟩ : ∃ m', eval false 4 globalScope callShadowing shadowed = .ok .null m' :=
    ⟨_, rfl⟩
  refine ⟨hnested, hglobal, ⟨m', hcall, hassign none "x" _ _ _ hcall⟩, _, _, rfl, ?_⟩
  exact hlocal _ _ _ _ _ "x" rfl (.exec .refl 4 ⟨1⟩ _)

end Action

end Boli
