import Boli.Proofs.Declaration
import Boli.Proofs.ListGrowth

/-!
# Which list is which

A list is made by a list expression, by the function of the language that makes lists, and by
joining two lists.  What comes out is a list of its own: it was not there before, so whatever is
appended to it later does not show in the lists that it was made from.

What hands a list on does not copy it.  A name that is bound to a list, a parameter, the value of a
call and the result of appending all stand for the very list.
-/

namespace Boli

open Store

namespace Store

variable {s : Store} {id : ScopeId} {name : String} {v : Value}

/-- The list is new in the second store and has the elements `vs`.  All other lists are as they
were, and appending to the new one never changes them. -/
structure Makes (s s' : Store) (id : ListId) (vs : Array Value) : Prop where
  new : ¬s.Has (.list id)
  has : s'.Has (.list id)
  elements : s'.elements id = vs
  others : Lengthens [] s s'
  apart : ∀ other, s.Has (.list other) → ∀ (m : Machine) (v : Value) (line : Line),
    ((Action.builtin .append [.list id, v] line).after m).store.elements other =
      m.store.elements other

/-- A new list is no list that was there. -/
theorem makes_newList (s : Store) (vs : Array Value) :
    s.Makes (s.newList vs).2 (s.newList vs).1 vs where
  new := Nat.lt_irrefl _
  has := has_newList.2 (.inr rfl)
  elements := (elements_newList vs _).trans (if_pos rfl)
  others := lengthens_newList s vs
  apart other hother m v line := by
    refine elements_append_of_ne m.store ?_ v
    rintro rfl
    exact Nat.lt_irrefl _ hother

/-! ## What names stand for -/

/-- The bindings of the scope itself come first. -/
theorem lookup?_of_get? (h : Bindings.get? name (s.bindings id) = some v) :
    s.lookup? id name = some v := by
  have hresolve : s.resolve? id name = some id := by
    rw [resolve?, chain, chainWithin]
    exact List.find?_cons_of_pos (by simp [h])
  rw [lookup?, hresolve]
  exact h

/-- A name that is bound stands for its value at once. -/
theorem lookup?_define (h : s.Has (.scope id)) (name : String) (v : Value) :
    (s.define id name v).lookup? id name = some v := by
  refine lookup?_of_get? ?_
  rw [bindings_define s id id name v h, if_pos rfl, Bindings.get?_set, if_pos rfl]

theorem has_of_mem_names (h : name ∈ s.names id) : s.Has (.scope id) := by
  obtain ⟨b, hb, _⟩ := List.mem_map.1 h
  exact has_of_contains (.binding hb)

/-- A name that gets a new value stays where it is bound. -/
theorem lookup?_define_resolved {target : ScopeId} (h : s.resolve? id name = some target)
    (v : Value) : (s.define target name v).lookup? id name = some v := by
  have hmem := mem_names_of_resolve? h
  have hbindings (other : ScopeId) := bindings_define s target other name v (has_of_mem_names hmem)
  have hresolve : (s.define target name v).resolve? id name = some target := by
    rw [← h, resolve?, resolve?, chain, chain, chainWithin_define]
    congr 1
    funext other
    rw [hbindings]
    split
    · rename_i heq
      rw [heq, Bindings.get?_set, if_pos rfl, (Bindings.isSome_get? name _).2 hmem]
      rfl
    · rfl
  rw [lookup?, hresolve]
  show Bindings.get? name ((s.define target name v).bindings target) = some v
  rw [hbindings, if_pos rfl, Bindings.get?_set, if_pos rfl]

/-- Of several values for a name the last one counts. -/
theorem get?_defineAll (bs : List (String × Value)) (s : Store) (h : s.Has (.scope id))
    (name : String) : Bindings.get? name ((s.defineAll id bs).bindings id) =
      (bs.reverse.lookup name).or (Bindings.get? name (s.bindings id)) := by
  induction bs generalizing s with
  | nil => rfl
  | cons b bs ih =>
    obtain ⟨n, v⟩ := b
    rw [defineAll, ih (s.define id n v) (has_define.2 h), bindings_define s id id n v h,
      if_pos rfl, Bindings.get?_set, List.reverse_cons, List.lookup_append, Option.or_assoc]
    by_cases hn : name = n
    · simp [hn, List.lookup]
    · have hne : (name == n) = false := by simp [hn]
      simp [hn, List.lookup, hne]

end Store

namespace Action

variable {coerce : Bool} {fuel : Nat} {scope : ScopeId} {m m₁ m₂ : Machine} {v : Value}

/-! ## New lists -/

/-- If the action that gives the values stops, so does the other one.  Otherwise that one makes a
list of the values, which was not there before. -/
def MakesListOf (m : Machine) (x : Action (List Value)) (y : Action Value) : Prop :=
  match x m with
  | .error e m₁ => y m = .error e m₁
  | .ok vs m₁ => ∃ id m₂, y m = .ok (.list id) m₂ ∧ ¬m.store.Has (.list id) ∧
    m₁.store.Makes m₂.store id vs.toArray

/-- A list expression makes its list when all elements are there. -/
theorem makesListOf_evals (es : List Expr) :
    MakesListOf m (each (eval coerce fuel scope) es)
      (each (eval coerce fuel scope) es >>= fun vs => newList vs.toArray) := by
  obtain ⟨a, _, hgrown, _⟩ := evals_recorded coerce fuel scope es m []
  unfold MakesListOf
  cases hx : each (eval coerce fuel scope) es m with
  | error e m₁ => exact bind_of_error hx
  | ok vs m₁ =>
    rw [after, hx] at hgrown
    have hmakes := makes_newList m₁.store vs.toArray
    refine ⟨_, { m₁ with store := (m₁.store.newList vs.toArray).2 }, ?_, fun hold => ?_, hmakes⟩
    · exact bind_of_ok hx
    · exact hmakes.new (hgrown _ hold).1

/-! ## Names -/

/-- In the machine, a scope knows the value by the name. -/
def Knows (m : Machine) (scope : ScopeId) (name : String) (v : Value) : Prop :=
  ∀ coerce fuel line, eval coerce (fuel + 1) scope (.name line name) m = .ok v m

theorem knows_of_lookup? {name : String} (h : m.store.lookup? scope name = some v) :
    Knows m scope name v := by
  intro coerce fuel line
  show lookup scope name line m = _
  rw [lookup, get_bind, h]
  rfl

/-- A declaration binds the very value. -/
theorem exec_declare_of_eval {name : String} {e : Expr} (line : Line)
    (he : eval coerce fuel scope e m = .ok v m₁) :
    exec coerce (fuel + 1) scope (.declare line name (some e)) m =
      .ok .normal { m₁ with store := m₁.store.define scope name v } :=
  bind_of_ok he

/-- An assignment binds the very value where the name belongs. -/
theorem exec_assign_of_resolve {name : String} {e : Expr} {target : ScopeId} (line : Line)
    (he : eval coerce fuel scope e m = .ok v m₁)
    (htarget : m₁.store.resolve? scope name = some target) :
    exec coerce (fuel + 1) scope (.assign line name e) m =
      .ok .normal { m₁ with store := m₁.store.define target name v } := by
  have hassign : assign scope name v line m₁ =
      .ok () { m₁ with store := m₁.store.define target name v } := by
    rw [assign_eq, htarget]
  exact (bind_of_ok he).trans (bind_of_ok hassign)

/-- A call opens a scope that knows the very arguments by the names of the parameters. -/
theorem exists_enter_eq (c : Closure) (args : List Value) (m : Machine) :
    ∃ inner m₁, enter c args m = .ok inner m₁ ∧ m₁.store.lists = m.store.lists ∧
      ∀ name v, (c.parameters.zip args).reverse.lookup name = some v → Knows m₁ inner name v := by
  refine ⟨_, _, rfl, lists_defineAll _ _ _, fun name v hlookup => ?_⟩
  refine knows_of_lookup? (lookup?_of_get? ?_)
  have hget := get?_defineAll (c.parameters.zip args) (m.store.newScope (some c.scope)).2
    (has_newScope.2 (.inr rfl)) name
  rw [hlookup] at hget
  exact hget

/-! ## Results -/

/-- The expressions that make lists, in a state. -/
structure MakesLists (coerce : Bool) (fuel : Nat) (scope : ScopeId) (m : Machine) : Prop where
  literal : ∀ line es, MakesListOf m (each (eval coerce fuel scope) es)
    (eval coerce (fuel + 1) scope (.list line es))
  list : ∀ line callee es, callee.name = Builtin.list.name →
    MakesListOf m (each (eval coerce fuel scope) es)
      (eval coerce (fuel + 1) scope (.call line callee es))
  join : ∀ line l r a b m₁ m₂, eval coerce fuel scope l m = .ok (.list a) m₁ →
    eval coerce fuel scope r m₁ = .ok (.list b) m₂ →
    ∃ id m₃, eval coerce (fuel + 1) scope (.binary line .add l r) m = .ok (.list id) m₃ ∧
      ¬m.store.Has (.list id) ∧
      m₂.store.Makes m₃.store id (m₂.store.elements a ++ m₂.store.elements b)

/-- The steps that hand values on, in a state.  The value that comes out is the very value that went
in, and no list changes on the way but one that is appended to. -/
structure HandsOn (coerce : Bool) (fuel : Nat) (scope : ScopeId) (m : Machine) : Prop where
  declare : ∀ line name e v m₁, eval coerce fuel scope e m = .ok v m₁ →
    m₁.store.Has (.scope scope) →
    ∃ m₂, exec coerce (fuel + 1) scope (.declare line name (some e)) m = .ok .normal m₂ ∧
      m₂.store.lists = m₁.store.lists ∧ Knows m₂ scope name v
  assign : ∀ line name e v m₁, eval coerce fuel scope e m = .ok v m₁ →
    m₁.store.isBound scope name →
    ∃ m₂, exec coerce (fuel + 1) scope (.assign line name e) m = .ok .normal m₂ ∧
      m₂.store.lists = m₁.store.lists ∧ Knows m₂ scope name v
  argument : ∀ line callee es c args m₁, Builtin.ofName? callee.name = none →
    functionNamed scope callee.name line m = .ok c m → es.length = c.parameters.length →
    each (eval coerce fuel scope) es m = .ok args m₁ →
    eval coerce (fuel + 1) scope (.call line callee es) m = callFunction coerce fuel c args m₁
  parameter : ∀ c args, ∃ inner m₁, enter c args m = .ok inner m₁ ∧
    m₁.store.lists = m.store.lists ∧
    ∀ name v, (c.parameters.zip args).reverse.lookup name = some v → Knows m₁ inner name v
  giveBack : ∀ line e v m₁, eval coerce fuel scope e m = .ok v m₁ →
    exec coerce (fuel + 1) scope (.giveBack line (some e)) m = .ok (.giveBack v) m₁
  result : ∀ c args inner v m₁ m₂, enter c args m = .ok inner m₁ →
    sequence (exec coerce fuel inner) c.body.statements m₁ = .ok (.giveBack v) m₂ →
    callFunction coerce (fuel + 1) c args m = .ok v m₂
  append : ∀ line callee target value id v m₁ m₂, callee.name = Builtin.append.name →
    eval coerce fuel scope target m = .ok (.list id) m₁ →
    eval coerce fuel scope value m₁ = .ok v m₂ →
    eval coerce (fuel + 1) scope (.call line callee [target, value]) m =
      .ok (.list id) { m₂ with store := m₂.store.append id v }

/-- List expressions, calls and sums of lists make new lists in every state. -/
theorem makesLists (coerce : Bool) (fuel : Nat) (scope : ScopeId) (m : Machine) :
    MakesLists coerce fuel scope m where
  literal _ es := makesListOf_evals es
  list line callee es hcallee := by
    have heval : eval coerce (fuel + 1) scope (.call line callee es) =
        each (eval coerce fuel scope) es >>= fun vs => newList vs.toArray := by
      rw [eval, hcallee, Builtin.ofName?_name]
      rfl
    rw [heval]
    exact makesListOf_evals es
  join line l r a b m₁ m₂ hl hr := by
    obtain ⟨_, _, hgrown, _⟩ := eval_recorded coerce fuel scope l m []
    obtain ⟨_, _, hgrown', _⟩ := eval_recorded coerce fuel scope r m₁ []
    rw [after, hl] at hgrown
    rw [after, hr] at hgrown'
    have hmakes := makes_newList m₂.store (m₂.store.elements a ++ m₂.store.elements b)
    refine ⟨_, { m₂ with store := (m₂.store.newList _).2 }, ?_, fun hold => ?_, hmakes⟩
    · exact (bind_of_ok hl).trans (bind_of_ok hr)
    · exact hmakes.new (hgrown' _ (hgrown _ hold).1).1

/-- Declarations, assignments and calls hand the very value on in every state. -/
theorem handsOn (coerce : Bool) (fuel : Nat) (scope : ScopeId) (m : Machine) :
    HandsOn coerce fuel scope m where
  declare line name e v m₁ he hscope :=
    ⟨_, exec_declare_of_eval line he, rfl, knows_of_lookup? (lookup?_define hscope name v)⟩
  assign line name e v m₁ he hname := by
    obtain ⟨target, htarget⟩ := Option.isSome_iff_exists.1 hname
    exact ⟨_, exec_assign_of_resolve line he htarget, rfl,
      knows_of_lookup? (lookup?_define_resolved htarget v)⟩
  argument line callee es c args m₁ hcallee hfunction hlength hargs := by
    rw [eval, hcallee]
    refine (bind_of_ok hfunction).trans ?_
    rw [if_pos hlength]
    exact bind_of_ok hargs
  parameter c args := exists_enter_eq c args m
  giveBack line e v m₁ he := bind_of_ok he
  result c args inner v m₁ m₂ henter hbody := by
    rw [callFunction]
    exact (bind_of_ok henter).trans (bind_of_ok hbody)
  append line callee target value id v m₁ m₂ hcallee ht hv := by
    have heach : each (eval coerce fuel scope) [target, value] m = .ok [.list id, v] m₂ := by
      have hrest : each (eval coerce fuel scope) [value] m₁ = .ok [v] m₂ := bind_of_ok hv
      exact (bind_of_ok ht).trans (bind_of_ok hrest)
    rw [eval, hcallee, Builtin.ofName?_name]
    exact bind_of_ok heach

/-- Lists are only ever appended to, and each expression that makes a list makes a new one.  In any
state, whatever comes of an expression or a statement, each list that was there has kept its
elements in place, and behind them are those that a run with a record has for it.  That record is of
the calls that append to a list.  A list that is made was not there before, and all that hands a
list on hands on the very list. -/
theorem lists_append_only (coerce : Bool) (fuel : Nat) (scope : ScopeId) (m : Machine) :
    (∀ e, ∃ a, (Engine.recording.run coerce fuel).eval scope e (m, []) =
        Recording.noting a (eval coerce fuel scope e m) ∧
      m.store.Lengthens a ((eval coerce fuel scope e).after m).store) ∧
    (∀ s, ∃ a, (Engine.recording.run coerce fuel).exec scope s (m, []) =
        Recording.noting a (exec coerce fuel scope s m) ∧
      m.store.Lengthens a ((exec coerce fuel scope s).after m).store) ∧
    MakesLists coerce fuel scope m ∧ HandsOn coerce fuel scope m := by
  refine ⟨fun e => ?_, fun s => ?_, makesLists coerce fuel scope m, handsOn coerce fuel scope m⟩
  · obtain ⟨a, hrun, hgrown, _⟩ := eval_recorded coerce fuel scope e m []
    exact ⟨a, hrun, hgrown⟩
  · obtain ⟨a, hrun, hgrown, _⟩ := exec_recorded coerce fuel scope s m []
    exact ⟨a, hrun, hgrown⟩

/-- The list joined from two empty ones is neither of them. -/
theorem lists_append_only_emptyLists :
    ∃ id m, eval false 2 globalScope (.binary none .add (.list none []) (.list none []))
        (.fresh .unavailable {}) = .ok (.list id) m ∧ id ≠ ⟨0⟩ ∧ id ≠ ⟨1⟩ := by
  obtain ⟨_, _, hmakes, _⟩ := lists_append_only false 1 globalScope (.fresh .unavailable {})
  obtain ⟨id, m, heval, _, hnew⟩ := hmakes.join none (.list none []) (.list none []) ⟨0⟩ ⟨1⟩ _ _
    rfl rfl
  refine ⟨id, m, heval, ?_, ?_⟩
  · rintro rfl
    exact hnew.new Nat.zero_lt_two
  · rintro rfl
    exact hnew.new Nat.one_lt_two

end Action

end Boli
