import Boli.Proofs.Safety

/-!
# What a run leaves alone

Running a statement or an expression in a scope changes no scope and no list that the scope does not
reach, and what it gives back reaches nothing else but what it has created (`Action.Framed`).

The set of what a scope reaches, together with what does not exist yet, is closed in every state
that a run of the program gets to.  The rest is confinement to that set.
-/

namespace Boli

open Store

/-- What a signal refers to. -/
def Signal.ref? : Signal → Option Ref
  | giveBack v => v.ref?
  | normal | stop | skip => none

namespace Action

variable {α : Type}

/-- The action changes only what the scope reaches, and its value reaches only that or something
new. -/
structure Framed (m : Machine) (scope : ScopeId) (x : Action α) (ref? : α → Option Ref) : Prop where
  scopes : ∀ id : ScopeId, m.store.Has (.scope id) →
    ¬m.store.Reaches (.scope scope) (.scope id) →
    (after x m).store.scopes[id.index]? = m.store.scopes[id.index]?
  lists : ∀ id : ListId, m.store.Has (.list id) → ¬m.store.Reaches (.scope scope) (.list id) →
    (after x m).store.lists[id.index]? = m.store.lists[id.index]?
  value : ∀ a m', x m = .ok a m' → ∀ r r', ref? a = some r → m'.store.Reaches r r' →
    m.store.Reaches (.scope scope) r' ∨ (¬m.store.Has r' ∧ m'.store.Has r')

variable {A : Ref → Prop} {m : Machine} {x : Action α} {Q : Store → α → Prop}

/-- However a confined action ends, its set is closed, and nothing else has changed. -/
theorem Runs.after (h : Runs A m x Q) :
    (after x m).store.Closed A ∧ m.Follows A (after x m) := by
  unfold Runs at h
  unfold Action.after
  cases hx : x m with
  | ok a m' =>
    rw [hx] at h
    exact ⟨h.1, h.2.1⟩
  | error e m' =>
    rw [hx] at h
    exact ⟨h.1, h.2.1⟩

/-- The value of a confined action is as described. -/
theorem Runs.value (h : Runs A m x Q) {a : α} {m' : Machine} (hx : x m = .ok a m') :
    m'.store.Closed A ∧ Q m'.store a := by
  unfold Runs at h
  rw [hx] at h
  exact ⟨h.1, h.2.2⟩

end Action

/-- The states that a run of a program gets to: it evaluates expressions of the program, executes
statements of it, and opens the scopes of calls. -/
inductive Machine.Reached (coerce : Bool) (p : Program) : Machine → Prop where
  | fresh (input : InputSource) (sink : Sink) : Reached coerce p (.fresh input sink)
  | eval {scope : ScopeId} (h : Reached coerce p m) (he : p.HasExpr e)
    (hscope : m.store.Has (.scope scope)) (fuel : Nat) :
    Reached coerce p ((Action.eval coerce fuel scope e).after m)
  | exec {scope : ScopeId} (h : Reached coerce p m) (hs : p.HasStmt s)
    (hscope : m.store.Has (.scope scope)) (fuel : Nat) :
    Reached coerce p ((Action.exec coerce fuel scope s).after m)
  | enter {id : FunctionId} (h : Reached coerce p m) (hc : m.store.closure? id = some c)
    (hargs : ∀ v ∈ args, m.store.Within (fun _ => True) v) :
    Reached coerce p ((Action.enter c args).after m)

/-- In every state of a run, references lead to something, no foreign objects turn up, and all
functions are those of trees that were read. -/
theorem Machine.Reached.closed {coerce : Bool} {p : Program} {m : Machine}
    (h : Machine.Reached coerce p m) (hp : p.WellFormed) : m.store.Closed fun _ => True := by
  induction h with
  | fresh input sink => exact Machine.closed_fresh input sink
  | eval _ he hscope fuel ih =>
    exact (Action.eval_runs ih ⟨trivial, hscope⟩ (Block.Everywhere.expr hp he)).after.1
  | exec _ hs hscope fuel ih =>
    exact (Action.exec_runs ih ⟨trivial, hscope⟩ (Block.Everywhere.stmt hp hs)).after.1
  | enter _ hc hargs ih =>
    exact (Action.enter_runs ih (ih.closures _ _ trivial hc) hargs).after.1

/-- The statements of a program lead from one state of a run to another one. -/
theorem Machine.Reached.topLevel {coerce : Bool} {p : Program} {m : Machine} {ss : List Stmt}
    (h : Machine.Reached coerce p m) (hp : p.WellFormed) (fuel : Nat)
    (hscope : m.store.Has (.scope globalScope)) (hss : ∀ s ∈ ss, s ∈ p.statements) :
    ((Action.topLevel (Action.exec coerce fuel globalScope) ss).after m).Reached coerce p := by
  induction ss generalizing m with
  | nil => exact h
  | cons s ss ih =>
    have hs : p.HasStmt s := .top (hss s List.mem_cons_self)
    have hnext := h.exec hs hscope fuel
    have hrun : Action.Runs (fun _ => True) m (Action.exec coerce fuel globalScope s) _ :=
      Action.exec_runs (h.closed hp) ⟨trivial, hscope⟩ (Block.Everywhere.stmt hp hs)
    have hscope' := hrun.after.2.grows _ hscope
    rw [Action.topLevel]
    cases hx : Action.exec coerce fuel globalScope s m with
    | error e m' =>
      rw [Action.after_bind_error hx]
      simpa only [Action.after, hx] using hnext
    | ok signal m' =>
      simp only [Action.after, hx] at hnext hscope'
      rw [Action.after_bind_ok hx]
      cases signal with
      | normal => exact ih hnext hscope' fun s hs => hss s (List.mem_cons_of_mem _ hs)
      | stop => exact hnext
      | skip => exact hnext
      | giveBack v => exact hnext

/-- What a run leaves in the store is what its statements leave there. -/
theorem Session.store_runWithin (fuel : Nat) (settings : Settings) (p : Program) (m : Machine) :
    (runWithin fuel settings p m).2.store =
      ((Action.topLevel (Action.exec settings.coerce fuel globalScope) p.statements).after m).store := by
  rw [runWithin, runBy, Action.after]
  cases Action.topLevel (Action.exec settings.coerce fuel globalScope) p.statements m with
  | ok u m' => rfl
  | error e m' => cases e <;> rfl

/-- The store at the end of a run is that of a state which the run gets to. -/
theorem Session.exists_reached {p : Program} (hp : p.WellFormed) (fuel : Nat) (settings : Settings)
    (input : InputSource) (sink : Sink) :
    ∃ m : Machine, m.Reached settings.coerce p ∧
      (runWithin fuel settings p (.fresh input sink)).2.store = m.store :=
  ⟨_, .topLevel (.fresh input sink) hp fuel (Machine.has_globalScope input sink) fun _ hs => hs,
    store_runWithin fuel settings p _⟩

namespace Store

variable {s : Store}

theorem has_of_contains {r : Ref} {v : Value} (h : s.Contains r v) : s.Has r := by
  cases h with
  | @binding _ _ id hb =>
    by_contra hn
    simp [bindings, Array.getElem?_eq_none (Nat.le_of_not_lt hn)] at hb
  | @element _ id he =>
    by_contra hn
    simp [elements, Array.getElem?_eq_none (Nat.le_of_not_lt hn)] at he

/-- Only objects of the store point to others. -/
theorem has_of_points {r r' : Ref} (h : s.Points r r') : s.Has r := by
  cases h with
  | @parent _ id hp =>
    by_contra hn
    simp [parent?, Array.getElem?_eq_none (Nat.le_of_not_lt hn)] at hp
  | content hc _ => exact has_of_contains hc
  | closure hc => exact (Array.getElem?_eq_some_iff.mp hc).1

/-- What a root reaches, and what is yet to come. -/
def Realm (s : Store) (root r : Ref) : Prop := s.Reaches root r ∨ ¬s.Has r

/-- A pointer does not leave a realm. -/
theorem Realm.point {root r r' : Ref} (h : s.Realm root r) (hp : s.Points r r') :
    s.Realm root r' := by
  rcases h with h | h
  · exact .inl (h.tail hp)
  · exact absurd (has_of_points hp) h

/-- A realm is closed. -/
theorem closed_realm (h : s.Closed fun _ => True) (root : Ref) : s.Closed (s.Realm root) where
  fresh _ hr := .inr hr
  contents r v hr hc := by
    have hv := h.contents r v trivial hc
    cases v with
    | list id => exact ⟨hr.point (.content hc rfl), hv.2⟩
    | function id => exact ⟨hr.point (.content hc rfl), hv.2⟩
    | foreign _ => exact hv
    | null | boolean _ | number _ | text _ => trivial
  parents id p hid hp := ⟨hid.point (.parent hp), (h.parents id p trivial hp).2⟩
  closures id c hid hc := ⟨hid.point (.closure hc), (h.closures id c trivial hc).2⟩
  bodies := h.bodies

end Store

namespace Action

variable {α : Type} {m : Machine} {x : Action α} {Q : Store → α → Prop} {scope : ScopeId}
  {ref? : α → Option Ref}

/-- An action that keeps to the realm of a scope is framed by it. -/
theorem Runs.framed (h : Runs (m.store.Realm (.scope scope)) m x Q)
    (hQ : ∀ s a r, Q s a → ref? a = some r → s.Holds (m.store.Realm (.scope scope)) r) :
    Framed m scope x ref? where
  scopes id hid hnot := h.after.2.scopes id (not_or.mpr ⟨hnot, not_not.mpr hid⟩)
  lists id hid hnot := h.after.2.lists id (not_or.mpr ⟨hnot, not_not.mpr hid⟩)
  value a m' hx r r' hr hreach := by
    obtain ⟨hclosed, ha⟩ := h.value hx
    obtain ⟨hrealm, hhas⟩ := hclosed.reaches (hQ _ _ _ ha hr) hreach
    exact hrealm.imp_right fun hnew => ⟨hnew, hhas⟩

/-- In every state that a run gets to, the expressions and statements of the program are framed by
the scope they run in. -/
theorem framed_of_reached {text : String} {p : Program} (hp : Program.ofText text = .ok p)
    {coerce : Bool} {m : Machine} (hm : m.Reached coerce p) {scope : ScopeId}
    (hscope : m.store.Has (.scope scope)) (fuel : Nat) :
    (∀ e, p.HasExpr e → Framed m scope (eval coerce fuel scope e) Value.ref?) ∧
      ∀ s, p.HasStmt s → Framed m scope (exec coerce fuel scope s) Signal.ref? := by
  have hwf := wellFormed_of_ofText hp
  have hclosed := closed_realm (hm.closed hwf) (.scope scope)
  have hholds : m.store.Holds (m.store.Realm (.scope scope)) (.scope scope) :=
    ⟨.inl .refl, hscope⟩
  constructor
  · intro e he
    refine (eval_runs hclosed hholds (Block.Everywhere.expr hwf he)).framed ?_
    exact fun s v r hv hr => hv.holds hr
  · intro s hs
    refine (exec_runs hclosed hholds (Block.Everywhere.stmt hwf hs)).framed ?_
    intro s signal r hsignal hr
    cases signal with
    | giveBack v => exact Within.holds hsignal hr
    | normal | stop | skip => cases hr

/-- Defines a function that makes functions, each with a list of its own. -/
def makeCollector : Stmt :=
  .function (some 2) "make" ["x"] (.mk (some 2) [
    .function (some 3) "add" ["y"] (.mk (some 3) [.giveBack (some 3) (some
      (.call (some 3) ⟨some 3, "jod"⟩ [.name (some 3) "x", .name (some 3) "y"]))]),
    .giveBack (some 4) (some (.name (some 4) "add"))])

/-- Makes such a function. -/
def declareCollector : Stmt :=
  .declare (some 6) "c" (some
    (.call (some 6) ⟨some 6, "make"⟩ [.call (some 6) ⟨some 6, "yadi"⟩ []]))

/-- Puts the function into its own list. -/
def callCollector : Stmt :=
  .expression (some 7) (.call (some 7) ⟨some 7, "c"⟩ [.name (some 7) "c"])

/-- The program of these three statements. -/
def collectorProgram : Program :=
  .mk (some 1) [makeCollector, declareCollector, callCollector]

/-- The three statements are those of a source text. -/
theorem ofText_collectorProgram : Program.ofText ("chala suru karu;\nkaamKar make(x) \x7b\n" ++
      "kaamKar add(y) \x7b paratDe jod(x, y); \x7d\nparatDe add;\n\x7d\n" ++
      "heAhe c = make(yadi());\nc(c);\nbas re ata;") = .ok collectorProgram := by
  cbv

/-- The function is made, and its list stands in the scope of the call that made it. -/
def collecting : Machine :=
  (topLevel (exec false 9 globalScope) [makeCollector, declareCollector]).after
    (.fresh .unavailable {})

/-- The first two statements of the program lead to this state. -/
theorem reached_collecting : collecting.Reached false collectorProgram := by
  refine .topLevel (.fresh .unavailable {}) (wellFormed_of_ofText ofText_collectorProgram) 9
    (Machine.has_globalScope .unavailable {}) fun s hs => ?_
  exact List.mem_append_left [callCollector] hs

theorem size_scopes_collecting : collecting.store.scopes.size = 2 := by cbv

theorem framed_callCollector :
    collecting.store.Has (.scope ⟨1⟩) ∧
      Framed collecting ⟨1⟩ (exec false 9 ⟨1⟩ callCollector) Signal.ref? := by
  have hscope : collecting.store.Has (.scope ⟨1⟩) := by
    rw [Has, size_scopes_collecting]
    exact Nat.one_lt_two
  exact ⟨hscope, (framed_of_reached ofText_collectorProgram reached_collecting hscope 9).2
    callCollector (.top (.tail _ (.tail _ List.mem_cons_self)))⟩

end Action

end Boli
