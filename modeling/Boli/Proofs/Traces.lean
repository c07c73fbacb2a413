import Boli.Proofs.Frame
import Boli.Proofs.Links

/-!
# The steps of a run

What a run does on its way is told by its steps.  A step leads from one machine to the next, and it
may be the call of a function of the language.

* `Engine.traced` has the parts of running, with a record of every step.
* `Tracing.Traces` says that an action with a record does what an action does, and which steps it
  records: they lead from the machine at the start to the one at the end (`Machine.Leads`).
* `Session.trace` has the steps of a whole program.
-/

namespace Boli

/-- A step of a run. -/
structure Step where
  /-- The machine that the step starts from. -/
  before : Machine
  /-- The machine that the step leads to. -/
  after : Machine
  /-- The function of the language that the step calls, and its arguments. -/
  call : Option (Builtin × List Value)

/-- The steps lead from the first machine to the second one. -/
def Machine.Leads : Machine → List Step → Machine → Prop
  | m, [], m' => m = m'
  | m, t :: ts, m' => t.before = m ∧ t.after.Leads ts m'

namespace Machine.Leads

variable {m m' m'' : Machine} {ts us : List Step}

/-- The steps of one run lead on where those of another one ended. -/
theorem append (h : m.Leads ts m') (h' : m'.Leads us m'') : m.Leads (ts ++ us) m'' := by
  induction ts generalizing m with
  | nil =>
    cases h
    exact h'
  | cons t ts ih => exact ⟨h.1, ih h.2⟩

/-- What the machine at the start has, and every step keeps, the machines on the way and at the end
have. -/
theorem invariant {I : Machine → Prop} (h : m.Leads ts m') (hm : I m)
    (hstep : ∀ t ∈ ts, I t.before → I t.after) : (∀ t ∈ ts, I t.after) ∧ I m' := by
  induction ts generalizing m with
  | nil =>
    cases h
    exact ⟨by simp, hm⟩
  | cons t ts ih =>
    obtain ⟨rfl, hrest⟩ := h
    have hafter := hstep t List.mem_cons_self hm
    obtain ⟨htail, hlast⟩ := ih hrest hafter fun u hu => hstep u (List.mem_cons_of_mem t hu)
    exact ⟨List.forall_mem_cons.2 ⟨hafter, htail⟩, hlast⟩

end Machine.Leads

/-- A step of a script that is run with a record of all steps. -/
abbrev Tracing := EStateM Stop (Machine × List Step)

namespace Tracing

variable {α β : Type}

/-- The end of an action, with a record. -/
def noting (r : List Step) :
    EStateM.Result Stop Machine α → EStateM.Result Stop (Machine × List Step) α
  | .ok a m => .ok a (m, r)
  | .error e m => .error e (m, r)

/-- An action that is recorded as one step. -/
def lift (call : Option (Builtin × List Value)) (x : Action α) : Tracing α :=
  fun (m, r) => noting (r ++ [⟨m, x.after m, call⟩]) (x m)

/-- On the machine, the first action does what the second one does, and records the steps. -/
structure Traces (x : Tracing α) (y : Action α) (m : Machine) (ts : List Step) : Prop where
  same : ∀ r, x (m, r) = noting (r ++ ts) (y m)
  leads : m.Leads ts (y.after m)

namespace Traces

variable {x : Tracing α} {y : Action α} {f : α → Tracing β} {g : α → Action β} {m m' : Machine}
  {ts us : List Step}

theorem pure (a : α) (m : Machine) : Traces (pure a) (pure a) m [] :=
  ⟨fun r => by rw [List.append_nil]; rfl, rfl⟩

theorem lift (call : Option (Builtin × List Value)) (y : Action α) (m : Machine) :
    Traces (lift call y) y m [⟨m, y.after m, call⟩] :=
  ⟨fun _ => rfl, rfl, rfl⟩

/-- If the first action stops, its steps are all. -/
theorem bind_error {e : Stop} (h : Traces x y m ts) (hy : y m = .error e m') :
    Traces (x >>= f) (y >>= g) m ts := by
  refine ⟨fun r => ?_, ?_⟩
  · have hx := h.same r
    rw [hy] at hx
    rw [Action.bind_of_error hx, Action.bind_of_error hy]
    rfl
  · rw [Action.after_bind_error hy, ← Action.after_of_error hy]
    exact h.leads

/-- If the first action has a value, the steps of the second one follow. -/
theorem bind_ok {a : α} (h : Traces x y m ts) (hy : y m = .ok a m')
    (h' : Traces (f a) (g a) m' us) : Traces (x >>= f) (y >>= g) m (ts ++ us) := by
  refine ⟨fun r => ?_, ?_⟩
  · have hx := h.same r
    rw [hy] at hx
    rw [Action.bind_of_ok hx, Action.bind_of_ok hy, ← List.append_assoc]
    exact h'.same _
  · have hleads := h.leads
    rw [Action.after_of_ok hy] at hleads
    rw [Action.after_bind_ok hy]
    exact hleads.append h'.leads

end Traces

end Tracing

/-- The parts of running, with a record of all steps. -/
def Engine.traced : Engine Tracing where
  step := Tracing.lift none
  callee scope name line := Tracing.lift none (builtinsFirst scope name line)
  builtin b args line := Tracing.lift (some (b, args)) (Action.builtin b args line)

namespace Session

/-- The statements of a program, with a record of all steps. -/
def traced (fuel : Nat) (settings : Settings) (p : Program) : Tracing Unit :=
  Engine.traced.topLevel ((Engine.traced.run settings.coerce fuel).exec globalScope) p.statements

/-- The steps of a program. -/
def trace (fuel : Nat) (settings : Settings) (p : Program) (m : Machine) : List Step :=
  match traced fuel settings p (m, []) with
  | .ok _ (_, ts) | .error _ (_, ts) => ts

/-- A run has the steps that are traced for its statements. -/
theorem trace_eq {fuel : Nat} {settings : Settings} {p : Program} {y : Action Unit} {m : Machine}
    {ts : List Step} (h : Tracing.Traces (traced fuel settings p) y m ts) :
    trace fuel settings p m = ts := by
  rw [trace, h.same]
  cases y m <;> rfl

/-- The end of a run is the end of its statements, with a record of the error that it stopped on. -/
theorem runWithin_after (fuel : Nat) (settings : Settings) (p : Program) (m : Machine) :
    let last :=
      (Action.topLevel (Action.exec settings.coerce fuel globalScope) p.statements).after m
    (runWithin fuel settings p m).2 = { last with log := (runWithin fuel settings p m).2.log } ∧
      last.log.toList <+: (runWithin fuel settings p m).2.log.toList := by
  rw [runWithin, runBy, Action.after]
  cases Action.topLevel (Action.exec settings.coerce fuel globalScope) p.statements m with
  | ok _ m' => exact ⟨rfl, List.prefix_rfl⟩
  | error e m' =>
    cases e with
    | fault f | host f => exact ⟨rfl, by simp⟩
    | unfinished => exact ⟨rfl, List.prefix_rfl⟩

end Session

end Boli
