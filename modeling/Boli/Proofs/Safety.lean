import Boli.Proofs.ConfinedEvaluation
import Boli.Proofs.WellFormedness
import Boli.Run.Session

/-!
# Safety of programs that were read

A program that was read, run from a fresh machine whose output is never full, ends orderly: it
completes without an error in the log, or fails with a single one, which tells of a fault other than
an operation without meaning.  No error of the host comes up, whatever the input supplies.
-/

namespace Boli

open Store

/-- The errors that a machine has logged. -/
def Machine.errors (m : Machine) : List Record :=
  m.log.toList.filter (·.level = .error)

/-- A machine at the start of a session refers to nothing but its global scope. -/
theorem Machine.closed_fresh (input : InputSource) (sink : Sink) :
    (Machine.fresh input sink).store.Closed fun _ => True where
  fresh _ _ := trivial
  contents r v _ hv := by
    cases hv with
    | @binding _ _ id hb =>
      obtain ⟨i⟩ := id
      cases i <;> simp [Machine.fresh, bindings] at hb
    | element he => simp [Machine.fresh, elements] at he
  parents id p _ hp := by
    obtain ⟨i⟩ := id
    cases i <;> simp [Machine.fresh, parent?] at hp
  closures id c _ hc := by simp [Machine.fresh, closure?] at hc
  bodies id c hc := by simp [Machine.fresh, closure?] at hc

theorem Machine.has_globalScope (input : InputSource) (sink : Sink) :
    (Machine.fresh input sink).store.Has (.scope globalScope) :=
  Nat.zero_lt_one

/-- Calls leave no errors in the log. -/
theorem Machine.Follows.errors {A : Ref → Prop} {m m' : Machine} (h : m.Follows A m') :
    m'.errors = m.errors := by
  obtain ⟨calls, hcalls, hlog⟩ := h.log
  have hnone : calls.filter (·.level = .error) = [] :=
    List.filter_eq_nil_iff.mpr fun r hr => by simp [hcalls r hr]
  rw [Machine.errors, Machine.errors, hlog, List.filter_append, hnone, List.append_nil]

namespace Session

/-- A program that was read completes without an error, or fails with one fault of its own. -/
theorem runWithin_orderly {text : String} {p : Program} (h : Program.ofText text = .ok p)
    (fuel : Nat) (settings : Settings) (input : InputSource) (sink : Sink)
    (hsink : sink.room = none) :
    match runWithin fuel settings p (.fresh input sink) with
    | (.completed, m) => m.errors = []
    | (.failed, m) => ∃ f : Fault, m.errors = [.runtimeError settings.file f] ∧
        ∀ what, f.cause ≠ .unknownOperation what
    | (.raised _, _) => False
    | (.unfinished, _) => True := by
  have hrun := Action.program_runs settings.coerce fuel (wellFormed_of_ofText h)
    (Machine.closed_fresh input sink) ⟨trivial, Machine.has_globalScope input sink⟩
  unfold Action.Runs at hrun
  unfold runWithin runBy
  cases hend : Action.topLevel (Action.exec settings.coerce fuel globalScope) p.statements
      (.fresh input sink) with
  | ok u m =>
    rw [hend] at hrun
    exact hrun.2.1.errors
  | error e m =>
    rw [hend] at hrun
    obtain ⟨-, follows, hordinary⟩ := hrun
    have hnone : m.errors = [] := follows.errors
    cases e with
    | unfinished => trivial
    | host e => exact hordinary.2 (follows.room hsink)
    | fault f =>
      refine ⟨f, ?_, hordinary⟩
      rw [Machine.errors] at hnone ⊢
      rw [Array.toList_push, List.filter_append, hnone]
      rfl

/-- A function that puts itself into a list, and a property of the list that it gives back. -/
def listProperty : Program :=
  .mk (some 1) [
    .function (some 2) "f" ["x"] (.mk (some 2) [.giveBack (some 2) (some
      (.call (some 2) ⟨some 2, "jod"⟩ [.name (some 2) "x", .name (some 2) "f"]))]),
    .expression (some 3) (.property (some 3)
      (.call (some 3) ⟨some 3, "f"⟩ [.call (some 3) ⟨some 3, "yadi"⟩ []]) ⟨some 3, "size"⟩)]

theorem runWithin_listProperty :
    (runWithin 9 {} listProperty (.fresh .unavailable {})).1 = .failed ∧
      match runWithin 9 {} listProperty (.fresh .unavailable {}) with
      | (.completed, m) => m.errors = []
      | (.failed, m) => ∃ f : Fault, m.errors = [.runtimeError "<stdin>" f] ∧
          ∀ what, f.cause ≠ .unknownOperation what
      | (.raised _, _) => False
      | (.unfinished, _) => True := by
  have htext : Program.ofText ("chala suru karu;\nkaamKar f(x) \x7b paratDe jod(x, f); \x7d\n" ++
      "f(yadi()).size;\nbas re ata;") = .ok listProperty := by
    cbv
  exact ⟨by cbv, runWithin_orderly htext 9 {} .unavailable {} rfl⟩

end Session

end Boli
