import Boli.Proofs.Upholding

/-!
# Jumps stay where they belong

A statement ends with a jump only if such a jump stands in it, outside of the functions that it
defines, and a jump that belongs to a loop also outside of the loops in it (`Stmt.Releases`).  This
holds in every state.

A program is well placed (`Block.placed`) if all its jumps stand in something that catches them.
When it runs, the bodies of its functions are values that are called from anywhere, so that the run
has to keep all functions of the store well placed (`bounds_placed`).  It does, and then no jump gets
out of a call or of the whole program.
-/

namespace Boli

/-! ## Jumps in statements -/

/-- A jump is caught by the loop or the function around it. -/
def Jump.allowed (inLoop inFunction : Bool) : Jump → Bool
  | stop | skip => inLoop
  | giveBack => inFunction

mutual

/-- All jumps in a statement are caught, those to the outside by the loop or the function around
the statement. -/
def Stmt.placed (inLoop inFunction : Bool) : Stmt → Bool
  | .stop _ => Jump.stop.allowed inLoop inFunction
  | .skip _ => Jump.skip.allowed inLoop inFunction
  | .giveBack _ _ => Jump.giveBack.allowed inLoop inFunction
  | .block b => b.placed inLoop inFunction
  | .branch _ _ s none => s.placed inLoop inFunction
  | .branch _ _ s (some a) => s.placed inLoop inFunction && a.placed inLoop inFunction
  | .loop _ _ b => b.placed true inFunction
  | .function _ _ _ b => b.placed false true
  | .declare .. | .assign .. | .print .. | .expression .. | .misplaced .. => true
termination_by structural s => s

/-- The same for each of some statements. -/
def Stmt.placedAll (inLoop inFunction : Bool) : List Stmt → Bool
  | [] => true
  | s :: ss => s.placed inLoop inFunction && Stmt.placedAll inLoop inFunction ss
termination_by structural ss => ss

/-- The same for a block. -/
def Block.placed (inLoop inFunction : Bool) : Block → Bool
  | .mk _ ss => Stmt.placedAll inLoop inFunction ss
termination_by structural b => b

end

variable {inLoop inFunction : Bool}

/-- The statements of a well placed sequence are well placed. -/
theorem Stmt.placed_of_mem {s : Stmt} {ss : List Stmt}
    (h : Stmt.placedAll inLoop inFunction ss = true) (hs : s ∈ ss) :
    s.placed inLoop inFunction = true := by
  induction ss with
  | nil => cases hs
  | cons t ss ih =>
    rw [Stmt.placedAll, Bool.and_eq_true] at h
    rcases List.mem_cons.mp hs with rfl | hs
    · exact h.1
    · exact ih h.2 hs

theorem Block.placed_of_mem {b : Block} {s : Stmt} (h : b.placed inLoop inFunction = true)
    (hs : s ∈ b.statements) : s.placed inLoop inFunction = true := by
  cases b with
  | mk line ss => exact Stmt.placed_of_mem h hs

theorem Stmt.placed_consequent {line : Line} {e : Expr} {s : Stmt} {a : Option Stmt}
    (h : (Stmt.branch line e s a).placed inLoop inFunction = true) :
    s.placed inLoop inFunction = true := by
  cases a with
  | none => exact h
  | some a =>
    rw [Stmt.placed, Bool.and_eq_true] at h
    exact h.1

/-- The other side of a well placed choice is well placed. -/
theorem Stmt.placed_alternate {line : Line} {e : Expr} {s a : Stmt}
    (h : (Stmt.branch line e s (some a)).placed inLoop inFunction = true) :
    a.placed inLoop inFunction = true := by
  rw [Stmt.placed, Bool.and_eq_true] at h
  exact h.2

/-- What a well placed statement releases is caught around it. -/
theorem Stmt.Releases.allowed {j : Jump} {s : Stmt} (h : s.Releases j)
    (hs : s.placed inLoop inFunction = true) : j.allowed inLoop inFunction = true := by
  induction h generalizing inLoop with
  | @here s hj =>
    cases s with
    | stop line | skip line | giveBack line value =>
      cases hj
      exact hs
    | _ => cases hj
  | block hmem _ ih => exact ih (Block.placed_of_mem hs hmem)
  | consequent _ ih => exact ih (Stmt.placed_consequent hs)
  | alternate _ ih => exact ih (Stmt.placed_alternate hs)
  | loop hmem _ hj ih =>
    subst hj
    exact @ih true (Block.placed_of_mem hs hmem)

/-! ## Runs -/

/-- Well placed trees and functions have no stray jumps. -/
theorem bounds_placed : Action.Bounds (fun _ => True)
    (fun s => ∃ inLoop inFunction, s.placed inLoop inFunction = true)
    (fun c => c.body.placed false true = true) (fun e => e.isStray = false) where
  host _ := rfl
  unfinished := rfl
  expr _ hcause := hcause
  stmt _ hcause := hcause
  leaving {c s j} hc hs hj hne := by
    -- a call catches what a function gives back, and its body releases nothing else
    have hallowed := hj.allowed (Block.placed_of_mem hc hs)
    cases j with
    | giveBack => exact absurd rfl hne
    | stop | skip => cases hallowed
  closure := fun ⟨_, _, hs⟩ _ => hs
  body hc s hs := ⟨_, _, Block.placed_of_mem hc hs⟩
  below _ _ _ := trivial
  exprs _ _ _ := trivial
  children {s} hs hcompound c hc := by
    obtain ⟨inLoop, inFunction, hs⟩ := hs
    cases s with
    | block b | loop line e b => exact ⟨_, _, Block.placed_of_mem hs hc⟩
    | branch line e consequent alternate =>
      rcases List.mem_cons.1 hc with rfl | hc
      · exact ⟨_, _, Stmt.placed_consequent hs⟩
      · obtain rfl := Option.mem_toList.1 hc
        exact ⟨_, _, Stmt.placed_alternate hs⟩
    | _ => cases hcompound

namespace Action

/-- Nothing catches the jumps of a program, and none of its statements asks for one. -/
theorem topLevel_placed (coerce : Bool) (fuel : Nat) {ss : List Stmt}
    (h : ∀ s ∈ ss, s.placed false false = true) :
    Upholds (fun c => c.body.placed false true = true) (fun e => e.isStray = false)
      (topLevel (exec coerce fuel globalScope) ss) fun _ => True := by
  refine (sustains_upholds bounds_placed coerce).topLevel fuel () globalScope
    (fun s hs => ⟨_, _, h s hs⟩) fun s hs _ signal j _ hsignal hj => ?_
  have hallowed := (hsignal j hj).allowed (h s hs)
  cases j <;> cases hallowed

/-- A statement asks for no other jumps than those it releases. -/
theorem releases_of_exec {coerce : Bool} {fuel : Nat} {scope : ScopeId} {s : Stmt}
    {m m' : Machine} {signal : Signal} {j : Jump} (h : exec coerce fuel scope s m = .ok signal m')
    (hj : signal.jump? = some j) : s.Releases j := by
  have hexec : Upholds (fun _ => True) (fun _ => True) (exec coerce fuel scope s)
      (Signal.Asks fun j => s.Releases j) :=
    (sustains_upholds .anything coerce).exec fuel () trivial
  have hrun := hexec m fun _ _ => trivial
  rw [h] at hrun
  exact hrun.2 j hj

end Action

namespace Session

/-- A run that fails logs the fault that its statements stopped on. -/
theorem exists_of_runWithin_failed {fuel : Nat} {settings : Settings} {p : Program}
    {m₀ m : Machine} (h : runWithin fuel settings p m₀ = (.failed, m)) :
    ∃ f m', Action.topLevel (Action.exec settings.coerce fuel globalScope) p.statements m₀ =
      .error (.fault f) m' ∧ m.log.back? = some (.runtimeError settings.file f) := by
  rw [runWithin, runBy] at h
  cases hend : Action.topLevel (Action.exec settings.coerce fuel globalScope) p.statements m₀ with
  | ok u m' =>
    rw [hend] at h
    cases h
  | error e m' =>
    rw [hend] at h
    cases e with
    | fault f =>
      cases h
      exact ⟨f, m', rfl, Array.back?_push⟩
    | host _ | unfinished => cases h

/-- A well placed program never stops on a jump, and a statement ends with a jump only if it releases
it. -/
theorem jumps_contained (fuel : Nat) (settings : Settings) :
    (∀ p : Program, p.placed false false = true → ∀ input sink,
      (∀ e m, Action.topLevel (Action.exec settings.coerce fuel globalScope) p.statements
        (.fresh input sink) = .error e m → e.isStray = false) ∧
      ∀ m, runWithin fuel settings p (.fresh input sink) = (.failed, m) →
        ∃ f : Fault, f.cause.isStray = false ∧
          m.log.back? = some (.runtimeError settings.file f)) ∧
    ∀ scope s m signal m' j, Action.exec settings.coerce fuel scope s m = .ok signal m' →
      signal.jump? = some j → s.Releases j := by
  refine ⟨fun p hp input sink => ?_, fun scope s m signal m' j hrun hj => ?_⟩
  · have hrun := Action.topLevel_placed settings.coerce fuel (fun s hs => Block.placed_of_mem hp hs)
      (.fresh input sink) fun c hc => absurd hc (Array.not_mem_empty c)
    refine ⟨fun e m heq => ?_, fun m heq => ?_⟩
    · rw [heq] at hrun
      exact hrun.2
    · obtain ⟨f, m', hend, hlog⟩ := exists_of_runWithin_failed heq
      rw [hend] at hrun
      exact ⟨f, hrun.2, hlog⟩
  · exact Action.releases_of_exec hrun hj

/-- A function gives back its argument from within a loop, or leaves the loop.  The program calls it
with a variable that it does not have. -/
def searching : Program :=
  .mk none [
    .function none "f" ["x"] (.mk none [
      .loop none (.literal none (.boolean true) "khara") (.mk none [
        .branch none (.name none "x") (.giveBack none (some (.name none "x")))
          (some (.stop none))])]),
    .expression none (.call none ⟨none, "f"⟩ [.name none "y"])]

/-- Leaves the loop around it. -/
def leaveLoop : Stmt :=
  .branch none (.literal none (.boolean true) "khara") (.stop none) none

theorem jumps_contained_searching :
    (searching.placed false false = true ∧
      ∃ m, runWithin 9 {} searching (.fresh .unavailable {}) = (.failed, m) ∧
        ∃ f : Fault, f.cause.isStray = false ∧ m.log.back? = some (.runtimeError "<stdin>" f)) ∧
    ∃ m, Action.exec false 9 globalScope leaveLoop (.fresh .unavailable {}) = .ok .stop m ∧
      leaveLoop.Releases .stop := by
  obtain ⟨hprogram, hstatement⟩ := jumps_contained 9 {}
  have hplaced : searching.placed false false = true := rfl
  refine ⟨⟨hplaced, _, rfl, (hprogram searching hplaced .unavailable {}).2 _ rfl⟩, _, rfl, ?_⟩
  exact hstatement globalScope leaveLoop (.fresh .unavailable {}) .stop _ .stop rfl rfl

end Session

end Boli
