import Boli.Run.Eval
import Boli.Syntax.Statement

/-!
# Sessions

A session runs programs, statements and expressions one after the other on one machine, in its
global scope.  `Session.run` runs a whole program: it logs the error that a program stops on, and
tells how the program ended.
-/

namespace Boli

/-- The settings of a session. -/
structure Settings where
  /-- Numeric texts in programs are numbers. -/
  coerce : Bool := false
  /-- The name of the script in log records. -/
  file : String := "<stdin>"
deriving DecidableEq, Repr

/-- How a program ended. -/
inductive Completion where
  /-- It ran to its end. -/
  | completed
  /-- It stopped on a fault. -/
  | failed
  /-- It stopped on an error of the host, which goes on to the caller. -/
  | raised (error : HostError)
  /-- It did not come to an end. -/
  | unfinished
deriving DecidableEq, Repr

namespace Action

/-- Runs the statements of a program in order.  None of them may end with a jump. -/
def topLevel (run : Stmt → Action Signal) : List Stmt → Action Unit
  | [] => return ()
  | s :: ss => do
    match (← run s).jump? with
    | some jump => fail (.stray jump) s.line
    | none => topLevel run ss

end Action

namespace Session

/-- The bound on the depth of recursion, far beyond what a run can reach. -/
def depth : Nat := Nat.pow 2 62

/-- Runs a statement in the global scope. -/
def exec (settings : Settings) (s : Stmt) : Action Signal :=
  Action.exec settings.coerce depth globalScope s

/-- Evaluates an expression in the global scope. -/
def eval (settings : Settings) (e : Expr) : Action Value :=
  Action.eval settings.coerce depth globalScope e

/-- Calls the function that a global name is bound to. -/
def call (settings : Settings) (name : String) (args : List Value) : Action Value := do
  match ← Action.lookup globalScope name none with
  | .function id =>
    match (← get).store.closure? id with
    | some closure => Action.callFunction settings.coerce depth closure args
    | none => throw (.host (.notAFunction (some .function)))
  | v => throw (.host (.notAFunction v.type?))

/-- Runs a program by a given way to run its statements. -/
def runBy (exec : Stmt → Action Signal) (settings : Settings) (p : Program) (m : Machine) :
    Completion × Machine :=
  match Action.topLevel exec p.statements m with
  | .ok _ m => (.completed, m)
  | .error (.fault f) m =>
    (.failed, { m with log := m.log.push (.runtimeError settings.file f) })
  | .error (.host e) m =>
    (.raised e, { m with log := m.log.push (.unknownError settings.file e) })
  | .error .unfinished m => (.unfinished, m)

/-- Runs a program with a bound on the depth of recursion. -/
def runWithin (fuel : Nat) (settings : Settings) (p : Program) (m : Machine) :
    Completion × Machine :=
  runBy (Action.exec settings.coerce fuel globalScope) settings p m

/-- Runs a program. -/
def run (settings : Settings) (p : Program) (m : Machine) : Completion × Machine :=
  runWithin depth settings p m

/-- The global variables, sorted by name. -/
def globals (m : Machine) : List (String × Value) :=
  (m.store.bindings globalScope).mergeSort fun a b => a.1 ≤ b.1

end Session

/-- The lines of a text that is read line by line.  A line feed ends a line, and a last line without
one counts. -/
def charLines : List Char → List (List Char)
  | [] => []
  | c :: cs =>
    if c = '\n' then [] :: charLines cs
    else
      match charLines cs with
      | [] => [[c]]
      | line :: lines => (c :: line) :: lines
termination_by structural cs => cs

/-- The input that reads a text line by line. -/
def InputSource.ofText (text : String) : InputSource :=
  .lines ((charLines text.toList).map String.ofList)

end Boli
