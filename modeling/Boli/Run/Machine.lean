import Boli.Fault
import Boli.Store.Display

/-!
# Machines

The state of a running script: its store, what it has written, what it has logged, and what it can
still read.  An `Action` works on a machine and ends with a value or a `Stop`.  In both cases the
machine it leaves behind counts, since effects are never undone.

* `write` sends a line to the sink, `readInput` takes a text from the input.
* `lookup`, `assign` and `define` are the variables, `newList` the lists.
* `typeOf`, `truth` and `display` ask for a property of a value that foreign objects lack.
-/

namespace Boli

/-- What an input provider returns. -/
inductive Supply where
  /-- A text. -/
  | text (s : String)
  /-- An object of the named type of the host. -/
  | other (hostType : String)
deriving DecidableEq, Repr

/-- Where input comes from. -/
inductive InputSource where
  /-- A provider with the items it still returns, and what it returns from then on. -/
  | provider (items : List Supply) (afterwards : Supply)
  /-- The lines that are still to read. -/
  | lines (rest : List String)
  /-- No input. -/
  | unavailable
deriving DecidableEq, Repr

/-- The severity of a log record. -/
inductive LogLevel where
  | debug | warning | error
deriving DecidableEq, Repr

namespace LogLevel

/-- The name of a level. -/
def name : LogLevel → String
  | debug => "DEBUG"
  | warning => "WARNING"
  | error => "ERROR"

/-- The rank of a level. -/
def rank : LogLevel → Nat
  | debug => 10
  | warning => 30
  | error => 40

end LogLevel

/-- What a running script logs. -/
inductive Record where
  /-- A function is called. -/
  | calling (function : String) (arguments : Nat)
  /-- The script in a file stopped on a fault. -/
  | runtimeError (file : String) (fault : Fault)
  /-- The script in a file stopped on an error of the host. -/
  | unknownError (file : String) (error : HostError)
deriving DecidableEq, Repr

namespace Record

/-- The severity of a record. -/
def level : Record → LogLevel
  | calling .. => .debug
  | runtimeError .. | unknownError .. => .error

/-- The wording of a record. -/
def message : Record → String
  | calling function arguments =>
    "Calling " ++ function ++ " with " ++ toString arguments ++ " argument(s)"
  | runtimeError file fault => "Runtime error in " ++ file ++ ": " ++ fault.message
  | unknownError file _ => "Unknown error while running " ++ file

end Record

/-- Where output goes. -/
structure Sink where
  /-- The number of lines it still takes, if there is a limit. -/
  room : Option Nat := none
  /-- The reason it gives for not taking another one. -/
  reason : String := ""
deriving DecidableEq, Repr

/-- The state of a running script. -/
structure Machine where
  /-- Scopes, lists and functions. -/
  store : Store
  /-- The lines written. -/
  output : Array String := #[]
  /-- The records logged. -/
  log : Array Record := #[]
  /-- What is left to read. -/
  input : InputSource := .unavailable
  /-- Where lines are written to. -/
  sink : Sink := {}

/-- Why an action has no value. -/
inductive Stop where
  /-- The script is at fault. -/
  | fault (f : Fault)
  /-- The host is at fault. -/
  | host (e : HostError)
  /-- The action did not come to an end within its bound. -/
  | unfinished
deriving DecidableEq, Repr

/-- A step of a running script. -/
abbrev Action := EStateM Stop Machine

namespace Action

/-- Stops on a fault of the script. -/
def fail (cause : Cause) (line : Line) : Action α :=
  throw (.fault ⟨cause, line⟩)

/-- The result of an operation of the host, or the error it raises. -/
def ofHost (error : HostError) : Option α → Action α
  | some a => pure a
  | none => throw (.host error)

/-- The value, unless a foreign object is in the way. -/
def ofValue? (a? : Option α) : Action α :=
  ofHost .notAValue a?

/-- The type of a value. -/
def typeOf (v : Value) : Action ValueType :=
  ofValue? v.type?

/-- The truth of a value. -/
def truth (v : Value) : Action Bool :=
  ofValue? v.truth?

/-- The text of a value. -/
def display (v : Value) : Action String := do
  match (← get).store.display v with
  | .ok text => return text
  | .error .foreign => throw (.host .notAValue)
  | .error .endless => throw .unfinished
  | .error (.notAnInteger infinite) => throw (.host (.notAnInteger infinite))

/-- The text of a value that the host takes for a number. -/
def formatNumber : Value → Action String
  | .boolean b => return if b then "true" else "false"
  | .number x => ofHost (.notAnInteger x.isInf) (Numeral.display? x)
  | .text s =>
    match Numeral.ofNotation? s with
    | some x => ofHost (.notAnInteger x.isInf) (Numeral.display? x)
    | none => throw (.host (.notANumber s))
  | v => throw (.host (.notNumeric v.type?))

/-- The number that a text holds, or null. -/
def parseNumber : Value → Action Value
  | .text s => return ((Numeral.ofText? s).map Value.number).getD .null
  | v => throw (.host (.notAText v.type?))

/-- Changes the store. -/
def modifyStore (f : Store → Store) : Action Unit :=
  modify fun m => { m with store := f m.store }

/-- Logs a record. -/
def record (r : Record) : Action Unit :=
  modify fun m => { m with log := m.log.push r }

/-- Writes a line, if the sink takes it. -/
def write (line : String) : Action Unit := fun m =>
  match m.sink.room with
  | some 0 => .error (.host (.sinkFailed m.sink.reason)) m
  | some (room + 1) =>
    .ok () { m with output := m.output.push line, sink := { m.sink with room := some room } }
  | none => .ok () { m with output := m.output.push line }

/-- The text that a supply holds. -/
def textOf (supply : Supply) (line : Line) : Action String :=
  match supply with
  | .text s => return s
  | .other hostType => fail (.inputNotText hostType) line

/-- Takes a text from the input. -/
def readInput (line : Line) : Action String := do
  match (← get).input with
  | .provider (item :: items) afterwards =>
    modify fun m => { m with input := .provider items afterwards }
    textOf item line
  | .provider [] afterwards => textOf afterwards line
  | .lines (text :: rest) =>
    modify fun m => { m with input := .lines rest }
    return text
  | .lines [] | .unavailable => fail .inputUnavailable line

/-- The value of a variable. -/
def lookup (scope : ScopeId) (name : String) (line : Line) : Action Value := do
  match (← get).store.lookup? scope name with
  | some v => return v
  | none => fail (.undefinedVariable name) line

/-- Gives a variable a new value. -/
def assign (scope : ScopeId) (name : String) (value : Value) (line : Line) : Action Unit := do
  match (← get).store.resolve? scope name with
  | some target => modifyStore (·.define target name value)
  | none => fail (.undefinedTarget name) line

/-- Binds a name in a scope. -/
def define (scope : ScopeId) (name : String) (value : Value) : Action Unit :=
  modifyStore (·.define scope name value)

/-- A new list. -/
def newList (elements : Array Value) : Action Value := fun m =>
  let (id, store) := m.store.newList elements
  .ok (.list id) { m with store := store }

/-- A new function. -/
def newFunction (closure : Closure) : Action Value := fun m =>
  let (id, store) := m.store.newFunction closure
  .ok (.function id) { m with store := store }

/-- A new scope inside another one. -/
def newScope (parent : ScopeId) : Action ScopeId := fun m =>
  let (id, store) := m.store.newScope (some parent)
  .ok id { m with store := store }

/-- The results of an action on each of some items, in order. -/
def each (f : α → Action β) : List α → Action (List β)
  | [] => return []
  | a :: as => do
    let b ← f a
    let bs ← each f as
    return b :: bs

/-- The machine that an action leaves behind, whether it has a value or stops. -/
def after (x : Action α) (m : Machine) : Machine :=
  match x m with
  | .ok _ m' => m'
  | .error _ m' => m'

section Outcomes

variable {α β σ : Type}

/-- After a value, the second action goes on from the state that the first one left. -/
theorem bind_of_ok {x : EStateM Stop σ α} {f : α → EStateM Stop σ β} {s s' : σ} {a : α}
    (h : x s = .ok a s') : (x >>= f) s = f a s' := by
  show EStateM.bind x f s = _
  rw [EStateM.bind, h]

/-- After a stop, the second action does not run. -/
theorem bind_of_error {x : EStateM Stop σ α} {f : α → EStateM Stop σ β} {s s' : σ} {e : Stop}
    (h : x s = .error e s') : (x >>= f) s = .error e s' := by
  show EStateM.bind x f s = _
  rw [EStateM.bind, h]

theorem get_bind (f : σ → EStateM Stop σ β) (s : σ) : (get >>= f) s = f s s :=
  rfl

variable {x : Action α} {f : α → Action β} {m m' : Machine} {a : α} {b : β} {e : Stop}

/-- If two actions in a row have a value, the first one has one, from which the second one goes on. -/
theorem exists_of_bind_eq_ok (h : (x >>= f) m = .ok b m') :
    ∃ a m₁, x m = .ok a m₁ ∧ f a m₁ = .ok b m' := by
  cases hx : x m with
  | ok a m₁ =>
    rw [bind_of_ok hx] at h
    exact ⟨a, m₁, rfl, h⟩
  | error e m₁ =>
    rw [bind_of_error hx] at h
    cases h

theorem after_of_ok (h : x m = .ok a m') : x.after m = m' := by
  rw [after, h]

theorem after_of_error (h : x m = .error e m') : x.after m = m' := by
  rw [after, h]

theorem after_bind_ok (h : x m = .ok a m') : after (x >>= f) m = (f a).after m' := by
  rw [after, after, bind_of_ok h]

theorem after_bind_error (h : x m = .error e m') : after (x >>= f) m = m' := by
  rw [after, bind_of_error h]

end Outcomes

end Action

/-- The scope of a whole session. -/
def globalScope : ScopeId := ⟨0⟩

/-- A machine at the start of a session, with nothing but the global scope. -/
def Machine.fresh (input : InputSource) (sink : Sink) : Machine where
  store := { scopes := #[⟨none, []⟩] }
  input := input
  sink := sink

end Boli
