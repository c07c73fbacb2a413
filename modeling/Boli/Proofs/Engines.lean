import Boli.Run.Session

/-!
# Running with exchangeable parts

A statement about another way to run a program, or about what a run does on its way, compares two
runs of the program.  Here the parts that such runs differ in are parameters.

* `Engine` has the parts: how a step on the machine is taken, how a call finds what it calls, and
  what a function of the language does.  They may live in any monad.
* `Engine.run` puts a `Runner` together from them, for a bound on the depth of recursion.
* `Engine.standard` has the parts of `Action.eval` and `Action.exec`, and its runner is those
  (`Engine.run_standard`).
-/

namespace Boli

/-- What a name in a call stands for. -/
inductive Callee where
  /-- A function that is part of the language. -/
  | builtin (b : Builtin)
  /-- A function of the script. -/
  | function (c : Closure)

/-- The parts of a run that can be exchanged. -/
structure Engine (M : Type → Type) where
  /-- Takes a step on the machine. -/
  step : {α : Type} → Action α → M α
  /-- Finds what a name in a call stands for. -/
  callee : ScopeId → String → Line → M Callee
  /-- Calls a function that is part of the language. -/
  builtin : Builtin → List Value → Line → M Value

/-- A way to run the parts of a program. -/
structure Runner (M : Type → Type) where
  /-- The value of an expression in a scope. -/
  eval : ScopeId → Expr → M Value
  /-- Runs a statement in a scope. -/
  exec : ScopeId → Stmt → M Signal
  /-- Runs a block in a scope as long as a condition holds. -/
  loop : ScopeId → Expr → Block → M Signal
  /-- Runs the body of a function. -/
  call : Closure → List Value → M Value

namespace Engine

variable {M N : Type → Type} [Monad M] [Monad N]

/-- The results of an action on each of some items, in order. -/
def each {α β : Type} (f : α → M β) : List α → M (List β)
  | [] => return []
  | a :: as => do
    let b ← f a
    let bs ← each f as
    return b :: bs

/-- Runs statements in order up to the first one that does not end normally. -/
def sequence (run : Stmt → M Signal) : List Stmt → M Signal
  | [] => return .normal
  | s :: ss => do
    match ← run s with
    | .normal => sequence run ss
    | signal => return signal

/-- The value of an expression that may be missing. -/
def value? (r : Runner M) (scope : ScopeId) : Option Expr → M Value
  | some e => r.eval scope e
  | none => return .null

/-- The value of an expression, given how to run what is inside it. -/
def evalStep (E : Engine M) (coerce : Bool) (r : Runner M) (scope : ScopeId) : Expr → M Value
  | .literal _ v _ => return v.coerced coerce
  | .name line id => E.step (Action.lookup scope id line)
  | .binary line op left right => do
    let v ← r.eval scope left
    let w ← r.eval scope right
    E.step (Action.binary op v w line)
  | .unary line op argument => do
    let v ← r.eval scope argument
    E.step (Action.unary op v line)
  | .call line callee arguments => do
    match ← E.callee scope callee.name line with
    | .builtin b => do
      let args ← each (r.eval scope) arguments
      E.builtin b args line
    | .function closure =>
      if arguments.length = closure.parameters.length then
        let args ← each (r.eval scope) arguments
        r.call closure args
      else
        E.step (Action.fail (.arity callee.name closure.parameters.length arguments.length) line)
  | .index line target position => do
    let v ← r.eval scope target
    E.step (Action.requireIndexable v line)
    let i ← r.eval scope position
    E.step (Action.element v i line)
  | .property line target name => do
    let v ← r.eval scope target
    let type ← E.step (Action.typeOf v)
    E.step (Action.fail (.noProperty name.name type) line)
  | .list _ elements => do
    let vs ← each (r.eval scope) elements
    E.step (Action.newList vs.toArray)
  | .misplaced line form => E.step (Action.fail (.unknownOperation ("expression " ++ form)) line)

/-- Runs a statement, given how to run what is inside it. -/
def execStep (E : Engine M) (r : Runner M) (scope : ScopeId) : Stmt → M Signal
  | .declare _ name initial => do
    let v ← value? r scope initial
    E.step (Action.define scope name v)
    return .normal
  | .assign line name value => do
    let v ← r.eval scope value
    E.step (Action.assign scope name v line)
    return .normal
  | .print _ values => do
    let vs ← each (r.eval scope) values
    let texts ← each (fun v => E.step (Action.display v)) vs
    E.step (Action.write ("".intercalate texts))
    return .normal
  | .block body => sequence (r.exec scope) body.statements
  | .branch _ condition consequent alternate => do
    let v ← r.eval scope condition
    if ← E.step (Action.truth v) then
      r.exec scope consequent
    else
      match alternate with
      | some s => r.exec scope s
      | none => return .normal
  | .loop _ condition body => r.loop scope condition body
  | .function _ name parameters body => do
    let f ← E.step (Action.newFunction ⟨name, parameters, body, scope⟩)
    E.step (Action.define scope name f)
    return .normal
  | .giveBack _ value => do
    let v ← value? r scope value
    return .giveBack v
  | .stop _ => return .stop
  | .skip _ => return .skip
  | .expression _ value => do
    let _ ← r.eval scope value
    return .normal
  | .misplaced line form => E.step (Action.fail (.unknownOperation ("statement " ++ form)) line)

/-- Runs a block as long as a condition holds, given how to go on after the first round. -/
def loopStep (E : Engine M) (r : Runner M) (scope : ScopeId) (condition : Expr) (body : Block) :
    M Signal := do
  let v ← r.eval scope condition
  if ← E.step (Action.truth v) then
    match ← sequence (r.exec scope) body.statements with
    | .stop => return .normal
    | .giveBack v => return .giveBack v
    | _ => r.loop scope condition body
  else
    return .normal

/-- Runs the body of a function, given how to run its statements. -/
def callStep (E : Engine M) (r : Runner M) (closure : Closure) (args : List Value) : M Value := do
  let scope ← E.step (Action.enter closure args)
  let signal ← sequence (r.exec scope) closure.body.statements
  E.step (Action.leave closure signal)

/-- Runs the parts of a program with a bound on the depth of recursion. -/
def run (E : Engine M) (coerce : Bool) : Nat → Runner M
  | 0 =>
    { eval := fun _ _ => E.step (throw .unfinished)
      exec := fun _ _ => E.step (throw .unfinished)
      loop := fun _ _ _ => E.step (throw .unfinished)
      call := fun _ _ => E.step (throw .unfinished) }
  | fuel + 1 =>
    { eval := E.evalStep coerce (E.run coerce fuel)
      exec := E.execStep (E.run coerce fuel)
      loop := E.loopStep (E.run coerce fuel)
      call := E.callStep (E.run coerce fuel) }

/-- Runs the statements of a program in order.  None of them may end with a jump. -/
def topLevel (E : Engine M) (run : Stmt → M Signal) : List Stmt → M Unit
  | [] => return ()
  | s :: ss => do
    match (← run s).jump? with
    | some jump => E.step (Action.fail (.stray jump) s.line)
    | none => E.topLevel run ss

/-! ## The standard parts -/

/-- The functions of the language are found first, and then what the scopes bind. -/
def builtinsFirst (scope : ScopeId) (name : String) (line : Line) : Action Callee :=
  match Builtin.ofName? name with
  | some b => return .builtin b
  | none => do
    let closure ← Action.functionNamed scope name line
    return .function closure

/-- The parts that `Action.eval` and `Action.exec` are made of. -/
def standard : Engine Action where
  step := id
  callee := builtinsFirst
  builtin := Action.builtin

/-- The runner that is made of `Action.eval` and `Action.exec`. -/
def plainRunner (coerce : Bool) (fuel : Nat) : Runner Action where
  eval := Action.eval coerce fuel
  exec := Action.exec coerce fuel
  loop := Action.repeatWhile coerce fuel
  call := Action.callFunction coerce fuel

theorem each_eq {α β : Type} (f : α → Action β) (as : List α) : each f as = Action.each f as := by
  induction as with
  | nil => rfl
  | cons a as ih => rw [each, Action.each, ih]

theorem sequence_eq (run : Stmt → Action Signal) (ss : List Stmt) :
    sequence run ss = Action.sequence run ss := by
  induction ss with
  | nil => rfl
  | cons s ss ih =>
    refine congrArg (run s >>= ·) (funext fun signal => ?_)
    cases signal with
    | normal => exact ih
    | stop | skip | giveBack _ => rfl

/-- One step of an expression is the one of `Action.eval`. -/
theorem evalStep_standard (coerce : Bool) (fuel : Nat) (scope : ScopeId) (e : Expr) :
    standard.evalStep coerce (plainRunner coerce fuel) scope e =
      Action.eval coerce (fuel + 1) scope e := by
  cases e with
  | call line callee args =>
    simp only [evalStep, Action.eval, standard, builtinsFirst, plainRunner, each_eq]
    cases Builtin.ofName? callee.name with
    | some b => rfl
    | none => simp only [bind_assoc, pure_bind, id]
  | list line es =>
    simp only [evalStep, Action.eval, each_eq]
    rfl
  | _ => rfl

/-- One step of a statement is the one of `Action.exec`. -/
theorem execStep_standard (coerce : Bool) (fuel : Nat) (scope : ScopeId) (s : Stmt) :
    standard.execStep (plainRunner coerce fuel) scope s =
      Action.exec coerce (fuel + 1) scope s := by
  cases s with
  | print line es =>
    simp only [execStep, Action.exec, each_eq]
    rfl
  | block b =>
    simp only [execStep, Action.exec, sequence_eq]
    rfl
  | declare line name e => cases e <;> rfl
  | giveBack line e => cases e <;> rfl
  | _ => rfl

/-- One round of a loop is the one of `Action.repeatWhile`. -/
theorem loopStep_standard (coerce : Bool) (fuel : Nat) (scope : ScopeId) (e : Expr) (b : Block) :
    standard.loopStep (plainRunner coerce fuel) scope e b =
      Action.repeatWhile coerce (fuel + 1) scope e b := by
  simp only [loopStep, Action.repeatWhile, sequence_eq]
  rfl

/-- One call is the one of `Action.callFunction`. -/
theorem callStep_standard (coerce : Bool) (fuel : Nat) (c : Closure) (args : List Value) :
    standard.callStep (plainRunner coerce fuel) c args =
      Action.callFunction coerce (fuel + 1) c args := by
  simp only [callStep, Action.callFunction, sequence_eq]
  rfl

theorem topLevel_standard (run : Stmt → Action Signal) (ss : List Stmt) :
    standard.topLevel run ss = Action.topLevel run ss := by
  induction ss with
  | nil => rfl
  | cons s ss ih =>
    refine congrArg (run s >>= ·) (funext fun signal => ?_)
    cases signal with
    | normal => exact ih
    | stop | skip | giveBack _ => rfl

/-- The standard parts run a program as `Action.eval` and `Action.exec` do. -/
theorem run_standard (coerce : Bool) (fuel : Nat) :
    standard.run coerce fuel = plainRunner coerce fuel := by
  induction fuel with
  | zero => rfl
  | succ fuel ih =>
    rw [run, ih, plainRunner]
    congr
    · funext scope e
      exact evalStep_standard coerce fuel scope e
    · funext scope s
      exact execStep_standard coerce fuel scope s
    · funext scope e b
      exact loopStep_standard coerce fuel scope e b
    · funext c args
      exact callStep_standard coerce fuel c args

end Engine

end Boli
