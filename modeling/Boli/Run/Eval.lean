import Boli.Run.Operator

/-!
# Running

Expressions are evaluated and statements executed in a scope.  A block runs in the scope around it,
and only a call opens a new scope, inside the one where the function was defined.

Programs need not end, so every definition carries a bound on the depth of the recursion and stops
unfinished when it is reached.  A larger bound never changes the result of a run that ended.

* `eval` is the value of an expression.
* `exec` runs a statement.  Its `Signal` tells whether control goes on to the next statement.
* `callFunction` runs the body of a function.

Constants may be coerced: then a numeric text in a program is a number.
-/

namespace Boli

/-- How a statement ended. -/
inductive Signal where
  /-- Control goes on. -/
  | normal
  /-- The loop is over. -/
  | stop
  /-- The round of the loop is over. -/
  | skip
  /-- The call is over, with a value. -/
  | giveBack (value : Value)
deriving Repr, Inhabited

namespace Signal

/-- The jump that a signal asks for. -/
def jump? : Signal → Option Jump
  | normal => none
  | stop => some .stop
  | skip => some .skip
  | giveBack _ => some .giveBack

end Signal

namespace Action

/-- Runs statements in order up to the first one that does not end normally. -/
def sequence (run : Stmt → Action Signal) : List Stmt → Action Signal
  | [] => return .normal
  | s :: ss => do
    match ← run s with
    | .normal => sequence run ss
    | signal => return signal

/-- The function that a name stands for in a call. -/
def functionNamed (scope : ScopeId) (name : String) (line : Line) : Action Closure := do
  let store := (← get).store
  match store.lookup? scope name with
  | some (.function id) =>
    match store.closure? id with
    | some closure => return closure
    | none => fail (.unknownFunction name) line
  | _ => fail (.unknownFunction name) line

/-- Opens the scope of a call and binds the parameters in it.  Arguments without a parameter are
dropped, and parameters without an argument stay unbound. -/
def enter (closure : Closure) (args : List Value) : Action ScopeId := do
  let scope ← newScope closure.scope
  modifyStore (·.defineAll scope (closure.parameters.zip args))
  record (.calling closure.name args.length)
  return scope

/-- The value of a call whose body ended with a signal. -/
def leave (closure : Closure) : Signal → Action Value
  | .normal => return .null
  | .giveBack v => return v
  | .stop => fail (.strayInFunction .stop closure.name) none
  | .skip => fail (.strayInFunction .skip closure.name) none

mutual

/-- The value of an expression. -/
def eval (coerce : Bool) (fuel : Nat) (scope : ScopeId) (e : Expr) : Action Value :=
  match fuel with
  | 0 => throw .unfinished
  | fuel + 1 =>
    match e with
    | .literal _ v _ => return v.coerced coerce
    | .name line id => lookup scope id line
    | .binary line op left right => do
      let l ← eval coerce fuel scope left
      let r ← eval coerce fuel scope right
      binary op l r line
    | .unary line op argument => do
      let v ← eval coerce fuel scope argument
      unary op v line
    | .call line callee arguments =>
      match Builtin.ofName? callee.name with
      | some b => do
        let args ← each (eval coerce fuel scope) arguments
        builtin b args line
      | none => do
        let closure ← functionNamed scope callee.name line
        if arguments.length = closure.parameters.length then
          let args ← each (eval coerce fuel scope) arguments
          callFunction coerce fuel closure args
        else
          fail (.arity callee.name closure.parameters.length arguments.length) line
    | .index line target position => do
      let v ← eval coerce fuel scope target
      requireIndexable v line
      let i ← eval coerce fuel scope position
      element v i line
    | .property line target name => do
      let v ← eval coerce fuel scope target
      fail (.noProperty name.name (← typeOf v)) line
    | .list _ elements => do
      let vs ← each (eval coerce fuel scope) elements
      newList vs.toArray
    | .misplaced line form => fail (.unknownOperation ("expression " ++ form)) line
termination_by structural fuel

/-- Runs a statement. -/
def exec (coerce : Bool) (fuel : Nat) (scope : ScopeId) (s : Stmt) : Action Signal :=
  match fuel with
  | 0 => throw .unfinished
  | fuel + 1 =>
    match s with
    | .declare _ name initial => do
      let v ←
        match initial with
        | some e => eval coerce fuel scope e
        | none => pure .null
      define scope name v
      return .normal
    | .assign line name value => do
      let v ← eval coerce fuel scope value
      assign scope name v line
      return .normal
    | .print _ values => do
      let vs ← each (eval coerce fuel scope) values
      let texts ← each display vs
      write ("".intercalate texts)
      return .normal
    | .block body => sequence (exec coerce fuel scope) body.statements
    | .branch _ condition consequent alternate => do
      let v ← eval coerce fuel scope condition
      if ← truth v then
        exec coerce fuel scope consequent
      else
        match alternate with
        | some s => exec coerce fuel scope s
        | none => return .normal
    | .loop _ condition body => repeatWhile coerce fuel scope condition body
    | .function _ name parameters body => do
      let f ← newFunction ⟨name, parameters, body, scope⟩
      define scope name f
      return .normal
    | .giveBack _ value => do
      let v ←
        match value with
        | some e => eval coerce fuel scope e
        | none => pure .null
      return .giveBack v
    | .stop _ => return .stop
    | .skip _ => return .skip
    | .expression _ value => do
      let _ ← eval coerce fuel scope value
      return .normal
    | .misplaced line form => fail (.unknownOperation ("statement " ++ form)) line
termination_by structural fuel

/-- Runs a block as long as a condition holds. -/
def repeatWhile (coerce : Bool) (fuel : Nat) (scope : ScopeId) (condition : Expr) (body : Block) :
    Action Signal :=
  match fuel with
  | 0 => throw .unfinished
  | fuel + 1 => do
    let v ← eval coerce fuel scope condition
    if ← truth v then
      match ← sequence (exec coerce fuel scope) body.statements with
      | .stop => return .normal
      | .giveBack v => return .giveBack v
      | _ => repeatWhile coerce fuel scope condition body
    else
      return .normal
termination_by structural fuel

/-- Runs the body of a function. -/
def callFunction (coerce : Bool) (fuel : Nat) (closure : Closure) (args : List Value) :
    Action Value :=
  match fuel with
  | 0 => throw .unfinished
  | fuel + 1 => do
    let scope ← enter closure args
    let signal ← sequence (exec coerce fuel scope) closure.body.statements
    leave closure signal
termination_by structural fuel

end

end Action

end Boli
