import Boli.Syntax.Basic

/-!
# Trees up to lines

Two trees are alike when they differ at most in the lines of their nodes.  Constants are compared as
numbers where both are numbers or booleans.
-/

namespace Boli

/-- The constants are equal. -/
def Value.isAlike : Value → Value → Bool
  | .null, .null => true
  | .text s, .text t => s == t
  | v, w =>
    match v.numeric?, w.numeric? with
    | some x, some y => x == y
    | _, _ => v.isSameObject w

mutual

/-- The expressions are equal up to lines. -/
def Expr.isAlike : Expr → Expr → Bool
  | .literal _ v raw, .literal _ v' raw' => v.isAlike v' && raw == raw'
  | .name _ id, .name _ id' => id == id'
  | .binary _ op l r, .binary _ op' l' r' => op == op' && l.isAlike l' && r.isAlike r'
  | .unary _ op e, .unary _ op' e' => op == op' && e.isAlike e'
  | .call _ callee args, .call _ callee' args' =>
    callee.name == callee'.name && Expr.areAlike args args'
  | .index _ e i, .index _ e' i' => e.isAlike e' && i.isAlike i'
  | .property _ e p, .property _ e' p' => e.isAlike e' && p.name == p'.name
  | .list _ es, .list _ es' => Expr.areAlike es es'
  | .misplaced _ form, .misplaced _ form' => form == form'
  | _, _ => false
termination_by structural e => e

/-- The sequences of expressions are equal up to lines. -/
def Expr.areAlike : List Expr → List Expr → Bool
  | [], [] => true
  | e :: es, e' :: es' => e.isAlike e' && Expr.areAlike es es'
  | _, _ => false
termination_by structural es => es

end

/-- Both expressions are missing, or they are equal up to lines. -/
def Expr.isAlike? : Option Expr → Option Expr → Bool
  | none, none => true
  | some e, some e' => e.isAlike e'
  | _, _ => false

mutual

/-- The statements are equal up to lines. -/
def Stmt.isAlike : Stmt → Stmt → Bool
  | .declare _ name e, .declare _ name' e' => name == name' && Expr.isAlike? e e'
  | .assign _ name e, .assign _ name' e' => name == name' && e.isAlike e'
  | .print _ es, .print _ es' => Expr.areAlike es es'
  | .block b, .block b' => b.isAlike b'
  | .branch _ e s alt, .branch _ e' s' alt' =>
    e.isAlike e' && s.isAlike s' && Stmt.isAlike? alt alt'
  | .loop _ e b, .loop _ e' b' => e.isAlike e' && b.isAlike b'
  | .function _ name params b, .function _ name' params' b' =>
    name == name' && params == params' && b.isAlike b'
  | .giveBack _ e, .giveBack _ e' => Expr.isAlike? e e'
  | .stop _, .stop _ => true
  | .skip _, .skip _ => true
  | .expression _ e, .expression _ e' => e.isAlike e'
  | .misplaced _ form, .misplaced _ form' => form == form'
  | _, _ => false
termination_by structural s => s

/-- The sequences of statements are equal up to lines. -/
def Stmt.areAlike : List Stmt → List Stmt → Bool
  | [], [] => true
  | s :: ss, s' :: ss' => s.isAlike s' && Stmt.areAlike ss ss'
  | _, _ => false
termination_by structural ss => ss

/-- Both statements are missing, or they are equal up to lines. -/
def Stmt.isAlike? : Option Stmt → Option Stmt → Bool
  | none, none => true
  | some s, some s' => s.isAlike s'
  | _, _ => false
termination_by structural s => s

/-- The blocks are equal up to lines. -/
def Block.isAlike : Block → Block → Bool
  | .mk _ ss, .mk _ ss' => Stmt.areAlike ss ss'
termination_by structural b => b

end

end Boli
