import Boli.Value.Basic

/-!
# Programs

The trees of the language: expressions, statements, blocks and programs.  Every node carries the
line it starts on, which only serves messages.

A tree built by hand may hold a statement where an expression belongs, or the other way round, or
nothing at all.  Such a node is `misplaced`.  It has no meaning, and running it is an error that
tells its form and its line, so nothing else is kept of it.
-/

namespace Boli

/-- An operator of an expression. -/
inductive Op where
  | add | sub | mul | div | mod
  | eq | ne | gt | lt | ge | le
  | and | or | not
  /-- A symbol that is no operator. -/
  | other (symbol : String)
deriving DecidableEq, Repr

namespace Op

/-- The operators. -/
def all : List Op :=
  [add, sub, mul, div, mod, eq, ne, gt, lt, ge, le, and, or, not]

/-- The symbol of an operator. -/
def symbol : Op → String
  | add => "+"
  | sub => "-"
  | mul => "*"
  | div => "/"
  | mod => "%"
  | eq => "=="
  | ne => "!="
  | gt => ">"
  | lt => "<"
  | ge => ">="
  | le => "<="
  | and => "ani"
  | or => "kimva"
  | not => "nahi"
  | other symbol => symbol

/-- The operator with a given symbol. -/
def ofSymbol (symbol : String) : Op :=
  (all.find? fun op => op.symbol == symbol).getD (other symbol)

/-- An operator is written as the symbol that it was made from. -/
theorem symbol_ofSymbol (symbol : String) : (ofSymbol symbol).symbol = symbol := by
  rw [ofSymbol]
  cases h : all.find? fun op => op.symbol == symbol with
  | none => rfl
  | some op =>
    have hop := List.find?_some h
    simpa only [beq_iff_eq, Option.getD_some] using hop

end Op

/-- The line a node starts on, if it is known. -/
abbrev Line := Option Int

/-- A name and the line it stands on. -/
structure Ident where
  /-- The line. -/
  line : Line
  /-- The name. -/
  name : String
deriving DecidableEq, Repr

/-- An expression. -/
inductive Expr where
  /-- A constant value and its spelling. -/
  | literal (line : Line) (value : Value) (raw : String)
  /-- The value of a variable. -/
  | name (line : Line) (id : String)
  /-- An operator between two operands. -/
  | binary (line : Line) (op : Op) (left right : Expr)
  /-- An operator in front of its operand. -/
  | unary (line : Line) (op : Op) (argument : Expr)
  /-- A call of a named function. -/
  | call (line : Line) (callee : Ident) (arguments : List Expr)
  /-- An element of a list or a character of a text. -/
  | index (line : Line) (target position : Expr)
  /-- A named property. -/
  | property (line : Line) (target : Expr) (name : Ident)
  /-- A new list. -/
  | list (line : Line) (elements : List Expr)
  /-- Something else where an expression belongs. -/
  | misplaced (line : Line) (form : String)

mutual

/-- A statement. -/
inductive Stmt where
  /-- A new variable, null without an initial value. -/
  | declare (line : Line) (name : String) (initial : Option Expr)
  /-- A new value for a variable. -/
  | assign (line : Line) (name : String) (value : Expr)
  /-- Values printed side by side. -/
  | print (line : Line) (values : List Expr)
  /-- Statements in sequence. -/
  | block (body : Block)
  /-- A choice between two statements, the second of which may be missing. -/
  | branch (line : Line) (condition : Expr) (consequent : Stmt) (alternate : Option Stmt)
  /-- A loop while a condition holds. -/
  | loop (line : Line) (condition : Expr) (body : Block)
  /-- A new function. -/
  | function (line : Line) (name : String) (parameters : List String) (body : Block)
  /-- The end of a call, with its value. -/
  | giveBack (line : Line) (value : Option Expr)
  /-- The end of a loop. -/
  | stop (line : Line)
  /-- The end of one round of a loop. -/
  | skip (line : Line)
  /-- An expression for its effects. -/
  | expression (line : Line) (value : Expr)
  /-- Something else where a statement belongs. -/
  | misplaced (line : Line) (form : String)

/-- A sequence of statements with the line it starts on. -/
inductive Block where
  /-- The line and the statements. -/
  | mk (line : Line) (statements : List Stmt)

end

instance : Inhabited Expr := ⟨.list none []⟩

instance : Inhabited Stmt := ⟨.stop none⟩

instance : Inhabited Block := ⟨.mk none []⟩

namespace Block

/-- The line a block starts on. -/
def line : Block → Line
  | mk line _ => line

/-- The statements of a block. -/
def statements : Block → List Stmt
  | mk _ statements => statements

end Block

/-- A whole program is the block between its markers. -/
abbrev Program := Block

/-- The line a statement starts on. -/
def Stmt.line : Stmt → Line
  | .declare line .. | .assign line .. | .print line .. | .branch line .. | .loop line ..
  | .function line .. | .giveBack line _ | .stop line | .skip line | .expression line _
  | .misplaced line _ => line
  | .block body => body.line

/-- The functions that are part of the language. -/
inductive Builtin where
  | input | print | list | append | length
deriving DecidableEq, Repr

namespace Builtin

/-- The name a function is called by. -/
def name : Builtin → String
  | input => "ghye"
  | print => "dakhava"
  | list => "yadi"
  | append => "jod"
  | length => "moj"

/-- The function with a given name. -/
def ofName? (name : String) : Option Builtin :=
  [input, print, list, append, length].find? fun b => b.name == name

theorem ofName?_name (b : Builtin) : ofName? b.name = some b := by
  cases b <;> decide

end Builtin

end Boli
