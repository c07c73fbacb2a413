import Boli.Syntax.Basic
import Boli.Number.Numeral
import Boli.Text.Quoted

/-!
# Listings of trees

The listing of a tree shows every node with the name of its form, its line and its fields, all on
one line.  It serves to inspect what was read.
-/

namespace Boli

namespace Listing

/-- A sequence in parentheses.  A single item keeps its comma. -/
def tuple : List String → String
  | [] => "()"
  | [item] => "(" ++ item ++ ",)"
  | items => "(" ++ ", ".intercalate items ++ ")"

/-- The line of a node. -/
def line : Line → String
  | none => "None"
  | some n => toString n

/-- A node with its line and its named fields. -/
def node (form : String) (place : Line) (fields : List (String × String)) : String :=
  let shown := ("line", line place) :: fields
  form ++ "(" ++ ", ".intercalate (shown.map fun (name, text) => name ++ "=" ++ text) ++ ")"

/-- The name of an operator. -/
def opName : Op → String
  | .add => "ADD"
  | .sub => "SUB"
  | .mul => "MUL"
  | .div => "DIV"
  | .mod => "MOD"
  | .eq => "EQ"
  | .ne => "NE"
  | .gt => "GT"
  | .lt => "LT"
  | .ge => "GE"
  | .le => "LE"
  | .and => "AND"
  | .or => "OR"
  | .not => "NOT"
  | .other symbol => symbol

/-- An operator with its name and its symbol. -/
def op (o : Op) : String :=
  match o with
  | .other symbol => Text.quoted symbol
  | o => "<Op." ++ opName o ++ ": " ++ Text.quoted o.symbol ++ ">"

/-- A truth value. -/
def flag (b : Bool) : String :=
  if b then "True" else "False"

/-- The value of a constant.  A list or a function is only hinted at, since its parts are in the
store. -/
def value : Value → String
  | .null => "None"
  | .boolean b => flag b
  | .number x => Numeral.written x
  | .text s => Text.quoted s
  | .list _ => "[...]"
  | .function _ => "<kaamKar>"
  | .foreign _ => "\x7b\x7d"

/-- A name as a node. -/
def ident (i : Ident) : String :=
  node "Identifier" i.line [("name", Text.quoted i.name)]

end Listing

open Listing

mutual

/-- The listing of an expression. -/
def Expr.listing : Expr → String
  | .literal line v raw =>
    node "Literal" line [("value", value v), ("raw", Text.quoted raw)]
  | .name line id => node "Identifier" line [("name", Text.quoted id)]
  | .binary line o left right =>
    node "BinaryExpression" line
      [("left", left.listing), ("operator", op o), ("right", right.listing)]
  | .unary line o argument =>
    node "UnaryExpression" line [("operator", op o), ("argument", argument.listing)]
  | .call line callee arguments =>
    node "CallExpression" line
      [("callee", ident callee), ("arguments", tuple (Expr.listings arguments))]
  | .index line target position =>
    node "MemberExpression" line
      [("object", target.listing), ("property", position.listing), ("computed", flag true)]
  | .property line target field =>
    node "MemberExpression" line
      [("object", target.listing), ("property", ident field), ("computed", flag false)]
  | .list line elements =>
    node "ListExpression" line [("elements", tuple (Expr.listings elements))]
  | .misplaced line form => node form line []
termination_by structural e => e

/-- The listings of some expressions. -/
def Expr.listings : List Expr → List String
  | [] => []
  | e :: es => e.listing :: Expr.listings es
termination_by structural es => es

end

/-- The listing of an expression that may be missing. -/
def Expr.listing? : Option Expr → String
  | none => "None"
  | some e => e.listing

mutual

/-- The listing of a statement. -/
def Stmt.listing : Stmt → String
  | .declare line name initial =>
    node "VarDeclaration" line
      [("name", Text.quoted name), ("initializer", Expr.listing? initial)]
  | .assign line name v =>
    node "Assignment" line [("identifier", Text.quoted name), ("value", v.listing)]
  | .print line values =>
    node "PrintStatement" line [("expressions", tuple (Expr.listings values))]
  | .block body => body.listing "BlockStatement"
  | .branch line condition consequent alternate =>
    node "IfStatement" line
      [("condition", condition.listing), ("consequent", consequent.listing),
        ("alternate", Stmt.listing? alternate)]
  | .loop line condition body =>
    node "WhileStatement" line
      [("condition", condition.listing), ("body", body.listing "BlockStatement")]
  | .function line name parameters body =>
    node "FunctionDeclaration" line
      [("name", Text.quoted name), ("parameters", tuple (parameters.map Text.quoted)),
        ("body", body.listing "BlockStatement")]
  | .giveBack line v => node "ReturnStatement" line [("value", Expr.listing? v)]
  | .stop line => node "BreakStatement" line []
  | .skip line => node "ContinueStatement" line []
  | .expression line v => node "ExpressionStatement" line [("expression", v.listing)]
  | .misplaced line form => node form line []
termination_by structural s => s

/-- The listings of some statements. -/
def Stmt.listings : List Stmt → List String
  | [] => []
  | s :: ss => s.listing :: Stmt.listings ss
termination_by structural ss => ss

/-- The listing of a statement that may be missing. -/
def Stmt.listing? : Option Stmt → String
  | none => "None"
  | some s => s.listing
termination_by structural s => s

/-- The listing of a block under the name of its form. -/
def Block.listing : Block → String → String
  | .mk line statements, form => node form line [("body", tuple (Stmt.listings statements))]
termination_by structural b => b

end

/-- The listing of a whole program. -/
def Program.listing (p : Program) : String :=
  Block.listing p "Program"

end Boli
