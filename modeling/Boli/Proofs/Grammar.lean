import Mathlib
import Boli.Syntax.Statement

/-!
# The grammar of programs

Which tokens a program is made of, without a word on how to read them.

Expressions come in nine *ranks*, from the loosest to the tightest: six levels of binary operators,
signs, accessors and primaries.  The operands of a level have the next tighter rank, except that the
left operand may have the rank of the level itself.  So the operators of a level join from the left.

* `Derives` says that some tokens are an expression of a rank, or expressions between commas.
* `Builds` says that some tokens are a statement, statements in sequence, a block, or what follows
  the keyword of a choice.
* `IsProgram` says that some tokens are a whole program.

Each relation also fixes the tree, with the line of every node.  A line is that of the keyword, of
the operator, of the opening bracket or of the first token.

Of the print keyword there are two readings, as a statement and as a call.  A call that stands at
the beginning of a statement has no argument or two at least, and the only thing that the grammar
says about it is just that (`Opens`).
-/

namespace Boli

/-- The ranks of expressions. -/
inductive Rank where
  /-- Operands joined by the operators of a level. -/
  | binary (level : Level)
  /-- Signs in front of an operand. -/
  | sign
  /-- Accessors behind a primary. -/
  | accessor
  /-- A constant, a name, a call, a list, or anything in parentheses. -/
  | primary
deriving DecidableEq, Repr

namespace Level

/-- The rank of the operands of a level. -/
def operand : Level → Rank
  | disjunction => .binary conjunction
  | conjunction => .binary equality
  | equality => .binary relation
  | relation => .binary sum
  | sum => .binary product
  | product => .sign

/-- The operators of a level, each with the token that writes it. -/
def operators : Level → List (Kind × Op)
  | disjunction => [(.keyword .or, .or)]
  | conjunction => [(.keyword .and, .and)]
  | equality =>
    [(.symbol .equal, .eq), (.keyword .equal, .eq), (.symbol .notEqual, .ne)]
  | relation =>
    [(.symbol .greater, .gt), (.keyword .greater, .gt), (.symbol .greaterEqual, .ge),
      (.symbol .less, .lt), (.keyword .less, .lt), (.symbol .lessEqual, .le)]
  | sum => [(.symbol .plus, .add), (.symbol .minus, .sub)]
  | product => [(.symbol .times, .mul), (.symbol .divide, .div), (.symbol .modulo, .mod)]

end Level

namespace Rank

/-- The rank of a whole expression. -/
def loosest : Rank := .binary .disjunction

end Rank

namespace Grammar

/-- The signs, each with the token that writes it. -/
def signs : List (Kind × Op) :=
  [(.symbol .minus, .sub), (.keyword .not, .not)]

/-- The constants, each with the token that writes it. -/
def constants : List (Kind × Value) :=
  [(.keyword .yes, .boolean true), (.keyword .no, .boolean false), (.keyword .nothing, .null)]

/-- The functions of the language, each with the token that writes it. -/
def builtins : List (Kind × Builtin) :=
  [(.keyword .input, .input), (.keyword .print, .print), (.keyword .list, .list),
    (.keyword .append, .append), (.keyword .length, .length)]

/-! ## Expressions -/

/-- What some tokens inside an expression stand for. -/
inductive Phrase where
  /-- An expression of a rank. -/
  | expr (rank : Rank) (e : Expr)
  /-- One expression or more, with commas between them. -/
  | exprs (es : List Expr)
  /-- Nothing, or expressions with commas between them. -/
  | items (es : List Expr)

/-- The tokens are a phrase. -/
inductive Derives : Phrase → List Token → Prop where
  /-- An operand of a level. -/
  | operand :
    Derives (.expr level.operand e) ts →
    Derives (.expr (.binary level) e) ts
  /-- An operator of a level between its operands. -/
  | binary :
    Derives (.expr (.binary level) l) ls →
    (t.kind, op) ∈ level.operators →
    Derives (.expr level.operand r) rs →
    Derives (.expr (.binary level) (.binary (some t.line) op l r)) (ls ++ t :: rs)
  /-- An operand without a sign. -/
  | unsigned :
    Derives (.expr .accessor e) ts →
    Derives (.expr .sign e) ts
  /-- A sign in front of an operand. -/
  | signed :
    (t.kind, op) ∈ signs →
    Derives (.expr .sign e) ts →
    Derives (.expr .sign (.unary (some t.line) op e)) (t :: ts)
  /-- A primary without an accessor. -/
  | plain :
    Derives (.expr .primary e) ts →
    Derives (.expr .accessor e) ts
  /-- An index in brackets. -/
  | index :
    Derives (.expr .accessor e) ts →
    t.kind = .symbol .openBracket →
    Derives (.expr .loosest i) is →
    u.kind = .symbol .closeBracket →
    Derives (.expr .accessor (.index (some t.line) e i)) (ts ++ t :: (is ++ [u]))
  /-- A property behind a dot. -/
  | property :
    Derives (.expr .accessor e) ts →
    t.kind = .symbol .dot →
    n.kind = .identifier →
    Derives (.expr .accessor (.property (some t.line) e ⟨some n.line, n.value⟩)) (ts ++ [t, n])
  /-- A constant word. -/
  | constant :
    (t.kind, v) ∈ constants →
    Derives (.expr .primary (.literal (some t.line) v t.value)) [t]
  /-- A number. -/
  | number :
    t.kind = .number →
    Numeral.ofLexeme? t.value = some x →
    Derives (.expr .primary (.literal (some t.line) (.number x) t.value)) [t]
  /-- A quoted text. -/
  | text :
    t.kind = .text →
    Derives (.expr .primary (.literal (some t.line) (.text t.value) t.value)) [t]
  /-- A variable. -/
  | name :
    t.kind = .identifier →
    Derives (.expr .primary (.name (some t.line) t.value)) [t]
  /-- A call of a function by its name. -/
  | call :
    t.kind = .identifier →
    o.kind = .symbol .openParen →
    Derives (.items args) ts →
    u.kind = .symbol .closeParen →
    Derives (.expr .primary (.call (some t.line) ⟨some t.line, t.value⟩ args))
      (t :: o :: (ts ++ [u]))
  /-- A call of a function of the language. -/
  | builtin :
    (t.kind, b) ∈ builtins →
    o.kind = .symbol .openParen →
    Derives (.items args) ts →
    u.kind = .symbol .closeParen →
    Derives (.expr .primary (.call (some t.line) ⟨some t.line, b.name⟩ args))
      (t :: o :: (ts ++ [u]))
  /-- A list in brackets. -/
  | list :
    t.kind = .symbol .openBracket →
    Derives (.items es) ts →
    u.kind = .symbol .closeBracket →
    Derives (.expr .primary (.list (some t.line) es)) (t :: (ts ++ [u]))
  /-- An expression in parentheses. -/
  | group :
    t.kind = .symbol .openParen →
    Derives (.expr .loosest e) ts →
    u.kind = .symbol .closeParen →
    Derives (.expr .primary e) (t :: (ts ++ [u]))
  /-- A single expression. -/
  | one :
    Derives (.expr .loosest e) ts →
    Derives (.exprs [e]) ts
  /-- An expression and more of them behind a comma. -/
  | more :
    Derives (.expr .loosest e) ts →
    t.kind = .symbol .comma →
    Derives (.exprs es) us →
    Derives (.exprs (e :: es)) (ts ++ t :: us)
  /-- No expression. -/
  | nothing :
    Derives (.items []) []
  /-- Some expressions. -/
  | something :
    Derives (.exprs es) ts →
    Derives (.items es) ts

/-- The expression whose tokens come first, unless a parenthesis stands in front of them. -/
def leading : Expr → Expr
  | .binary _ _ l _ => leading l
  | .index _ e _ => leading e
  | .property _ e _ => leading e
  | e => e
termination_by structural e => e

/-- An expression whose first token is of the kind may stand for its effects.  It starts with a name
or with a function of the language.  The print function there does not take exactly one argument. -/
def Opens (k : Kind) (e : Expr) : Prop :=
  (k = .identifier ∨ ∃ b, (k, b) ∈ builtins) ∧
    ∀ line callee args, k = .keyword .print → leading e = .call line callee args → args.length ≠ 1

/-! ## Statements -/

/-- The tokens are names with commas between them. -/
inductive Names : List String → List Token → Prop where
  /-- A single name. -/
  | one :
    n.kind = .identifier →
    Names [n.value] [n]
  /-- A name and more of them behind a comma. -/
  | more :
    n.kind = .identifier →
    t.kind = .symbol .comma →
    Names ns ts →
    Names (n.value :: ns) (n :: t :: ts)

/-- What some tokens outside an expression stand for. -/
inductive Form where
  /-- A statement. -/
  | stmt (s : Stmt)
  /-- Statements in sequence. -/
  | stmts (ss : List Stmt)
  /-- Statements in braces. -/
  | block (b : Block)
  /-- A condition in parentheses and the block that it guards. -/
  | guarded (condition : Expr) (b : Block)
  /-- The part of a choice that follows its keyword. -/
  | choice (keyword : Token) (s : Stmt)

/-- The tokens are a form. -/
inductive Builds : Form → List Token → Prop where
  /-- A variable without a value. -/
  | declare :
    t.kind = .keyword .declare →
    n.kind = .identifier →
    u.kind = .symbol .semicolon →
    Builds (.stmt (.declare (some t.line) n.value none)) [t, n, u]
  /-- A variable with a value. -/
  | declareAs :
    t.kind = .keyword .declare →
    n.kind = .identifier →
    a.kind = .symbol .assign →
    Derives (.expr .loosest e) ts →
    u.kind = .symbol .semicolon →
    Builds (.stmt (.declare (some t.line) n.value (some e))) (t :: n :: a :: (ts ++ [u]))
  /-- A new value for a variable. -/
  | assign :
    n.kind = .identifier →
    a.kind = .symbol .assign →
    Derives (.expr .loosest e) ts →
    u.kind = .symbol .semicolon →
    Builds (.stmt (.assign (some n.line) n.value e)) (n :: a :: (ts ++ [u]))
  /-- Values to print. -/
  | print :
    t.kind = .keyword .print →
    Derives (.exprs es) ts →
    u.kind = .symbol .semicolon →
    Builds (.stmt (.print (some t.line) es)) (t :: (ts ++ [u]))
  /-- A choice. -/
  | branch :
    t.kind = .keyword .when →
    Builds (.choice t s) ts →
    Builds (.stmt s) (t :: ts)
  /-- A loop. -/
  | loop :
    t.kind = .keyword .loop →
    Builds (.guarded e b) ts →
    Builds (.stmt (.loop (some t.line) e b)) (t :: ts)
  /-- A function without parameters. -/
  | function :
    t.kind = .keyword .function →
    n.kind = .identifier →
    o.kind = .symbol .openParen →
    u.kind = .symbol .closeParen →
    Builds (.block b) ts →
    Builds (.stmt (.function (some t.line) n.value [] b)) (t :: n :: o :: u :: ts)
  /-- A function with parameters, all of them different. -/
  | functionOf :
    t.kind = .keyword .function →
    n.kind = .identifier →
    o.kind = .symbol .openParen →
    Names ns ps →
    ns.Nodup →
    u.kind = .symbol .closeParen →
    Builds (.block b) ts →
    Builds (.stmt (.function (some t.line) n.value ns b)) (t :: n :: o :: (ps ++ u :: ts))
  /-- The end of a call. -/
  | giveBack :
    t.kind = .keyword .giveBack →
    u.kind = .symbol .semicolon →
    Builds (.stmt (.giveBack (some t.line) none)) [t, u]
  /-- The end of a call with a value. -/
  | giveBackOf :
    t.kind = .keyword .giveBack →
    Derives (.expr .loosest e) ts →
    u.kind = .symbol .semicolon →
    Builds (.stmt (.giveBack (some t.line) (some e))) (t :: (ts ++ [u]))
  /-- The end of a loop. -/
  | stop :
    t.kind = .keyword .stop →
    u.kind = .symbol .semicolon →
    Builds (.stmt (.stop (some t.line))) [t, u]
  /-- The end of one round of a loop. -/
  | skip :
    t.kind = .keyword .skip →
    u.kind = .symbol .semicolon →
    Builds (.stmt (.skip (some t.line))) [t, u]
  /-- A block. -/
  | block :
    Builds (.block b) ts →
    Builds (.stmt (.block b)) ts
  /-- An expression for its effects. -/
  | expression :
    Derives (.expr .loosest e) (t :: ts) →
    Opens t.kind e →
    u.kind = .symbol .semicolon →
    Builds (.stmt (.expression (some t.line) e)) (t :: (ts ++ [u]))
  /-- No statement. -/
  | none :
    Builds (.stmts []) []
  /-- A statement and those behind it. -/
  | more :
    Builds (.stmt s) ts →
    Builds (.stmts ss) us →
    Builds (.stmts (s :: ss)) (ts ++ us)
  /-- Statements in braces. -/
  | braces :
    t.kind = .symbol .openBrace →
    Builds (.stmts ss) ts →
    u.kind = .symbol .closeBrace →
    Builds (.block (.mk (some t.line) ss)) (t :: (ts ++ [u]))
  /-- A condition in parentheses and its block. -/
  | guard :
    o.kind = .symbol .openParen →
    Derives (.expr .loosest e) ts →
    u.kind = .symbol .closeParen →
    Builds (.block b) us →
    Builds (.guarded e b) (o :: (ts ++ u :: us))
  /-- A choice without an alternative. -/
  | alone :
    Builds (.guarded e b) ts →
    Builds (.choice k (.branch (some k.line) e (.block b) none)) ts
  /-- A choice with another one as its alternative, joined by one keyword. -/
  | otherwiseWhen :
    Builds (.guarded e b) ts →
    t.kind = .keyword .otherwiseWhen →
    Builds (.choice t s) us →
    Builds (.choice k (.branch (some k.line) e (.block b) (some s))) (ts ++ t :: us)
  /-- A choice with another one as its alternative, joined by two keywords. -/
  | otherwiseBranch :
    Builds (.guarded e b) ts →
    t.kind = .keyword .otherwise →
    w.kind = .keyword .when →
    Builds (.choice w s) us →
    Builds (.choice k (.branch (some k.line) e (.block b) (some s))) (ts ++ t :: w :: us)
  /-- A choice with a block as its alternative. -/
  | otherwiseBlock :
    Builds (.guarded e b) ts →
    t.kind = .keyword .otherwise →
    Builds (.block a) us →
    Builds (.choice k (.branch (some k.line) e (.block b) (some (.block a)))) (ts ++ t :: us)

/-- The tokens are a whole program between its markers. -/
inductive IsProgram : Program → List Token → Prop where
  /-- The opening marker, the statements, the closing marker and the end of the text. -/
  | mk :
    t.kind = .start →
    u.kind = .symbol .semicolon →
    Builds (.stmts ss) ts →
    f.kind = .finish →
    w.kind = .symbol .semicolon →
    z.kind = .eof →
    IsProgram (.mk (some t.line) ss) (t :: u :: (ts ++ [f, w, z]))

end Grammar

end Boli
