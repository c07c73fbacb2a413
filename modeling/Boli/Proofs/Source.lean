import Boli.Proofs.ExpressionCompleteness
import Boli.Proofs.Lexemes
import Boli.Proofs.Trees

/-!
# The source text of a tree

Every program can be written down.  `Expr.words` and `Stmt.words` give the words of a tree, with
parentheses exactly where the rank of an operand is looser than its place asks for.
`Program.source` is the text of a program, with one space between the words.

A tree that was read is well formed (`Program.WellFormed`): its names are names, its constants carry
their spelling, and its operators and branches are those of the grammar.  Trees built by hand may
violate all of that.
-/

namespace Boli

open Grammar

/-! ## Words -/

/-- A token without a place. -/
structure Word where
  kind : Kind
  value : String
deriving DecidableEq, Repr

def Token.word (t : Token) : Word := ⟨t.kind, t.value⟩

namespace Word

def symbol (sign : Symbol) : Word := ⟨.symbol sign, sign.spelling⟩

def keyword (word : Keyword) : Word := ⟨.keyword word, word.spelling⟩

/-- A word of letters, which may be a keyword. -/
def spelled (name : String) : Word := ⟨Lexeme.wordKind name.toList, name⟩

/-- What stands for a character inside quotes. -/
def escape (c : Char) : List Char :=
  if c = '"' ∨ c = '\\' then ['\\', c] else if c = '\n' then ['\\', 'n'] else [c]

/-- The characters of a word. -/
def chars (w : Word) : List Char :=
  match w.kind with
  | .text => '"' :: (w.value.toList.flatMap escape ++ ['"'])
  | _ => w.value.toList

/-- The characters of some words with a space between them. -/
def spaced : List Word → List Char
  | [] => []
  | [w] => w.chars
  | w :: ws => w.chars ++ ' ' :: spaced ws

end Word

/-! ## Expressions -/

namespace Op

/-- The operators that stand between two operands. -/
def binaries : List Op := [add, sub, mul, div, mod, eq, ne, gt, lt, ge, le, and, or]

/-- The level of an operator between two operands. -/
def level : Op → Level
  | or => .disjunction
  | and => .conjunction
  | eq | ne => .equality
  | gt | lt | ge | le => .relation
  | add | sub => .sum
  | mul | div | mod | not | other _ => .product

def word : Op → Word
  | add => .symbol .plus
  | sub => .symbol .minus
  | mul => .symbol .times
  | div => .symbol .divide
  | mod => .symbol .modulo
  | eq => .symbol .equal
  | ne => .symbol .notEqual
  | gt => .symbol .greater
  | lt => .symbol .less
  | ge => .symbol .greaterEqual
  | le => .symbol .lessEqual
  | and => .keyword .and
  | or => .keyword .or
  | not => .keyword .not
  | other symbol => .spelled symbol

end Op

namespace Expr

/-- The rank of an expression that no parentheses enclose. -/
def rank : Expr → Rank
  | binary _ op _ _ => .binary op.level
  | unary .. => .sign
  | index .. | property .. => .accessor
  | literal .. | name .. | call .. | list .. | misplaced .. => .primary

/-- Parentheses around an expression that is too loose for its place. -/
def enclose (place rank : Rank) (ws : List Word) : List Word :=
  if place.tightness ≤ rank.tightness then ws
  else .symbol .openParen :: (ws ++ [.symbol .closeParen])

/-- The word of a constant. -/
def constantWord (v : Value) (raw : String) : Word :=
  match v with
  | .number _ => ⟨.number, raw⟩
  | .text _ => ⟨.text, raw⟩
  | _ => .spelled raw

mutual

/-- The words of an expression. -/
def words : Expr → List Word
  | literal _ v raw => [constantWord v raw]
  | name _ id => [.spelled id]
  | binary _ op l r =>
    enclose (.binary op.level) l.rank l.words ++
      op.word :: enclose op.level.operand r.rank r.words
  | unary _ op e => op.word :: enclose .sign e.rank e.words
  | call _ callee args =>
    .spelled callee.name :: .symbol .openParen :: (wordsAll args ++ [.symbol .closeParen])
  | index _ e i =>
    enclose .accessor e.rank e.words ++
      .symbol .openBracket :: (i.words ++ [.symbol .closeBracket])
  | property _ e n => enclose .accessor e.rank e.words ++ [.symbol .dot, .spelled n.name]
  | list _ es => .symbol .openBracket :: (wordsAll es ++ [.symbol .closeBracket])
  | misplaced .. => []
termination_by structural e => e

/-- The words of expressions between commas. -/
def wordsAll : List Expr → List Word
  | [] => []
  | [e] => e.words
  | e :: es => e.words ++ .symbol .comma :: wordsAll es
termination_by structural es => es

end

end Expr

/-! ## Statements -/

/-- The words of names between commas. -/
def Word.names : List String → List Word
  | [] => []
  | [n] => [.spelled n]
  | n :: ns => .spelled n :: .symbol .comma :: names ns

mutual

/-- The words of a statement. -/
def Stmt.words : Stmt → List Word
  | .declare _ n none => [.keyword .declare, .spelled n, .symbol .semicolon]
  | .declare _ n (some e) =>
    .keyword .declare :: .spelled n :: .symbol .assign :: (e.words ++ [.symbol .semicolon])
  | .assign _ n e => .spelled n :: .symbol .assign :: (e.words ++ [.symbol .semicolon])
  | .print _ es => .keyword .print :: (Expr.wordsAll es ++ [.symbol .semicolon])
  | .block b => b.words
  | .branch _ e s alternate =>
    .keyword .when :: .symbol .openParen :: (e.words ++ .symbol .closeParen :: (s.words ++
      match alternate with
      | none => []
      | some a => .keyword .otherwise :: a.words))
  | .loop _ e b =>
    .keyword .loop :: .symbol .openParen :: (e.words ++ .symbol .closeParen :: b.words)
  | .function _ n ps b =>
    .keyword .function :: .spelled n :: .symbol .openParen ::
      (Word.names ps ++ .symbol .closeParen :: b.words)
  | .giveBack _ none => [.keyword .giveBack, .symbol .semicolon]
  | .giveBack _ (some e) => .keyword .giveBack :: (e.words ++ [.symbol .semicolon])
  | .stop _ => [.keyword .stop, .symbol .semicolon]
  | .skip _ => [.keyword .skip, .symbol .semicolon]
  | .expression _ e => e.words ++ [.symbol .semicolon]
  | .misplaced .. => []
termination_by structural s => s

/-- The words of a block. -/
def Block.words : Block → List Word
  | .mk _ ss => .symbol .openBrace :: (Stmt.wordsAll ss ++ [.symbol .closeBrace])
termination_by structural b => b

/-- The words of statements in sequence. -/
def Stmt.wordsAll : List Stmt → List Word
  | [] => []
  | s :: ss => s.words ++ Stmt.wordsAll ss
termination_by structural ss => ss

end

namespace Program

/-- The words of a program between its markers. -/
def words (p : Program) : List Word :=
  ⟨.start, "chala suru karu"⟩ :: .symbol .semicolon ::
    (Stmt.wordsAll p.statements ++ [⟨.finish, "bas re ata"⟩, .symbol .semicolon])

/-- The text of a program. -/
def source (p : Program) : String :=
  String.ofList (Word.spaced (words p))

end Program

/-! ## Well-formed trees -/

/-- The text is a name: an ASCII word that is no keyword, whatever its cases. -/
def IsName (name : String) : Prop := Kind.identifier.admits name.toList

instance (name : String) : Decidable (IsName name) :=
  inferInstanceAs (Decidable (Kind.identifier.admits name.toList = true))

/-- The spelling belongs to the constant. -/
def Value.IsSpelled : Value → String → Prop
  | .number x, raw => Lexeme.isNumber raw.toList ∧ Numeral.ofLexeme? raw = some x
  | .text s, raw => s = raw
  | .boolean b, raw => Keyword.ofWord? raw.toList = some (if b then .yes else .no)
  | .null, raw => Keyword.ofWord? raw.toList = some .nothing
  | .list _, _ | .function _, _ | .foreign _, _ => False

/-- What a well-formed tree asks of a single expression. -/
def Expr.Proper : Expr → Prop
  | .literal _ v raw => v.IsSpelled raw
  | .name _ id => IsName id
  | .binary _ op _ _ => op ∈ Op.binaries
  | .unary _ op _ => op = .sub ∨ op = .not
  | .call _ callee _ => IsName callee.name ∨ ∃ b : Builtin, callee.name = b.name
  | .index .. | .list .. => True
  | .property _ _ n => IsName n.name
  | .misplaced .. => False

/-- What a well-formed tree asks of a single statement. -/
def Stmt.Proper : Stmt → Prop
  | .declare _ n _ | .assign _ n _ => IsName n
  | .print _ es => es ≠ []
  | .branch _ _ s alternate =>
    (∃ b, s = .block b) ∧
      ∀ a, alternate = some a → (∃ b, a = .block b) ∨ ∃ line e s' a', a = .branch line e s' a'
  | .function _ n ps _ => IsName n ∧ (∀ p ∈ ps, IsName p) ∧ ps.Nodup
  | .expression _ e => ∃ w ws, e.words = w :: ws ∧ Opens w.kind e
  | .block _ | .loop .. | .giveBack .. | .stop _ | .skip _ => True
  | .misplaced .. => False

/-- The program has the form of one that was read. -/
def Program.WellFormed (p : Program) : Prop := Block.Everywhere Expr.Proper Stmt.Proper p

end Boli
