/-!
# Kinds of tokens

A token is a program marker, a literal, a word or a symbol.  A word is a keyword in any mixture of
upper and lower case, and an identifier otherwise.

* `Keyword` and `Symbol` list the fixed words and symbols, each with the way it is spelled.
* `Kind` is the kind of a token, with the code that names it in a token listing.
* `Keyword.ofWord?` recognises a keyword.
-/

namespace Boli

/-- The words with a fixed meaning. -/
inductive Keyword where
  | declare | print | input
  | when | otherwise | otherwiseWhen | loop | forEach | stop | skip
  | function | giveBack
  | yes | no | nothing
  | list | append | length
  | greater | less | equal | and | or | not
deriving DecidableEq, Repr

namespace Keyword

/-- Every keyword. -/
def all : List Keyword :=
  [declare, print, input, when, otherwise, otherwiseWhen, loop, forEach, stop, skip, function,
    giveBack, yes, no, nothing, list, append, length, greater, less, equal, and, or, not]

/-- The usual spelling. -/
def spelling : Keyword → String
  | declare => "heAhe"
  | print => "dakhava"
  | input => "ghye"
  | when => "jar"
  | otherwise => "nahitar"
  | otherwiseWhen => "nahitarJar"
  | loop => "punhaKar"
  | forEach => "pratyekSathi"
  | stop => "thamb"
  | skip => "pudheJa"
  | function => "kaamKar"
  | giveBack => "paratDe"
  | yes => "khara"
  | no => "khota"
  | nothing => "rikam"
  | list => "yadi"
  | append => "jod"
  | length => "moj"
  | greater => "mothaAheKa"
  | less => "lahanAheKa"
  | equal => "sarkhaAheKa"
  | and => "ani"
  | or => "kimva"
  | not => "nahi"

/-- The name in a token listing. -/
def code : Keyword → String
  | declare => "VAR"
  | print => "PRINT"
  | input => "INPUT"
  | when => "IF"
  | otherwise => "ELSE"
  | otherwiseWhen => "ELSE_IF"
  | loop => "WHILE"
  | forEach => "FOR_EACH"
  | stop => "BREAK"
  | skip => "CONTINUE"
  | function => "FUNCTION"
  | giveBack => "RETURN"
  | yes => "TRUE"
  | no => "FALSE"
  | nothing => "NULL"
  | list => "LIST"
  | append => "APPEND"
  | length => "LENGTH"
  | greater => "GREATER_WORD"
  | less => "LESS_WORD"
  | equal => "EQUAL_WORD"
  | and => "AND"
  | or => "OR"
  | not => "NOT"

/-- The keyword that a word spells, whatever the case of its letters. -/
def ofWord? (word : List Char) : Option Keyword :=
  all.find? fun k => k.spelling.toList.map Char.toLower == word.map Char.toLower

end Keyword

/-- Operators and punctuation. -/
inductive Symbol where
  | assign | equal | notEqual | greaterEqual | lessEqual | greater | less
  | plus | minus | times | divide | modulo
  | openParen | closeParen | openBrace | closeBrace | openBracket | closeBracket
  | semicolon | comma | dot
deriving DecidableEq, Repr

namespace Symbol

/-- Every symbol. -/
def all : List Symbol :=
  [assign, equal, notEqual, greaterEqual, lessEqual, greater, less, plus, minus, times, divide,
    modulo, openParen, closeParen, openBrace, closeBrace, openBracket, closeBracket, semicolon,
    comma, dot]

/-- The characters of a symbol. -/
def spelling : Symbol → String
  | assign => "="
  | equal => "=="
  | notEqual => "!="
  | greaterEqual => ">="
  | lessEqual => "<="
  | greater => ">"
  | less => "<"
  | plus => "+"
  | minus => "-"
  | times => "*"
  | divide => "/"
  | modulo => "%"
  | openParen => "("
  | closeParen => ")"
  | openBrace => "\x7b"
  | closeBrace => "\x7d"
  | openBracket => "["
  | closeBracket => "]"
  | semicolon => ";"
  | comma => ","
  | dot => "."

/-- The name in a token listing. -/
def code : Symbol → String
  | assign => "ASSIGN"
  | equal => "EQUAL"
  | notEqual => "NOT_EQUAL"
  | greaterEqual => "GREATER_EQUAL"
  | lessEqual => "LESS_EQUAL"
  | greater => "GREATER"
  | less => "LESS"
  | plus => "PLUS"
  | minus => "MINUS"
  | times => "MULTIPLY"
  | divide => "DIVIDE"
  | modulo => "MODULO"
  | openParen => "LPAREN"
  | closeParen => "RPAREN"
  | openBrace => "LBRACE"
  | closeBrace => "RBRACE"
  | openBracket => "LBRACKET"
  | closeBracket => "RBRACKET"
  | semicolon => "SEMICOLON"
  | comma => "COMMA"
  | dot => "DOT"

/-- The symbol that starts with `c` when `next` follows: the two together if they are a symbol, and
the first alone otherwise. -/
def ofChars? (c : Char) (next : Option Char) : Option Symbol :=
  match c, next with
  | '=', some '=' => some equal
  | '!', some '=' => some notEqual
  | '>', some '=' => some greaterEqual
  | '<', some '=' => some lessEqual
  | '=', _ => some assign
  | '>', _ => some greater
  | '<', _ => some less
  | '+', _ => some plus
  | '-', _ => some minus
  | '*', _ => some times
  | '/', _ => some divide
  | '%', _ => some modulo
  | '(', _ => some openParen
  | ')', _ => some closeParen
  | '{', _ => some openBrace
  | '}', _ => some closeBrace
  | '[', _ => some openBracket
  | ']', _ => some closeBracket
  | ';', _ => some semicolon
  | ',', _ => some comma
  | '.', _ => some dot
  | _, _ => none

end Symbol

/-- The kind of a token. -/
inductive Kind where
  /-- The marker that opens a program. -/
  | start
  /-- The marker that closes a program. -/
  | finish
  /-- A number. -/
  | number
  /-- A quoted text. -/
  | text
  /-- A word that is no keyword. -/
  | identifier
  /-- A keyword. -/
  | keyword (word : Keyword)
  /-- An operator or punctuation. -/
  | symbol (sign : Symbol)
  /-- The end of the source text. -/
  | eof
  /-- A kind that no source text produces. -/
  | other (code : String)
deriving DecidableEq, Repr

namespace Kind

/-- The name in a token listing. -/
def code : Kind → String
  | start => "PROGRAM_START"
  | finish => "PROGRAM_END"
  | number => "NUMBER"
  | text => "STRING"
  | identifier => "IDENTIFIER"
  | keyword word => word.code
  | symbol sign => sign.code
  | eof => "EOF"
  | other code => code

/-- Every kind that a source text produces. -/
def all : List Kind :=
  [start, finish, number, text, identifier, eof] ++ Keyword.all.map keyword ++ Symbol.all.map symbol

/-- The kind with a given name. -/
def ofCode (name : String) : Kind :=
  (all.find? fun k => k.code == name).getD (other name)

/-- The spelling that all tokens of a kind share, as it is named in messages. -/
def spelling? : Kind → Option String
  | start => some "chala suru karu"
  | finish => some "bas re ata"
  | keyword word => some word.spelling
  | symbol sign => some sign.spelling
  | eof => some "end of input"
  | number | text | identifier | other _ => none

end Kind

end Boli
