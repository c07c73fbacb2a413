import Boli.Files.Basic
import Boli.Run.Session
import Boli.Syntax.Listing

/-!
# The console

The command line names a script.  The script is read and run, and what it prints and logs is shown.

* `Request.ofArgs` reads the command line.
* `Preferences.ofVariables` reads the variables of the environment.
* `Console.run` runs a script and gives the transcript of the run.
-/

namespace Boli

/-- What the command line asks for. -/
inductive Request where
  /-- The usage, which was asked for or not. -/
  | usage (wanted : Bool)
  /-- A script to run. -/
  | script (name : String)
deriving DecidableEq, Repr

/-- What the arguments of the command line ask for. -/
def Request.ofArgs : List String → Request
  | [arg] => if arg = "-h" ∨ arg = "--help" then .usage true else .script arg
  | _ => .usage false

/-- What the environment asks for. -/
structure Preferences where
  /-- Tokens and tree are shown before the run. -/
  inspect : Bool := false
  /-- Records below this rank are not shown. -/
  threshold : Nat := LogLevel.warning.rank
deriving DecidableEq, Repr

namespace Preferences

/-- A letter as a capital one.  Of the letters beyond ASCII, only two have a capital in ASCII. -/
def capital (c : Char) : Char :=
  if c = 'ı' then 'I'
  else if c = 'ſ' then 'S'
  else c.toUpper

/-- The ranks of the levels by their names. -/
def ranks : List (String × Nat) :=
  [("NOTSET", 0), ("DEBUG", 10), ("INFO", 20), ("WARN", 30), ("WARNING", 30), ("ERROR", 40),
    ("CRITICAL", 50), ("FATAL", 50)]

/-- The rank of a level that is named in capital or small letters. -/
def rankOf (name : String) : Nat :=
  (ranks.lookup (String.ofList (name.toList.map capital))).getD LogLevel.warning.rank

/-- The preferences that two variables of the environment state: one that is not empty if tokens and
tree are wanted, and one with the name of a level. -/
def ofVariables (inspect level : Option String) : Preferences where
  inspect := inspect.getD "" != ""
  threshold := (level.map rankOf).getD LogLevel.warning.rank

end Preferences

/-- What a run shows and how it ends. -/
structure Transcript where
  /-- What was printed. -/
  output : String := ""
  /-- What was reported. -/
  report : String := ""
  /-- The exit status, zero after success. -/
  status : Nat := 0
  /-- The run stopped because there was no more input. -/
  starved : Bool := false
deriving DecidableEq, Repr

namespace Console

/-- Lines as one text. -/
def unlines (lines : List String) : String :=
  lines.foldl (fun text line => text ++ line ++ "\n") ""

/-- How to call the program. -/
def usage : String := unlines [
  "",
  "AmchiScript Interpreter",
  "",
  "Usage:",
  "    amchi <script.amchi>",
  "",
  "Arguments:",
  "    <script.amchi>",
  "        Path to an AmchiScript source file to execute. The program must",
  "        start with 'chala suru karu;' and end with 'bas re ata;'.",
  "",
  "Example:",
  "    amchi namaskar.amchi",
  "",
  "Options:",
  "    -h, --help",
  "        Show this help message and exit."]

/-- The transcript of showing the usage. -/
def showUsage (wanted : Bool) : Transcript :=
  { output := usage, status := if wanted then 0 else 1 }

/-- The transcript of a script that cannot be run. -/
def refuse (lines : List String) : Transcript :=
  { report := unlines lines, status := 1 }

/-- The kind of an error in a source, for a reader. -/
def kindOf : SourceError → String
  | .lex _ => "LexerError"
  | .parse _ => "ParseError"

/-- Tokens and tree of a program. -/
def inspection (tokens : List Token) (p : Program) : List String :=
  ["\nTokens:\n"] ++ tokens.map (·.listing) ++ ["\nAST:\n", p.listing, " "]

/-- The last record is about missing input. -/
def isStarved (m : Machine) : Bool :=
  match m.log.back? with
  | some (.runtimeError _ f) => f.cause = .inputUnavailable
  | _ => false

/-- Runs a program that was read. -/
def runProgram (preferences : Preferences) (name : String) (tokens : List Token) (p : Program)
    (input : InputSource) : Transcript :=
  let (completion, m) := Session.run { file := name } p (Machine.fresh input {})
  let shown := m.log.toList.filter fun r => preferences.threshold ≤ r.level.rank
  let front := if preferences.inspect then inspection tokens p else []
  { output := unlines (front ++ m.output.toList)
    report := unlines (shown.map (·.message))
    status := if completion = .completed then 0 else 1
    starved := completion = .failed && isStarved m }

/-- Runs the script that has a text. -/
def runText (preferences : Preferences) (name text : String) (input : InputSource) : Transcript :=
  match Token.ofText text with
  | .error e => refuse [kindOf (.lex e) ++ ": " ++ (SourceError.lex e).message]
  | .ok tokens =>
    match Parser.program.ofTokens tokens with
    | .error e => refuse [kindOf e ++ ": " ++ e.message]
    | .ok p => runProgram preferences name tokens p input

/-- Runs a script that was read from a file, or not.  A name with a null character is an error of
the caller, who gets it back. -/
def run (preferences : Preferences) (name : String) (source : Except ReadError String)
    (input : InputSource) : Except ReadError Transcript :=
  match source with
  | .ok text => .ok (runText preferences name text input)
  | .error .embeddedNull => .error .embeddedNull
  | .error e => .ok (refuse ["Error reading file: " ++ name, e.message name])

end Console

end Boli
