import Boli.Console

/-!
# The command line program

Reads the script, the environment and the standard input, and shows the transcript.  A script that
asks for input is run again with one more line, and only what is new is shown, so that what it
prints before it asks is seen in time.
-/

namespace Boli.Console

/-- The number of a system error, which may be given with a minus sign. -/
def systemNumber (code : UInt32) : Nat :=
  if code < 0x80000000 then code.toNat else (0 - code).toNat

/-- The file error with a number, or another one. -/
def numberedError (code : UInt32) (text : String) : FileError :=
  match systemNumber code with
  | 20 => .notADirectory
  | 21 => .isADirectory
  | 36 => .nameTooLong
  | number => .other number text

/-- Why a file could not be opened or read. -/
def fileError : IO.Error → FileError
  | .noFileOrDirectory .. | .noSuchThing .. => .notFound
  | .inappropriateType _ code text | .invalidArgument _ code text => numberedError code text
  | .permissionDenied _ code _ => numberedError code "Permission denied"
  | e => .other 5 (toString e)

/-- The text of a file. -/
def readFile (name : String) : IO (Except ReadError String) := do
  try
    let bytes ← IO.FS.readBinFile name
    return textOfBytes bytes.toList
  catch e => return .error (.file (fileError e))

/-- What a text has after the part that was shown. -/
def unseen (shown text : String) : String :=
  String.ofList (text.toList.drop shown.length)

/-- Runs a script with some lines of input, and with more of them as long as it asks for them. -/
partial def converse (run : List String → Transcript) (lines : List String) (shown : Transcript) :
    IO UInt32 := do
  let t := run lines
  (← IO.getStdout).putStr (unseen shown.output t.output)
  (← IO.getStdout).flush
  if t.starved then
    let line ← (← IO.getStdin).getLine
    if line != "" then
      let kept := if line.endsWith "\n" then (line.dropEnd 1).toString else line
      return ← converse run (lines ++ [kept]) t
  (← IO.getStderr).putStr t.report
  return t.status.toUInt32

end Boli.Console

open Boli

/-- Runs the script that the command line names. -/
def main (args : List String) : IO UInt32 := do
  match Request.ofArgs args with
  | .usage wanted =>
    let t := Console.showUsage wanted
    IO.print t.output
    return t.status.toUInt32
  | .script name =>
    let preferences :=
      Preferences.ofVariables (← IO.getEnv "AMCHIDEBUG") (← IO.getEnv "AMCHI_LOG_LEVEL")
    let source ← Console.readFile name
    let run (lines : List String) : Transcript :=
      match Console.run preferences name source (.lines lines) with
      | .ok t => t
      | .error e => Console.refuse [e.message name]
    Console.converse run [] {}
