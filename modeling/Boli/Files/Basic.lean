import Boli.Files.Host
import Boli.Text.Split
import Boli.Text.Utf8

/-!
# Files

A directory tree, and reading a text file from it.

* `Entry` is a file with its bytes or a directory with its named entries.
* `Entry.find` follows a path from a directory.
* `Entry.readText` reads a file as UTF-8 text with unified line ends.
* `Entry.insert` puts an entry at a path.
* `Entry.walk` lists everything below a directory.

`ReadError` is why a file cannot be read.
-/

namespace Boli

/-- Why there is no file at a path. -/
inductive FileError where
  /-- Nothing is there. -/
  | notFound
  /-- A part of the path in front of the last one is a file. -/
  | notADirectory
  /-- A directory is there. -/
  | isADirectory
  /-- The path, or a name in it, is too long. -/
  | nameTooLong
  /-- Any other error of the system. -/
  | other (number : Nat) (text : String)
deriving DecidableEq, Repr

/-- The wording of an error at a path. -/
def FileError.message (e : FileError) (path : String) : String :=
  let (number, text) :=
    match e with
    | notFound => (2, "No such file or directory")
    | notADirectory => (20, "Not a directory")
    | isADirectory => (21, "Is a directory")
    | nameTooLong => (36, "File name too long")
    | other number text => (number, text)
  "[Errno " ++ toString number ++ "] " ++ text ++ ": " ++ Text.quoted path

/-- Why a file cannot be read. -/
inductive ReadError where
  /-- There is no file. -/
  | file (e : FileError)
  /-- The file is not UTF-8. -/
  | encoding (e : Utf8Error)
  /-- The path has a null character, so it is not even the path of a missing file. -/
  | embeddedNull
  /-- The URI names no place. -/
  | uri (e : UriError)
deriving DecidableEq, Repr

/-- The wording of an error at a path. -/
def ReadError.message (e : ReadError) (path : String) : String :=
  match e with
  | file e => e.message path
  | encoding e => e.message
  | embeddedNull => "embedded null byte"
  | uri e => e.message

/-- The text of a file with some bytes. -/
def textOfBytes (bytes : List UInt8) : Except ReadError String :=
  match Utf8.decode bytes with
  | .ok cs => .ok (String.ofList (Text.unifyNewlines cs))
  | .error e => .error (.encoding e)

/-- A file or a directory. -/
inductive Entry where
  /-- A file. -/
  | file (bytes : List UInt8)
  /-- A directory, with each name once. -/
  | directory (entries : List (String × Entry))
deriving Inhabited

namespace Entry

/-- The parts of a path between its slashes. -/
def parts (path : String) : List String :=
  (Text.split '/' path.toList).map String.ofList

/-- A path without its empty parts and its dots.  Nothing is left of a path to where it starts but a
single dot. -/
def tidy (path : String) : String :=
  let kept := (parts path).filter fun part => part != "" && part != "."
  match path.toList with
  | '/' :: _ => "/" ++ "/".intercalate kept
  | _ => if kept.isEmpty then "." else "/".intercalate kept

/-- The largest number of bytes in a name. -/
def nameLimit : Nat := 255

/-- The largest number of bytes in a path. -/
def pathLimit : Nat := 4095

/-- What lies around the tree.  Nothing can be found there. -/
def outside : Entry :=
  .directory []

/-- The top of the file system.  Of what is there, only the null device can be read. -/
def systemRoot : Entry :=
  .directory (("dev", .directory [("null", .file [])]) ::
    ["bin", "boot", "etc", "home", "lib", "media", "mnt", "opt", "proc", "root", "run", "sbin",
      "srv", "sys", "tmp", "usr", "var"].map fun name => (name, .directory []))

/-- Follows the parts of a path.  The directories `above` are those around the entry, innermost
first, and `around` lies around them all. -/
def findFrom (around : Entry) (above : List Entry) : Entry → List String → Except FileError Entry
  | e, [] => .ok e
  | .file _, _ :: _ => .error .notADirectory
  | .directory entries, part :: rest =>
    if part = "" ∨ part = "." then findFrom around above (.directory entries) rest
    else if part = ".." then findFrom around above.tail (above.headD around) rest
    else if nameLimit < part.utf8ByteSize then .error .nameTooLong
    else
      match entries.lookup part with
      | some e => findFrom around (.directory entries :: above) e rest
      | none => .error .notFound
termination_by structural _ parts => parts

/-- Follows a path from a directory.  The empty path leads nowhere. -/
def find (root : Entry) (path : String) : Except FileError Entry :=
  if pathLimit < path.utf8ByteSize then .error .nameTooLong
  else
    match path.toList with
    | [] => .error .notFound
    | '/' :: _ => findFrom systemRoot [] systemRoot (parts path)
    | _ => findFrom outside [] root (parts path)

/-- The text of the file that an entry is. -/
def text : Entry → Except ReadError String
  | .file bytes => textOfBytes bytes
  | .directory _ => .error (.file .isADirectory)

/-- Reads the text file at a path. -/
def readText (root : Entry) (path : String) : Except ReadError String :=
  if path.toList.contains '\x00' then .error .embeddedNull
  else
    match root.find path with
    | .ok e => e.text
    | .error e => .error (.file e)

/-- Puts an entry under a name. -/
def put (name : String) (e : Entry) : List (String × Entry) → List (String × Entry)
  | [] => [(name, e)]
  | (n, old) :: rest => if n = name then (n, e) :: rest else (n, old) :: put name e rest
termination_by structural entries => entries

/-- The named entries of a directory. -/
def entries : Entry → List (String × Entry)
  | .file _ => []
  | .directory entries => entries

/-- Puts a new entry under names that lead from a directory, with the directories on the way.  In
place of a directory that is there already, a new one changes nothing. -/
def insertAt : Entry → List String → Entry → Entry
  | .directory entries, [], .directory _ => .directory entries
  | _, [], new => new
  | e, name :: rest, new =>
    let inner := (e.entries.lookup name).getD (.directory [])
    .directory (put name (inner.insertAt rest new) e.entries)
termination_by structural _ names => names

/-- Puts a new entry at the end of the parts of a path that goes on from the names passed, the
nearest first.  A step back leaves the directory behind. -/
def insertFrom (root : Entry) (passed : List String) : List String → Entry → Entry
  | [], new => root.insertAt passed.reverse new
  | part :: rest, new =>
    if part = "" ∨ part = "." then insertFrom root passed rest new
    else if part = ".." then
      insertFrom (root.insertAt passed.reverse (.directory [])) passed.tail rest new
    else insertFrom root (part :: passed) rest new
termination_by structural parts => parts

/-- Puts a new entry at a path, with the directories on the way. -/
def insert (root : Entry) (path : String) (new : Entry) : Entry :=
  root.insertFrom [] (parts path) new

mutual

/-- Everything below an entry, with the path to it. -/
def walk (path : String) : Entry → List (String × Entry)
  | .file _ => []
  | .directory entries => walkAll path entries
termination_by structural e => e

/-- The entries of a directory and everything below them. -/
def walkAll (path : String) : List (String × Entry) → List (String × Entry)
  | [] => []
  | named :: rest => walkOne path named ++ walkAll path rest
termination_by structural entries => entries

/-- A named entry and everything below it. -/
def walkOne (path : String) : String × Entry → List (String × Entry)
  | (name, e) => (path ++ "/" ++ name, e) :: walk (path ++ "/" ++ name) e
termination_by structural named => named

end

end Entry

end Boli
