import Boli.Files.Uri
import Boli.Index.Basic
import Boli.Run.Machine
import Boli.Text.Lines

/-!
# Workspaces

The documents that an editor works on, and the folder they come from.

* `Connection` is what lies between the editor and the workspace.  The functions below take any
  connection, and `Connection.standard` is that of the program.
* `Workspace.openDocument` and `Workspace.change?` give a document the text that it has in the
  editor.
* `Workspace.declarationAt` is the declaration of the word at a caret.  The first time that it is
  asked for a word, it puts the files of the folder into the index.
-/

namespace Boli

/-- What a workspace logs. -/
inductive Notice where
  /-- The text of a document cannot be read as a program. -/
  | notIndexed (uri : String) (error : SourceError)
  /-- A file cannot be read. -/
  | unreadable (path : String) (error : ReadError)

namespace Notice

/-- The severity of a notice. -/
def level : Notice → LogLevel
  | notIndexed .. => .debug
  | unreadable .. => .warning

/-- The wording of a notice. -/
def message : Notice → String
  | notIndexed uri error => "Not indexing " ++ uri ++ ": " ++ error.message
  | unreadable path error => "Failed to read " ++ path ++ ": " ++ error.message path

end Notice

/-- A place between the characters of a document. -/
structure Caret where
  /-- The number of lines in front of it. -/
  line : Nat
  /-- The number of UTF-16 units in front of it on its line. -/
  character : Nat
deriving DecidableEq, Repr

/-- A count that no caret has. -/
structure CaretError where
  /-- What is counted. -/
  field : String
  /-- The count. -/
  count : Int
deriving DecidableEq, Repr

/-- The largest count of lines or characters that an editor gives. -/
def Caret.limit : Nat := 2147483647

/-- The wording of an error. -/
def CaretError.message (e : CaretError) : String :=
  "Position." ++ e.field ++ " should be in range [0:" ++ toString Caret.limit ++ "], but was " ++
    toString e.count ++ "."

/-- The caret with given counts. -/
def Caret.of (line character : Int) : Except CaretError Caret :=
  if line < 0 ∨ Caret.limit < line then .error ⟨"line", line⟩
  else if character < 0 ∨ Caret.limit < character then .error ⟨"character", character⟩
  else .ok ⟨line.toNat, character.toNat⟩

/-- What the requests of an editor go through before the workspace serves them. -/
structure Connection where
  /-- The caret with given counts of lines and characters. -/
  caret : Int → Int → Except CaretError Caret
  /-- Refuses the URIs of documents that cannot be opened. -/
  accept : String → Except UriError Unit
  /-- The document at a URI is open, given the texts in the editor. -/
  isOpen : List (String × String) → String → Bool
  /-- The text of a document, from the folder and the texts in the editor. -/
  text : Folder → List (String × String) → String → Except ReadError String
  /-- The word at a caret in a text. -/
  word : String → Caret → String

/-- The connection of the program.  A URI has to lead somewhere, and a document that is not open has
the text of its file. -/
def Connection.standard : Connection where
  caret := Caret.of
  accept uri := (Uri.path uri).map fun _ => ()
  isOpen texts uri := (texts.lookup uri).isSome
  text folder texts uri :=
    match texts.lookup uri with
    | some text => .ok text
    | none => folder.readText uri
  word text caret := Text.wordIn text caret.line caret.character

/-- The documents that an editor works on. -/
structure Workspace where
  /-- The folder that documents are read from. -/
  folder : Folder
  /-- The folder is open in the editor, so its scripts belong to the workspace. -/
  isOpen : Bool
  /-- The texts of the open documents by URI, the newest first. -/
  texts : List (String × String) := []
  /-- The declarations of the documents. -/
  index : Index := {}
  /-- The files of the folder were put into the index. -/
  indexed : Bool := false
  /-- What was logged. -/
  log : Array Notice := #[]

namespace Workspace

/-- Gives a document a text in the index. -/
def update (w : Workspace) (uri text : String) : Workspace :=
  match Declaration.ofText uri text with
  | .ok ds => { w with index := w.index.put uri ds }
  | .error e => { w with log := w.log.push (.notIndexed uri e) }

@[simp]
theorem index_update (w : Workspace) (uri text : String) :
    (w.update uri text).index = w.index.update uri text := by
  unfold update Index.update
  cases Declaration.ofText uri text <;> rfl

/-- Gives a document a text in the editor. -/
def edit (w : Workspace) (uri text : String) : Workspace :=
  { w with texts := (uri, text) :: w.texts }.update uri text

/-- Opens a document in the editor, if the connection accepts its URI. -/
def openDocument (w : Workspace) (uri text : String) (via : Connection := .standard) :
    Except UriError Workspace :=
  (via.accept uri).map fun _ => w.edit uri text

/-- Changes a document that the connection holds open. -/
def change? (w : Workspace) (uri text : String) (via : Connection := .standard) :
    Option Workspace :=
  if via.isOpen w.texts uri then some (w.edit uri text) else none

/-- Puts the file at a path into the index. -/
def addFile (w : Workspace) (path : String) (file : Entry) : Workspace :=
  match file.text with
  | .ok text => w.update (fileUri path) text
  | .error e => { w with log := w.log.push (.unreadable path e) }

/-- The path has the name of a script. -/
def isScript (path : String) : Bool :=
  ".amchi".toList.isSuffixOf path.toList

/-- Everything in a folder that has the name of a script, with its path. -/
def scripts (folder : Folder) : List (String × Entry) :=
  (folder.tree.walk folder.path).filter (isScript ·.1)

/-- Puts the scripts of the folder into the index, if it is open. -/
def indexFolder (w : Workspace) : Workspace :=
  let files := if w.isOpen then scripts w.folder else []
  { files.foldl (fun w (path, file) => w.addFile path file) w with indexed := true }

/-- The declaration of the word at a caret. -/
def declarationAt (w : Workspace) (uri : String) (caret : Caret)
    (via : Connection := .standard) : Except ReadError (Option Declaration) × Workspace :=
  match via.text w.folder w.texts uri with
  | .error e => (.error e, w)
  | .ok text =>
    let word := via.word text caret
    if word = "" then (.ok none, w)
    else
      let w := if w.indexed then w else w.indexFolder
      (.ok (w.index.lookup word), w)

/-- The declarations of a document. -/
def declarations (w : Workspace) (uri : String) : List Declaration :=
  (w.index.ofDocument? uri).getD []

end Workspace

end Boli
