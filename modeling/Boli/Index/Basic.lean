import Boli.Syntax.Statement

/-!
# The index of declarations

The functions and variables that documents declare at their top level, by the documents' URIs.

* `Declaration.ofText` collects the declarations of a text.
* `Index.update` gives a document a new text and draws up the table of names again.  A text that
  cannot be read leaves the index as it was.
* `Index.named` are the declarations of a name, by URI and then in the order of their document, and
  `Index.lookup` is the first of them.
-/

namespace Boli

/-- What is declared. -/
inductive DeclarationKind where
  | function | variable
deriving DecidableEq, Repr

/-- A declaration at the top level of a document. -/
structure Declaration where
  /-- The name. -/
  name : String
  /-- What it names. -/
  kind : DeclarationKind
  /-- The URI of the document. -/
  uri : String
  /-- The number of lines in front of it. -/
  line : Nat
  /-- The head of the declaration, for a reader. -/
  detail : String
deriving DecidableEq, Repr

/-- A stretch of text in a document, by lines and characters counted from zero. -/
structure Range where
  startLine : Nat
  startCharacter : Nat
  endLine : Nat
  endCharacter : Nat
deriving DecidableEq, Repr

namespace Declaration

/-- The stretch of text that a declaration is shown at. -/
def range (d : Declaration) : Range :=
  ⟨d.line, 0, d.line, d.name.length⟩

/-- The number of lines in front of a place. -/
def linesBefore (line : Line) : Nat :=
  (line.getD 1 - 1).toNat

/-- The declaration that a statement of a document is. -/
def ofStmt? (uri : String) : Stmt → Option Declaration
  | .function line name parameters _ =>
    some ⟨name, .function, uri, linesBefore line,
      "kaamKar " ++ name ++ "(" ++ ", ".intercalate parameters ++ ")"⟩
  | .declare line name _ => some ⟨name, .variable, uri, linesBefore line, "heAhe " ++ name⟩
  | _ => none

/-- The declarations at the top level of a program. -/
def ofProgram (uri : String) (p : Program) : List Declaration :=
  p.statements.filterMap (ofStmt? uri)

/-- The declarations at the top level of a document. -/
def ofText (uri text : String) : Except SourceError (List Declaration) :=
  (Program.ofText text).map (ofProgram uri)

end Declaration

/-- The declarations of some documents. -/
structure Index where
  /-- Each document with its declarations, sorted by URI. -/
  documents : List (String × List Declaration) := []
  /-- Each name with its declarations. -/
  table : List (String × List Declaration) := []
deriving DecidableEq, Repr

namespace Index

/-- Puts a document into a list that is sorted by URI. -/
def insert (uri : String) (ds : List Declaration) :
    List (String × List Declaration) → List (String × List Declaration)
  | [] => [(uri, ds)]
  | (u, old) :: rest =>
    if uri = u then (uri, ds) :: rest
    else if uri < u then (uri, ds) :: (u, old) :: rest
    else (u, old) :: insert uri ds rest
termination_by structural documents => documents

theorem lookup_cons (u v : String) (ds : List Declaration)
    (rest : List (String × List Declaration)) :
    ((v, ds) :: rest).lookup u = if u = v then some ds else rest.lookup u := by
  by_cases h : u = v
  · simp [h]
  · rw [List.lookup_cons, beq_false_of_ne h, if_neg h]

/-- A document that was put into a list is found there, and the others are found as before. -/
theorem lookup_insert (uri u : String) (ds : List Declaration)
    (documents : List (String × List Declaration)) :
    (insert uri ds documents).lookup u = if u = uri then some ds else documents.lookup u := by
  induction documents with
  | nil => exact lookup_cons u uri ds []
  | cons d rest ih =>
    obtain ⟨v, old⟩ := d
    by_cases heq : uri = v
    · subst heq
      rw [insert, if_pos rfl, lookup_cons, lookup_cons]
      split <;> rfl
    · by_cases hlt : uri < v
      · rw [insert, if_neg heq, if_pos hlt, lookup_cons]
      · rw [insert, if_neg heq, if_neg hlt, lookup_cons, lookup_cons, ih]
        by_cases hv : u = v
        · have hne : u ≠ uri := fun e => heq (e.symm.trans hv)
          rw [if_pos hv, if_neg hne, if_pos hv]
        · rw [if_neg hv, if_neg hv]

/-- Puts a declaration behind the others of its name. -/
def enter (d : Declaration) :
    List (String × List Declaration) → List (String × List Declaration)
  | [] => [(d.name, [d])]
  | (name, ds) :: rest =>
    if name = d.name then (name, ds ++ [d]) :: rest else (name, ds) :: enter d rest
termination_by structural table => table

/-- Each name among some declarations with those of that name, in their order. -/
def tabulate (ds : List Declaration) : List (String × List Declaration) :=
  ds.foldl (fun table d => enter d table) []

/-- Gives a document some declarations. -/
def put (index : Index) (uri : String) (ds : List Declaration) : Index :=
  let documents := insert uri ds index.documents
  ⟨documents, tabulate (documents.flatMap (·.2))⟩

/-- Gives a document a text. -/
def update (index : Index) (uri text : String) : Index :=
  match Declaration.ofText uri text with
  | .ok ds => index.put uri ds
  | .error _ => index

/-- The declarations of a document, if it is in the index. -/
def ofDocument? (index : Index) (uri : String) : Option (List Declaration) :=
  index.documents.lookup uri

/-- A document that is put into the index is found there, and the others are found as before. -/
theorem ofDocument?_put (index : Index) (uri u : String) (ds : List Declaration) :
    (index.put uri ds).ofDocument? u = if u = uri then some ds else index.ofDocument? u :=
  lookup_insert uri u ds index.documents

/-- The declarations of a name. -/
def named (index : Index) (name : String) : List Declaration :=
  (index.table.lookup name).getD []

/-- The first declaration of a name. -/
def lookup (index : Index) (name : String) : Option Declaration :=
  (index.named name).head?

/-- The documents, sorted. -/
def uris (index : Index) : List String :=
  index.documents.map (·.1)

/-- The names declared, sorted. -/
def names (index : Index) : List String :=
  (index.table.map (·.1)).mergeSort

end Index

end Boli
