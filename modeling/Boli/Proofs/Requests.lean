import Boli.Proofs.Indexing

/-!
# Texts of the editor and texts of the folder

An editor opens and changes documents, and it asks for declarations.  The text of an edit goes into
the index at once.  The texts of the folder go there once, when the declaration of a word is first
asked for, and nobody looks whether the editor has newer ones.

So the index holds the last readable text that the editor gave to a document, unless the folder came
later and has a readable text of that document with other declarations
(`Workspace.editor_text_kept_iff`).  This does not depend on what the connection to the editor does
with a request: which documents it opens, and which words it finds at a caret.  A document that is
edited before the first question shows the difference (`Workspace.editor_text_lost`).

* `Workspace.serve` is the workspace after a request.
* `Workspace.Effect` tells the three things that a request can do to the index.
-/

namespace Boli

/-- What an editor asks for. -/
inductive Workspace.Request where
  /-- A document is opened with a text. -/
  | opened (uri text : String)
  /-- A document has a new text. -/
  | changed (uri text : String)
  /-- Where is the word at the caret declared? -/
  | definition (uri : String) (line character : Int)
  /-- How is the word at the caret declared? -/
  | hover (uri : String) (line character : Int)
  /-- What is declared in a document? -/
  | symbols (uri : String)

namespace Workspace

/-- The workspace after a request.  A request that is refused changes nothing. -/
def serve (via : Connection) (w : Workspace) : Request → Workspace
  | .opened uri text => (w.openDocument uri text via).toOption.getD w
  | .changed uri text => (w.change? uri text via).getD w
  | .definition uri line character | .hover uri line character =>
    match via.caret line character with
    | .ok caret => (w.declarationAt uri caret via).2
    | .error _ => w
  | .symbols _ => w

/-- The workspace after some requests. -/
def serveAll (via : Connection) (w : Workspace) (rs : List Request) : Workspace :=
  rs.foldl (serve via) w

/-- The text that a request gives to a document, unless it is refused. -/
def edit? (via : Connection) (w : Workspace) : Request → Option (String × String)
  | .opened uri text => (via.accept uri).toOption.map fun _ => (uri, text)
  | .changed uri text => if via.isOpen w.texts uri then some (uri, text) else none
  | .definition .. | .hover .. | .symbols _ => none

/-- The texts that some requests give to documents. -/
def edits (via : Connection) (w : Workspace) : List Request → List (String × String)
  | [] => []
  | r :: rs => (w.edit? via r).toList ++ edits via (w.serve via r) rs

/-- The texts of some files that can be read, with the URIs of the files. -/
def fileTexts (files : List (String × Entry)) : List (String × String) :=
  files.filterMap fun file => file.2.text.toOption.map (fileUri file.1, ·)

/-- The texts of the scripts in the folder, if it is open. -/
def folderTexts (w : Workspace) : List (String × String) :=
  fileTexts (if w.isOpen then scripts w.folder else [])

/-! ## Indexing the folder -/

/-- The second workspace has the folder of the first one. -/
structure SameFolder (w w' : Workspace) : Prop where
  folder : w'.folder = w.folder
  isOpen : w'.isOpen = w.isOpen

/-- The texts of the folder depend on the folder only. -/
theorem SameFolder.folderTexts_eq {w w' : Workspace} (h : SameFolder w w') :
    w'.folderTexts = w.folderTexts := by
  rw [folderTexts, folderTexts, h.folder, h.isOpen]

/-- A text in the index is none in the folder. -/
theorem update_sameFolder (w : Workspace) (uri text : String) :
    SameFolder w (w.update uri text) := by
  unfold update
  cases Declaration.ofText uri text <;> exact ⟨rfl, rfl⟩

theorem update_indexed (w : Workspace) (uri text : String) :
    (w.update uri text).indexed = w.indexed := by
  unfold update
  cases Declaration.ofText uri text <;> rfl

/-- Reading a file does not change it. -/
theorem addFile_sameFolder (w : Workspace) (path : String) (file : Entry) :
    SameFolder w (w.addFile path file) := by
  unfold addFile
  cases file.text with
  | ok text => exact update_sameFolder w (fileUri path) text
  | error e => exact ⟨rfl, rfl⟩

theorem addFiles_sameFolder (files : List (String × Entry)) (w : Workspace) :
    SameFolder w (files.foldl (fun w (path, file) => w.addFile path file) w) := by
  induction files generalizing w with
  | nil => exact ⟨rfl, rfl⟩
  | cons file files ih =>
    have hfirst := addFile_sameFolder w file.1 file.2
    have hrest := ih (w.addFile file.1 file.2)
    exact ⟨hrest.folder.trans hfirst.folder, hrest.isOpen.trans hfirst.isOpen⟩

/-- Files go into the index with their texts, one after the other. -/
theorem index_addFiles (files : List (String × Entry)) (w : Workspace) :
    (files.foldl (fun w (path, file) => w.addFile path file) w).index =
      w.index.updateAll (fileTexts files) := by
  induction files generalizing w with
  | nil => rfl
  | cons file files ih =>
    obtain ⟨path, file⟩ := file
    rw [List.foldl_cons, ih, fileTexts, fileTexts, List.filterMap_cons]
    dsimp only [addFile]
    cases file.text with
    | ok text =>
      dsimp only
      rw [index_update]
      rfl
    | error e => rfl

/-- The folder goes into the index with the texts of its scripts. -/
theorem index_indexFolder (w : Workspace) :
    w.indexFolder.index = w.index.updateAll w.folderTexts :=
  index_addFiles _ w

/-- A question puts the folder into the index, or it changes nothing. -/
theorem declarationAt_cases (via : Connection) (w : Workspace) (uri : String) (caret : Caret) :
    (w.declarationAt uri caret via).2 = w ∨
      w.indexed = false ∧ (w.declarationAt uri caret via).2 = w.indexFolder := by
  unfold declarationAt
  cases via.text w.folder w.texts uri with
  | error e => exact .inl rfl
  | ok text =>
    dsimp only
    split
    · exact .inl rfl
    · cases hindexed : w.indexed with
      | true => exact .inl rfl
      | false => exact .inr ⟨rfl, rfl⟩

/-! ## What a request does -/

/-- What can happen to the index of a workspace with a request that gives a document some text, or
none. -/
inductive Effect (w w' : Workspace) : Option (String × String) → Prop where
  /-- The text goes into the index. -/
  | edited {uri text : String} (index : w'.index = w.index.update uri text)
    (indexed : w'.indexed = w.indexed) : Effect w w' (some (uri, text))
  /-- Nothing happens. -/
  | kept (index : w'.index = w.index) (indexed : w'.indexed = w.indexed) : Effect w w' none
  /-- The folder goes into the index, for the first time and the last. -/
  | scanned (new : w.indexed = false) (done : w'.indexed = true)
    (index : w'.index = w.index.updateAll w.folderTexts) : Effect w w' none

/-- Whatever the connection does, a request edits a document, or it changes nothing, or it puts the
folder into the index. -/
theorem serve_cases (via : Connection) (w : Workspace) (r : Request) :
    (∃ uri text, w.edit? via r = some (uri, text) ∧ w.serve via r = w.edit uri text) ∨
    w.edit? via r = none ∧
      (w.serve via r = w ∨ w.indexed = false ∧ w.serve via r = w.indexFolder) := by
  cases r with
  | opened uri text =>
    rw [serve, openDocument, edit?]
    cases via.accept uri with
    | ok _ => exact .inl ⟨uri, text, rfl, rfl⟩
    | error e => exact .inr ⟨rfl, .inl rfl⟩
  | changed uri text =>
    rw [serve, change?, edit?]
    cases via.isOpen w.texts uri with
    | true => exact .inl ⟨uri, text, rfl, rfl⟩
    | false => exact .inr ⟨rfl, .inl rfl⟩
  | definition uri line character | hover uri line character =>
    rw [serve, edit?]
    cases via.caret line character with
    | ok caret => exact .inr ⟨rfl, declarationAt_cases via w uri caret⟩
    | error e => exact .inr ⟨rfl, .inl rfl⟩
  | symbols uri => exact .inr ⟨rfl, .inl rfl⟩

/-- A request gives the index a text, or the folder, or nothing. -/
theorem serve_effect (via : Connection) (w : Workspace) (r : Request) :
    Effect w (w.serve via r) (w.edit? via r) := by
  rcases serve_cases via w r with ⟨uri, text, hedit, h⟩ | ⟨hedit, h | ⟨hnew, h⟩⟩
  · rw [hedit, h]
    exact .edited (index_update _ uri text) (update_indexed _ uri text)
  · rw [hedit, h]
    exact .kept rfl rfl
  · rw [hedit, h]
    exact .scanned hnew rfl (index_indexFolder w)

/-- No request writes to the folder. -/
theorem serve_sameFolder (via : Connection) (w : Workspace) (r : Request) :
    SameFolder w (w.serve via r) := by
  rcases serve_cases via w r with ⟨uri, text, -, h⟩ | ⟨-, h | ⟨-, h⟩⟩
  · rw [h]
    have hupdate := update_sameFolder { w with texts := (uri, text) :: w.texts } uri text
    exact ⟨hupdate.folder, hupdate.isOpen⟩
  · rw [h]
    exact ⟨rfl, rfl⟩
  · rw [h]
    have hfiles := addFiles_sameFolder (if w.isOpen then scripts w.folder else []) w
    exact ⟨hfiles.folder, hfiles.isOpen⟩

/-! ## Runs -/

variable {via : Connection} {w : Workspace} {uri : String}

/-- The folder goes into the index once. -/
theorem indexed_serve (h : w.indexed = true) (r : Request) : (w.serve via r).indexed = true := by
  have heffect := serve_effect via w r
  generalize w.edit? via r = edit? at heffect
  cases heffect with
  | edited _ hindexed => exact hindexed.trans h
  | kept _ hindexed => exact hindexed.trans h
  | scanned _ hdone _ => exact hdone

theorem indexed_serveAll (via : Connection) (h : w.indexed = true) (rs : List Request) :
    (w.serveAll via rs).indexed = true := by
  induction rs generalizing w with
  | nil => exact h
  | cons r rs ih => exact ih (indexed_serve h r)

end Workspace

/-- What the index holds of a document after some texts depends on what it held of it before. -/
theorem Index.ofDocument?_updateAll_congr {index index' : Index} {uri : String}
    (h : index.ofDocument? uri = index'.ofDocument? uri) (history : List (String × String)) :
    (index.updateAll history).ofDocument? uri = (index'.updateAll history).ofDocument? uri := by
  by_cases hlast : ∃ text, LastReadable history uri text
  · obtain ⟨text, hlast⟩ := hlast
    obtain ⟨ds, hds⟩ := (readable_iff uri text).mp hlast.readable
    rw [ofDocument?_updateAll_of_last hlast hds, ofDocument?_updateAll_of_last hlast hds]
  · rw [ofDocument?_updateAll_of_none hlast, ofDocument?_updateAll_of_none hlast, h]

namespace Workspace

variable {via : Connection} {w : Workspace} {uri : String}

/-- Without a readable text from the editor, a document keeps its declarations until the folder goes
into the index. -/
theorem ofDocument?_serveAll {rs : List Request}
    (h : ∀ u ∈ w.edits via rs, u.1 = uri → ¬Readable u.2) :
    (w.serveAll via rs).index.ofDocument? uri =
      if (w.serveAll via rs).indexed = w.indexed then w.index.ofDocument? uri
      else (w.index.updateAll w.folderTexts).ofDocument? uri := by
  induction rs generalizing w with
  | nil => exact (if_pos rfl).symm
  | cons r rs ih =>
    have hrest := ih fun u hu => h u (List.mem_append_right _ hu)
    have hedit : ∀ u ∈ w.edit? via r, u.1 = uri → ¬Readable u.2 := fun u hu =>
      h u (List.mem_append_left _ (Option.mem_toList.mpr hu))
    rw [(serve_sameFolder via w r).folderTexts_eq] at hrest
    change ((w.serve via r).serveAll via rs).index.ofDocument? uri =
      if ((w.serve via r).serveAll via rs).indexed = w.indexed then _ else _
    rw [hrest]
    have heffect := serve_effect via w r
    generalize w.edit? via r = edit? at hedit heffect
    cases heffect with
    | @edited u text hindex hindexed =>
      have hkept : (w.serve via r).index.ofDocument? uri = w.index.ofDocument? uri := by
        rw [hindex]
        exact Index.ofDocument?_update_of_not (hedit (u, text) rfl)
      rw [hindexed, hkept, Index.ofDocument?_updateAll_congr hkept]
    | kept hindex hindexed => rw [hindex, hindexed]
    | scanned hnew hdone hindex =>
      have hlater := indexed_serveAll via hdone rs
      rw [hlater, hdone, hnew, if_pos rfl, if_neg (by simp), hindex]

/-- Whatever the connection is and whatever happened before, a readable text that the editor gives to
a document stays in the index until the editor gives it another one, unless the folder goes into the
index after it with a readable text of that document that has other declarations.  Then those are in
the index. -/
theorem editor_text_kept_iff (via : Connection) (w : Workspace) (r : Request) (later : List Request)
    {uri text : String} {ds : List Declaration} (hedit : w.edit? via r = some (uri, text))
    (hds : Declaration.ofText uri text = .ok ds)
    (hlater : ∀ u ∈ (w.serve via r).edits via later, u.1 = uri → ¬Readable u.2) :
    (((w.serve via r).serveAll via later).index.ofDocument? uri = some ds ↔
      ((w.serve via r).serveAll via later).indexed = w.indexed ∨
        ∀ saved ds', LastReadable w.folderTexts uri saved →
          Declaration.ofText uri saved = .ok ds' → ds' = ds) ∧
    (((w.serve via r).serveAll via later).indexed ≠ w.indexed →
      ∀ saved ds', LastReadable w.folderTexts uri saved →
        Declaration.ofText uri saved = .ok ds' →
          ((w.serve via r).serveAll via later).index.ofDocument? uri = some ds') := by
  have hfolder := (serve_sameFolder via w r).folderTexts_eq
  have heffect := serve_effect via w r
  rw [hedit] at heffect
  cases heffect with
  | edited hindex hindexed =>
    have hkept : (w.serve via r).index.ofDocument? uri = some ds := by
      rw [hindex]
      exact Index.ofDocument?_update_self hds
    have hrun := ofDocument?_serveAll hlater
    rw [hfolder, hindexed, hkept] at hrun
    by_cases hsame : ((w.serve via r).serveAll via later).indexed = w.indexed
    · rw [if_pos hsame] at hrun
      exact ⟨iff_of_true hrun (.inl hsame), fun hne => absurd hsame hne⟩
    · rw [if_neg hsame] at hrun
      have hsaved : ∀ saved ds', LastReadable w.folderTexts uri saved →
          Declaration.ofText uri saved = .ok ds' →
            ((w.serve via r).serveAll via later).index.ofDocument? uri = some ds' := by
        intro saved ds' hlast hds'
        rw [hrun]
        exact Index.ofDocument?_updateAll_of_last hlast hds'
      refine ⟨⟨fun h => .inr fun saved ds' hlast hds' => ?_, fun h => ?_⟩, fun _ => hsaved⟩
      · exact Option.some.inj ((hsaved saved ds' hlast hds').symm.trans h)
      · by_cases hlast : ∃ saved, LastReadable w.folderTexts uri saved
        · obtain ⟨saved, hlast⟩ := hlast
          obtain ⟨ds', hds'⟩ := (readable_iff uri saved).mp hlast.readable
          rw [← h.resolve_left hsame saved ds' hlast hds']
          exact hsaved saved ds' hlast hds'
        · rw [hrun, Index.ofDocument?_updateAll_of_none hlast, hkept]

/-- A folder with one script. -/
def savedFolder : Folder :=
  ⟨"/ws", .directory
    [("a.amchi", .file "chala suru karu; heAhe onDisk; bas re ata;".toUTF8.toList)]⟩

/-- The script is opened with a text that the folder does not have. -/
def openUnsaved : Request :=
  .opened "file:///ws/a.amchi" "chala suru karu; heAhe edited; bas re ata;"

/-- The script is asked for its variable. -/
def askVariable : Request := .hover "file:///ws/a.amchi" 0 24

/-- The declarations of the text in the editor. -/
def editedDeclarations : List Declaration :=
  [⟨"edited", .variable, "file:///ws/a.amchi", 0, "heAhe edited"⟩]

/-- A question before the edit puts the folder into the index, and the edit stays. -/
theorem editor_text_kept_asked :
    let w := (fresh savedFolder true).serve .standard askVariable
    w.edit? .standard openUnsaved =
        some ("file:///ws/a.amchi", "chala suru karu; heAhe edited; bas re ata;") ∧
      ((w.serve .standard openUnsaved).serveAll .standard [askVariable]).index.ofDocument?
          "file:///ws/a.amchi" = some editedDeclarations := by
  intro w
  have hedit : w.edit? .standard openUnsaved =
      some ("file:///ws/a.amchi", "chala suru karu; heAhe edited; bas re ata;") := by
    decide +kernel
  have hds : Declaration.ofText "file:///ws/a.amchi"
      "chala suru karu; heAhe edited; bas re ata;" = .ok editedDeclarations := by
    decide +kernel
  have hindexed :
      ((w.serve .standard openUnsaved).serveAll .standard [askVariable]).indexed = w.indexed := by
    decide +kernel
  exact ⟨hedit, (editor_text_kept_iff .standard w openUnsaved [askVariable] hedit hds nofun).1.mpr
    (.inl hindexed)⟩

/-- A question after the edit puts the folder into the index, and the edit is lost. -/
theorem editor_text_lost :
    let w := ((fresh savedFolder true).serve .standard openUnsaved).serve .standard askVariable
    Declaration.ofText "file:///ws/a.amchi" "chala suru karu; heAhe edited; bas re ata;" =
        .ok editedDeclarations ∧
      w.index.ofDocument? "file:///ws/a.amchi" =
        some [⟨"onDisk", .variable, "file:///ws/a.amchi", 0, "heAhe onDisk"⟩] ∧
      w.index.ofDocument? "file:///ws/a.amchi" ≠ some editedDeclarations := by
  decide +kernel

end Workspace

end Boli
