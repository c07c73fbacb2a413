import Mathlib
import Boli.Index.Workspace

/-!
# The index shows the last readable texts

Documents are given texts one after the other.  Whatever the order, and however many of the texts
cannot be read, the index holds for each document the declarations of the last of its texts that can
be read, and its table of names holds the same declarations sorted by name.

* `LastReadable` picks out a text from a history of texts.
* `Index.Consistent` is what every change of an index keeps: the documents are sorted, and the table
  is that of their declarations.
* `Index.Shows` says what is in an index, down to the last entry of its table.
* `Workspace.updateAll_shows` is the result.
-/

namespace Boli

/-! ## Histories -/

/-- The text can be read as a program. -/
def Readable (text : String) : Prop := ∃ p, Program.ofText text = .ok p

/-- A text that can be read has declarations, at any URI. -/
theorem readable_iff (uri text : String) :
    Readable text ↔ ∃ ds, Declaration.ofText uri text = .ok ds := by
  unfold Readable Declaration.ofText
  cases Program.ofText text with
  | ok p => exact ⟨fun _ => ⟨_, rfl⟩, fun _ => ⟨p, rfl⟩⟩
  | error e =>
    constructor
    · rintro ⟨_, h⟩
      cases h
    · rintro ⟨_, h⟩
      cases h

/-- Of the texts that documents were given, this is the last one that the document at a URI got and
that can be read. -/
def LastReadable (history : List (String × String)) (uri text : String) : Prop :=
  ∃ front back, history = front ++ (uri, text) :: back ∧ Readable text ∧
    ∀ later ∈ back, later.1 = uri → ¬Readable later.2

namespace LastReadable

variable {history : List (String × String)} {uri text : String}

/-- The first text of a history is the last readable one only if no later one of its document is
readable. -/
theorem cons_iff {u : String × String} :
    LastReadable (u :: history) uri text ↔ LastReadable history uri text ∨
      u = (uri, text) ∧ Readable text ∧ ∀ later ∈ history, later.1 = uri → ¬Readable later.2 := by
  constructor
  · rintro ⟨front, back, heq, hread, hback⟩
    cases front with
    | nil =>
      obtain ⟨rfl, rfl⟩ := List.cons.inj heq
      exact .inr ⟨rfl, hread, hback⟩
    | cons v front =>
      obtain ⟨rfl, rfl⟩ := List.cons.inj heq
      exact .inl ⟨front, back, rfl, hread, hback⟩
  · rintro (⟨front, back, rfl, hread, hback⟩ | ⟨rfl, hread, hback⟩)
    · exact ⟨u :: front, back, rfl, hread, hback⟩
    · exact ⟨[], history, rfl, hread, hback⟩

theorem readable (h : LastReadable history uri text) : Readable text := by
  obtain ⟨_, _, _, hread, _⟩ := h
  exact hread

theorem not_nil : ¬LastReadable [] uri text := by
  rintro ⟨front, back, heq, -⟩
  cases front <;> cases heq

/-- Among the readable texts of a document there is a last one. -/
theorem exists_iff :
    (∃ text, LastReadable history uri text) ↔ ∃ text, (uri, text) ∈ history ∧ Readable text := by
  constructor
  · rintro ⟨text, front, back, rfl, hread, -⟩
    exact ⟨text, List.mem_append_right _ List.mem_cons_self, hread⟩
  · rintro ⟨text, hmem, hread⟩
    induction history generalizing text with
    | nil => cases hmem
    | cons u history ih =>
      by_cases hlater : ∃ text, (uri, text) ∈ history ∧ Readable text
      · obtain ⟨text, hmem, hread⟩ := hlater
        obtain ⟨last, hlast⟩ := ih text hmem hread
        exact ⟨last, cons_iff.mpr (.inl hlast)⟩
      · have hu : u = (uri, text) :=
          ((List.mem_cons.mp hmem).resolve_right fun h => hlater ⟨text, h, hread⟩).symm
        refine ⟨text, cons_iff.mpr (.inr ⟨hu, hread, fun later hmem heq hread => ?_⟩)⟩
        exact hlater ⟨later.2, heq ▸ hmem, hread⟩

end LastReadable

/-! ## Tables of names -/

namespace Index

/-- In a table without double keys, the entries are what can be looked up. -/
theorem mem_iff_lookup {l : List (String × List Declaration)} (h : (l.map Prod.fst).Nodup)
    (k : String) (ds : List Declaration) : (k, ds) ∈ l ↔ l.lookup k = some ds := by
  induction l with
  | nil => simp
  | cons e rest ih =>
    obtain ⟨n, old⟩ := e
    obtain ⟨hn, hrest⟩ := List.nodup_cons.mp h
    rw [lookup_cons, List.mem_cons, ih hrest, Prod.mk.injEq]
    by_cases hk : k = n
    · subst hk
      have hnone : (k, ds) ∉ rest := fun hmem => hn (List.mem_map.mpr ⟨_, hmem, rfl⟩)
      rw [ih hrest] at hnone
      simp [hnone, eq_comm]
    · simp [hk]

/-- A declaration goes to the end of the entry of its name. -/
theorem lookup_enter (d : Declaration) (name : String)
    (table : List (String × List Declaration)) :
    (enter d table).lookup name =
      if name = d.name then some ((table.lookup name).getD [] ++ [d]) else table.lookup name := by
  induction table with
  | nil => rw [enter, lookup_cons]; rfl
  | cons e rest ih =>
    obtain ⟨n, ds⟩ := e
    by_cases hn : n = d.name
    · subst hn
      rw [enter, if_pos rfl, lookup_cons, lookup_cons]
      split <;> rfl
    · rw [enter, if_neg hn, lookup_cons, lookup_cons, ih]
      by_cases hname : name = n
      · have hne : name ≠ d.name := fun h => hn (hname.symm.trans h)
        rw [if_pos hname, if_neg hne, if_pos hname]
      · rw [if_neg hname, if_neg hname]

/-- A name that is new comes behind the others. -/
theorem keys_enter (d : Declaration) (table : List (String × List Declaration)) :
    (enter d table).map Prod.fst =
      if d.name ∈ table.map Prod.fst then table.map Prod.fst
      else table.map Prod.fst ++ [d.name] := by
  induction table with
  | nil => simp [enter]
  | cons e rest ih =>
    obtain ⟨n, ds⟩ := e
    by_cases hn : n = d.name
    · simp [enter, hn]
    · have hn' : ¬d.name = n := fun h => hn h.symm
      simp only [enter, if_neg hn, List.map_cons, ih, List.mem_cons, hn', false_or]
      split <;> simp

theorem tabulate_concat (ds : List Declaration) (d : Declaration) :
    tabulate (ds ++ [d]) = enter d (tabulate ds) := by
  rw [tabulate, List.foldl_append]
  rfl

/-- The entry of a name in the table of some declarations. -/
theorem lookup_tabulate (ds : List Declaration) (name : String) :
    (tabulate ds).lookup name =
      if ds.filter (·.name = name) = [] then none else some (ds.filter (·.name = name)) := by
  induction ds using List.reverseRecOn with
  | nil => rfl
  | append_singleton ds d ih =>
    rw [tabulate_concat, lookup_enter, ih, List.filter_append]
    by_cases hd : d.name = name
    · have hcons : [d].filter (·.name = name) = [d] := by simp [hd]
      have hne : ds.filter (·.name = name) ++ [d] ≠ [] := List.concat_ne_nil _ _
      rw [if_pos hd.symm, hcons, if_neg hne]
      by_cases hnil : ds.filter (·.name = name) = []
      · rw [if_pos hnil, hnil]
        rfl
      · rw [if_neg hnil]
        rfl
    · have hnil : [d].filter (·.name = name) = [] := by simp [hd]
      rw [if_neg (Ne.symm hd), hnil, List.append_nil]

/-- A table has one entry for each name. -/
theorem nodup_tabulate (ds : List Declaration) : ((tabulate ds).map Prod.fst).Nodup := by
  induction ds using List.reverseRecOn with
  | nil => exact List.nodup_nil
  | append_singleton ds d ih =>
    rw [tabulate_concat, keys_enter]
    split
    · exact ih
    · next hnew =>
      refine List.nodup_append.mpr ⟨ih, List.nodup_singleton _, fun a ha b hb => ?_⟩
      rintro rfl
      exact hnew (List.mem_singleton.mp hb ▸ ha)

/-! ## Sorted documents -/

/-- The documents are sorted by URI. -/
abbrev Sorted (documents : List (String × List Declaration)) : Prop :=
  documents.Pairwise fun a b => a.1 < b.1

theorem Sorted.nodup {documents : List (String × List Declaration)} (h : Sorted documents) :
    (documents.map Prod.fst).Nodup :=
  List.Pairwise.imp ne_of_lt (List.pairwise_map.mpr h)

theorem mem_insert_imp {uri : String} {ds : List Declaration}
    {documents : List (String × List Declaration)} {e : String × List Declaration}
    (h : e ∈ insert uri ds documents) : e = (uri, ds) ∨ e ∈ documents := by
  induction documents with
  | nil => exact .inl (List.mem_singleton.mp h)
  | cons d rest ih =>
    obtain ⟨u, old⟩ := d
    rw [insert] at h
    split at h
    · exact (List.mem_cons.mp h).imp_right (List.mem_cons_of_mem _)
    · split at h
      · exact List.mem_cons.mp h
      · rcases List.mem_cons.mp h with rfl | h
        · exact .inr List.mem_cons_self
        · exact (ih h).imp_right (List.mem_cons_of_mem _)

/-- A document is put where it belongs. -/
theorem sorted_insert (uri : String) (ds : List Declaration)
    {documents : List (String × List Declaration)} (h : Sorted documents) :
    Sorted (insert uri ds documents) := by
  induction documents with
  | nil => exact List.pairwise_singleton _ _
  | cons d rest ih =>
    obtain ⟨u, old⟩ := d
    obtain ⟨hu, hrest⟩ := List.pairwise_cons.mp h
    rw [insert]
    split
    · next heq =>
      subst heq
      exact List.pairwise_cons.mpr ⟨hu, hrest⟩
    · next hne =>
      split
      · next hlt =>
        refine List.pairwise_cons.mpr ⟨fun e he => ?_, h⟩
        rcases List.mem_cons.mp he with rfl | he
        · exact hlt
        · exact lt_trans hlt (hu e he)
      · next hnlt =>
        refine List.pairwise_cons.mpr ⟨fun e he => ?_, ih hrest⟩
        rcases mem_insert_imp he with rfl | he
        · exact lt_of_le_of_ne (le_of_not_gt hnlt) (Ne.symm hne)
        · exact hu e he

/-- Sorted documents are told apart by looking them up. -/
theorem Sorted.eq_of_lookup {documents documents' : List (String × List Declaration)}
    (h : Sorted documents) (h' : Sorted documents')
    (hlookup : ∀ uri, documents.lookup uri = documents'.lookup uri) : documents = documents' := by
  have hirrefl : Std.Irrefl fun a b : String × List Declaration => a.1 < b.1 :=
    ⟨fun a => lt_irrefl a.1⟩
  have hantisymm : Std.Antisymm fun a b : String × List Declaration => a.1 < b.1 :=
    ⟨fun a b hab hba => absurd hba (lt_asymm hab)⟩
  refine List.Pairwise.eq_of_mem_iff h h' fun ⟨uri, ds⟩ => ?_
  rw [mem_iff_lookup h.nodup, mem_iff_lookup h'.nodup, hlookup]

/-! ## Consistency -/

/-- The documents are sorted by URI, and the table is that of their declarations. -/
structure Consistent (index : Index) : Prop where
  sorted : Sorted index.documents
  table : index.table = tabulate (index.documents.flatMap (·.2))

theorem consistent_empty : Consistent {} :=
  ⟨List.Pairwise.nil, rfl⟩

/-- A text, readable or not, keeps the index consistent. -/
theorem Consistent.update {index : Index} (h : index.Consistent) (uri text : String) :
    (index.update uri text).Consistent := by
  unfold Index.update
  cases Declaration.ofText uri text with
  | ok ds => exact ⟨sorted_insert uri ds h.sorted, rfl⟩
  | error e => exact h

/-- A consistent index is known by what it holds of each document. -/
theorem Consistent.eq_of_ofDocument? {index index' : Index} (h : index.Consistent)
    (h' : index'.Consistent) (hsame : ∀ uri, index.ofDocument? uri = index'.ofDocument? uri) :
    index = index' := by
  have hdocuments : index.documents = index'.documents := h.sorted.eq_of_lookup h'.sorted hsame
  have htable : index.table = index'.table := by rw [h.table, h'.table, hdocuments]
  cases index
  cases index'
  exact congrArg₂ Index.mk hdocuments htable

/-! ## Texts one after the other -/

/-- Gives documents texts one after the other. -/
def updateAll (index : Index) (history : List (String × String)) : Index :=
  history.foldl (fun index u => index.update u.1 u.2) index

theorem updateAll_append (index : Index) (front back : List (String × String)) :
    index.updateAll (front ++ back) = (index.updateAll front).updateAll back :=
  List.foldl_append

/-- So do any number of texts. -/
theorem Consistent.updateAll {index : Index} (h : index.Consistent)
    (history : List (String × String)) : (index.updateAll history).Consistent := by
  induction history generalizing index with
  | nil => exact h
  | cons u history ih => exact ih (h.update u.1 u.2)

variable {index : Index} {history : List (String × String)} {uri text : String}
  {ds : List Declaration}

/-- A readable text gives a document its declarations. -/
theorem ofDocument?_update_self (h : Declaration.ofText uri text = .ok ds) :
    (index.update uri text).ofDocument? uri = some ds := by
  rw [Index.update, h]
  exact (ofDocument?_put index uri uri ds).trans (if_pos rfl)

/-- Nothing else does. -/
theorem ofDocument?_update_of_not {u : String} (h : u = uri → ¬Readable text) :
    (index.update u text).ofDocument? uri = index.ofDocument? uri := by
  unfold Index.update
  cases heq : Declaration.ofText u text with
  | error e => rfl
  | ok ds =>
    have hne : uri ≠ u := fun e => h e.symm ((readable_iff u text).mpr ⟨ds, heq⟩)
    exact (ofDocument?_put index u uri ds).trans (if_neg hne)

/-- Texts that cannot be read, and texts of other documents, leave a document as it is. -/
theorem ofDocument?_updateAll_of_not (h : ∀ u ∈ history, u.1 = uri → ¬Readable u.2) :
    (index.updateAll history).ofDocument? uri = index.ofDocument? uri := by
  induction history generalizing index with
  | nil => rfl
  | cons u history ih =>
    calc ((index.update u.1 u.2).updateAll history).ofDocument? uri
      _ = (index.update u.1 u.2).ofDocument? uri := ih fun v hv => h v (List.mem_cons_of_mem u hv)
      _ = index.ofDocument? uri := ofDocument?_update_of_not (h u List.mem_cons_self)

/-- The last readable text of a document counts. -/
theorem ofDocument?_updateAll_of_last (h : LastReadable history uri text)
    (hds : Declaration.ofText uri text = .ok ds) :
    (index.updateAll history).ofDocument? uri = some ds := by
  obtain ⟨front, back, rfl, -, hback⟩ := h
  rw [updateAll_append]
  exact (ofDocument?_updateAll_of_not hback).trans (ofDocument?_update_self hds)

/-- Without a readable text a document stays as it was. -/
theorem ofDocument?_updateAll_of_none (h : ¬∃ text, LastReadable history uri text) :
    (index.updateAll history).ofDocument? uri = index.ofDocument? uri := by
  rw [LastReadable.exists_iff] at h
  refine ofDocument?_updateAll_of_not ?_
  rintro ⟨_, text⟩ hu rfl hread
  exact h ⟨text, hu, hread⟩

/-! ## What an index shows -/

/-- All declarations, by URI and then in the order of their document. -/
def declarations (index : Index) : List Declaration :=
  index.uris.flatMap fun uri => (index.ofDocument? uri).getD []

/-- The index holds what is to be seen of some texts that documents were given one after the other.
-/
structure Shows (index : Index) (history : List (String × String)) : Prop where
  /-- A document is there with the declarations of its last readable text, or not at all. -/
  documents : ∀ uri ds, index.ofDocument? uri = some ds ↔
    ∃ text, LastReadable history uri text ∧ Declaration.ofText uri text = .ok ds
  /-- The documents are those with a readable text. -/
  mem_uris : ∀ uri, uri ∈ index.uris ↔ ∃ text, (uri, text) ∈ history ∧ Readable text
  /-- The documents are sorted by URI, and each is there once. -/
  uris : index.uris.Pairwise (· < ·)
  /-- A name is in the table with all its declarations in their order, or not at all. -/
  table : ∀ name ds, (name, ds) ∈ index.table ↔
    ds ≠ [] ∧ ds = index.declarations.filter (·.name = name)
  /-- Each name is in the table once. -/
  once : (index.table.map (·.1)).Nodup
  /-- The first declaration of a name is found. -/
  lookup : ∀ word, index.lookup word = index.declarations.find? (·.name = word)

/-- The URIs of an index are those of the documents that it holds. -/
theorem mem_uris_iff (index : Index) (uri : String) :
    uri ∈ index.uris ↔ ∃ ds, index.ofDocument? uri = some ds := by
  rw [← Option.isSome_iff_exists, ofDocument?, List.lookup_isSome_iff, uris, List.mem_map]
  simp only [beq_iff_eq, eq_comm (a := uri)]

/-- Going through the documents is going through their URIs. -/
theorem Consistent.flatMap_documents (h : index.Consistent) :
    index.documents.flatMap (·.2) = index.declarations := by
  rw [declarations, uris, List.flatMap_map]
  refine List.flatMap_congr fun e he => ?_
  have hlookup : index.ofDocument? e.1 = some e.2 := (mem_iff_lookup h.sorted.nodup e.1 e.2).mp he
  rw [hlookup]
  rfl

/-- The entry of a name has all declarations of that name, and there is none if there are none. -/
theorem Consistent.lookup_table (h : index.Consistent) (name : String) :
    index.table.lookup name =
      if index.declarations.filter (·.name = name) = [] then none
      else some (index.declarations.filter (·.name = name)) := by
  rw [h.table, lookup_tabulate, h.flatMap_documents]

/-- What is found for a name are the declarations of that name. -/
theorem Consistent.named_eq (h : index.Consistent) (name : String) :
    index.named name = index.declarations.filter (·.name = name) := by
  rw [named, h.lookup_table]
  split
  · next hnil => rw [hnil]; rfl
  · rfl

/-- The table has nothing but entries of names that are declared. -/
theorem Consistent.mem_table (h : index.Consistent) (name : String) (ds : List Declaration) :
    (name, ds) ∈ index.table ↔ ds ≠ [] ∧ ds = index.declarations.filter (·.name = name) := by
  have hnodup : (index.table.map Prod.fst).Nodup := h.table ▸ nodup_tabulate _
  rw [mem_iff_lookup hnodup, h.lookup_table]
  by_cases hnil : index.declarations.filter (·.name = name) = []
  · rw [if_pos hnil, hnil]
    exact ⟨nofun, fun ⟨hne, heq⟩ => absurd heq hne⟩
  · rw [if_neg hnil, Option.some.injEq]
    exact ⟨fun heq => ⟨heq ▸ hnil, heq.symm⟩, fun ⟨_, heq⟩ => heq.symm⟩

/-- From an empty index on, all texts are shown. -/
theorem shows_updateAll (history : List (String × String)) :
    (updateAll {} history).Shows history := by
  have hconsistent := consistent_empty.updateAll history
  have hdocuments : ∀ uri ds, (updateAll {} history).ofDocument? uri = some ds ↔
      ∃ text, LastReadable history uri text ∧ Declaration.ofText uri text = .ok ds := by
    intro uri ds
    constructor
    · intro hds
      by_cases hlast : ∃ text, LastReadable history uri text
      · obtain ⟨text, hlast⟩ := hlast
        obtain ⟨ds', hds'⟩ := (readable_iff uri text).mp hlast.readable
        obtain rfl := Option.some.inj (hds.symm.trans (ofDocument?_updateAll_of_last hlast hds'))
        exact ⟨text, hlast, hds'⟩
      · rw [ofDocument?_updateAll_of_none hlast] at hds
        cases hds
    · rintro ⟨text, hlast, hds⟩
      exact ofDocument?_updateAll_of_last hlast hds
  refine ⟨hdocuments, fun uri => ?_, List.pairwise_map.mpr hconsistent.sorted,
    hconsistent.mem_table, hconsistent.table ▸ nodup_tabulate _, fun word => ?_⟩
  · rw [mem_uris_iff, ← LastReadable.exists_iff]
    constructor
    · rintro ⟨ds, hds⟩
      obtain ⟨text, hlast, -⟩ := (hdocuments uri ds).mp hds
      exact ⟨text, hlast⟩
    · rintro ⟨text, hlast⟩
      obtain ⟨ds, hds⟩ := (readable_iff uri text).mp hlast.readable
      exact ⟨ds, (hdocuments uri ds).mpr ⟨text, hlast, hds⟩⟩
  · rw [Index.lookup, hconsistent.named_eq, List.head?_filter]

end Index

/-! ## Workspaces -/

namespace Workspace

/-- A workspace in which nothing has happened. -/
def fresh (folder : Folder) (isOpen : Bool) : Workspace where
  folder := folder
  isOpen := isOpen

/-- Gives documents texts one after the other. -/
def updateAll (w : Workspace) (history : List (String × String)) : Workspace :=
  history.foldl (fun w u => w.update u.1 u.2) w

/-- The index of a workspace gets what the workspace gets. -/
theorem index_updateAll (w : Workspace) (history : List (String × String)) :
    (w.updateAll history).index = w.index.updateAll history := by
  induction history generalizing w with
  | nil => rfl
  | cons u history ih =>
    calc ((w.update u.1 u.2).updateAll history).index
      _ = (w.update u.1 u.2).index.updateAll history := ih _
      _ = w.index.updateAll (u :: history) := by rw [index_update]; rfl

/-- From a fresh workspace on, the index shows the texts that documents were given.  Where the same
texts are the last readable ones, the whole index is the same.  A text that cannot be read is
logged, and nothing else changes. -/
theorem updateAll_shows (folder : Folder) (isOpen : Bool) (history : List (String × String)) :
    ((fresh folder isOpen).updateAll history).index.Shows history ∧
    (∀ history', (∀ uri text, LastReadable history' uri text ↔ LastReadable history uri text) →
      ((fresh folder isOpen).updateAll history').index =
        ((fresh folder isOpen).updateAll history).index) ∧
    ∀ uri text e, Program.ofText text = .error e →
      ((fresh folder isOpen).updateAll history).update uri text =
        { (fresh folder isOpen).updateAll history with
          log := ((fresh folder isOpen).updateAll history).log.push (.notIndexed uri e) } := by
  refine ⟨?_, fun history' hsame => ?_, fun uri text e he => ?_⟩
  · rw [index_updateAll]
    exact Index.shows_updateAll history
  · rw [index_updateAll, index_updateAll]
    refine (Index.consistent_empty.updateAll history').eq_of_ofDocument?
      (Index.consistent_empty.updateAll history) fun uri => Option.ext fun ds => ?_
    refine ((Index.shows_updateAll history').documents uri ds).trans
      (.trans ?_ ((Index.shows_updateAll history).documents uri ds).symm)
    simp only [hsame]
  · have hds : Declaration.ofText uri text = .error e := by rw [Declaration.ofText, he]; rfl
    rw [update, hds]

/-- A function and a variable of one name come up in two documents, one of which is given a text
that cannot be read. -/
def twoDocuments : List (String × String) :=
  [("b", "chala suru karu; heAhe x; bas re ata;"), ("a", "chala suru karu; heAhe y; bas re ata;"),
    ("b", "heAhe"), ("a", "chala suru karu; kaamKar x() \x7b\x7d bas re ata;")]

/-- The last readable texts of the two documents. -/
def lastTexts : List (String × String) :=
  [("a", "chala suru karu; kaamKar x() \x7b\x7d bas re ata;"),
    ("b", "chala suru karu; heAhe x; bas re ata;")]

theorem updateAll_shows_twoDocuments :
    (∀ uri text, LastReadable lastTexts uri text ↔ LastReadable twoDocuments uri text) ∧
      ((fresh ⟨"/ws", .directory []⟩ false).updateAll twoDocuments).index.Shows twoDocuments ∧
      ((fresh ⟨"/ws", .directory []⟩ false).updateAll lastTexts).index =
        ((fresh ⟨"/ws", .directory []⟩ false).updateAll twoDocuments).index ∧
      ∃ e, Program.ofText "heAhe" = .error e ∧
        ((fresh ⟨"/ws", .directory []⟩ false).updateAll twoDocuments).update "b" "heAhe" =
          { (fresh ⟨"/ws", .directory []⟩ false).updateAll twoDocuments with
            log := ((fresh ⟨"/ws", .directory []⟩ false).updateAll twoDocuments).log.push
              (.notIndexed "b" e) } := by
  obtain ⟨hshows, hsame, hchange⟩ := updateAll_shows ⟨"/ws", .directory []⟩ false twoDocuments
  have hbad : ∃ e, Program.ofText "heAhe" = .error e := ⟨_, by cbv⟩
  have hunreadable : ¬Readable "heAhe" := by
    rintro ⟨p, hp⟩
    obtain ⟨e, he⟩ := hbad
    cases he.symm.trans hp
  have hx : Readable "chala suru karu; heAhe x; bas re ata;" := ⟨_, by cbv⟩
  have hf : Readable "chala suru karu; kaamKar x() \x7b\x7d bas re ata;" := ⟨_, by cbv⟩
  have hlast : ∀ uri text,
      LastReadable lastTexts uri text ↔ LastReadable twoDocuments uri text := by
    intro uri text
    simp only [twoDocuments, lastTexts, LastReadable.cons_iff, LastReadable.not_nil,
      List.forall_mem_cons, Prod.mk.injEq]
    constructor
    · rintro ((h | ⟨⟨rfl, rfl⟩, -⟩) | ⟨⟨rfl, rfl⟩, -⟩)
      · cases h
      · simp [hx, hunreadable]
      · simp [hf]
    · rintro ((((h | ⟨⟨rfl, rfl⟩, -⟩) | ⟨⟨rfl, rfl⟩, hread, -⟩) | ⟨⟨rfl, rfl⟩, -, hlater⟩) |
        ⟨⟨rfl, rfl⟩, -⟩)
      · cases h
      · simp [hf]
      · exact absurd hread hunreadable
      · exact absurd hf (hlater.2.1 rfl)
      · simp [hx]
  obtain ⟨e, he⟩ := hbad
  exact ⟨hlast, hshows, hsame lastTexts hlast, e, he, hchange "b" "heAhe" e he⟩

end Workspace

end Boli
