import Boli.Proofs.ListGrowth

/-!
# Lists that contain themselves

A list may be an element of another one, and in the end of itself.  Then it has no text: the text
of a list holds the texts of its elements, so printing it would never come to an end.

* `Store.Acyclic` says that no list contains itself.  A new list keeps it so, since its elements
  were there before (`Store.Acyclic.newList`).  Appending a value to a list keeps it so, unless the
  list is already found inside the value (`Store.Acyclic.append`).
* `Store.display_cases` says how printing ends: with a text, on a foreign object, or not at all, and
  the last happens only with a list that contains itself.
* `Store.not_loops_of_displayWithin` says that with such a list printing has no text at any depth.
-/

namespace Boli

/-- If the value is a list, it is one of the first `size` ones. -/
def Value.Below (size : Nat) (v : Value) : Prop := ∀ id, v = .list id → id.index < size

theorem Value.Below.mono {size size' : Nat} {v : Value} (h : v.Below size) (hle : size ≤ size') :
    v.Below size' :=
  fun id hv => (h id hv).trans_le hle

namespace Store

open Relation (TransGen ReflTransGen)

variable {s s' : Store} {v : Value} {id : ListId}

/-- The second list is an element of the first one. -/
def Nests (s : Store) (id other : ListId) : Prop := .list other ∈ s.elements id

/-- No list contains itself, be it as an element or through other lists. -/
def Acyclic (s : Store) : Prop := ∀ id, ¬TransGen s.Nests id id

/-- The list is the value, or it is found in the value through elements of lists. -/
def Encloses (s : Store) (v : Value) (id : ListId) : Prop :=
  ∃ root, v = .list root ∧ ReflTransGen s.Nests root id

/-- A list that contains itself is found in the value. -/
def Loops (s : Store) (v : Value) : Prop :=
  ∃ id, s.Encloses v id ∧ TransGen s.Nests id id

/-- A foreign object is the value, or an element of a list that is found in the value. -/
def MeetsForeign (s : Store) (v : Value) : Prop :=
  (∃ object, v = .foreign object) ∨ ∃ id object, s.Encloses v id ∧ .foreign object ∈ s.elements id

/-- If the value is a list, the store has it. -/
def Present (s : Store) (v : Value) : Prop := v.Below s.lists.size

/-- Without cycles no value has a list in it that contains itself. -/
theorem Acyclic.not_loops (h : s.Acyclic) (v : Value) : ¬s.Loops v :=
  fun ⟨id, _, hloop⟩ => h id hloop

/-! ## What keeps a store without cycles -/

/-- Whether there are cycles depends on the lists only. -/
theorem Acyclic.of_lists_eq (h : s.Acyclic) (heq : s'.lists = s.lists) : s'.Acyclic := by
  have hnests : s'.Nests = s.Nests := by
    funext id other
    rw [Nests, Nests, elements, elements, heq]
  rw [Acyclic, hnests]
  exact h

/-- The elements of a new list were there before, and the lists that were there do not have it as an
element. -/
theorem Acyclic.newList (h : s.Acyclic) (hs : ∀ id, ∀ v ∈ s.elements id, s.Present v)
    {vs : Array Value} (hvs : ∀ v ∈ vs, s.Present v) : (s.newList vs).2.Acyclic := by
  have htarget {a b : ListId} (hab : (s.newList vs).2.Nests a b) : s.Has (.list b) := by
    rw [Nests, elements_newList] at hab
    split at hab
    · exact hvs _ hab b rfl
    · exact hs a _ hab b rfl
  have hold {a b : ListId} (ha : s.Has (.list a)) (hab : (s.newList vs).2.Nests a b) :
      s.Nests a b := by
    rwa [Nests, elements_newList, if_neg (Nat.ne_of_lt ha)] at hab
  have hpath {a b : ListId} (ha : s.Has (.list a)) (hab : TransGen (s.newList vs).2.Nests a b) :
      TransGen s.Nests a b ∧ s.Has (.list b) := by
    induction hab with
    | single hab => exact ⟨.single (hold ha hab), htarget hab⟩
    | tail _ hbc ih => exact ⟨ih.1.tail (hold ih.2 hbc), htarget hbc⟩
  intro id hloop
  have hid : s.Has (.list id) := by
    cases hloop with
    | single hstep => exact htarget hstep
    | tail _ hstep => exact htarget hstep
  exact h id (hpath hid hloop).1

/-- Appending makes the value an element, and nothing else. -/
theorem nests_append {a b : ListId} (h : (s.append id v).Nests a b) :
    s.Nests a b ∨ a = id ∧ v = .list b := by
  by_cases heq : a = id
  · rcases mem_elements_append h with hv | hold
    · exact .inr ⟨heq, hv.symm⟩
    · exact .inl hold
  · rw [Nests, elements_append_of_ne s heq] at h
    exact .inl h

/-- A path in the lists with one more element goes without that element, or it comes to the list
that was appended to and goes on from the new element. -/
theorem path_append {a b added : ListId}
    (h : ReflTransGen (s.append id (.list added)).Nests a b) :
    ReflTransGen s.Nests a b ∨ ReflTransGen s.Nests a id ∧ ReflTransGen s.Nests added b := by
  induction h with
  | refl => exact .inl .refl
  | tail _ hstep ih =>
    rcases nests_append hstep with hold | ⟨rfl, hnew⟩
    · exact ih.imp (·.tail hold) fun ⟨hto, hfrom⟩ => ⟨hto, hfrom.tail hold⟩
    · cases hnew
      exact .inr ⟨ih.elim (fun hto => hto) And.left, .refl⟩

/-- Appending makes no cycle, unless the list is already found in the value. -/
theorem Acyclic.append (h : s.Acyclic) (hv : ¬s.Encloses v id) : (s.append id v).Acyclic := by
  intro x hloop
  obtain ⟨y, hxy, hyx⟩ := TransGen.head'_iff.1 hloop
  by_cases hlist : ∃ added, v = .list added
  · obtain ⟨added, rfl⟩ := hlist
    have hfree : ¬ReflTransGen s.Nests added id := fun hpath => hv ⟨added, rfl, hpath⟩
    rcases nests_append hxy with hold | ⟨rfl, hnew⟩
    · rcases path_append hyx with hback | ⟨hto, hfrom⟩
      · exact h x (.head' hold hback)
      · exact hfree ((hfrom.tail hold).trans hto)
    · cases hnew
      rcases path_append hyx with hback | ⟨hto, _⟩
      · exact hfree hback
      · exact hfree hto
  · have hold : ∀ a b, (s.append id v).Nests a b → s.Nests a b :=
      fun a b hab => (nests_append hab).resolve_right fun hnew => hlist ⟨b, hnew.2⟩
    exact h x (TransGen.mono hold _ _ hloop)

/-! ## Printing -/

/-- Only lists and foreign objects can be without a text. -/
theorem displayWithin_error_cases {depth : Nat} {e : Unprintable}
    (h : s.displayWithin depth v = .error e) :
    (∃ id, v = .list id) ∨ e = .foreign ∧ ∃ object, v = .foreign object := by
  cases v with
  | list id => exact .inl ⟨id, rfl⟩
  | foreign object =>
    rw [displayWithin] at h
    cases h
    exact .inr ⟨rfl, object, rfl⟩
  | number x =>
    obtain ⟨text, htext⟩ := Option.isSome_iff_exists.1 (Numeral.isSome_display? x)
    simp [displayWithin, htext] at h
  | null | boolean _ | text _ | function _ =>
    rw [displayWithin] at h
    cases h

/-- Printing that does not come to an end within a depth has gone down that many lists. -/
theorem exists_chain_of_endless {depth : Nat} (h : s.displayWithin depth v = .error .endless) :
    ∃ id ids, v = .list id ∧ List.IsChain s.Nests (id :: ids) ∧ ids.length = depth := by
  induction depth generalizing v with
  | zero =>
    obtain ⟨id, rfl⟩ := (displayWithin_error_cases h).resolve_right (by simp)
    exact ⟨id, [], rfl, by simp, rfl⟩
  | succ depth ih =>
    obtain ⟨id, rfl⟩ := (displayWithin_error_cases h).resolve_right (by simp)
    obtain ⟨w, hw, hendless⟩ := exists_of_displayWithin_error h
    obtain ⟨other, ids, rfl, hchain, rfl⟩ := ih hendless
    exact ⟨id, other :: ids, rfl, List.isChain_cons_cons.2 ⟨hw, hchain⟩, rfl⟩

/-- A list that is found in another one is in the store. -/
theorem has_of_transGen (hs : ∀ id, ∀ v ∈ s.elements id, s.Present v) {a b : ListId}
    (h : TransGen s.Nests a b) : s.Has (.list b) := by
  cases h with
  | single hstep => exact hs a _ hstep b rfl
  | tail _ hstep => exact hs _ _ hstep b rfl

/-- No more different lists can be met than the store has. -/
theorem length_le_of_nodup {ids : List ListId} (hnodup : ids.Nodup)
    (hhas : ∀ id ∈ ids, s.Has (.list id)) : ids.length ≤ s.lists.size := by
  have hindices : (ids.map ListId.index).Nodup :=
    hnodup.map fun a b hab => by cases a; cases b; simp_all
  have hsubset : ids.map ListId.index ⊆ List.range s.lists.size := by
    intro i hi
    obtain ⟨id, hid, rfl⟩ := List.mem_map.1 hi
    exact List.mem_range.2 (hhas id hid)
  have hle := (List.subperm_of_subset hindices hsubset).length_le
  rwa [List.length_map, List.length_range] at hle

/-- If printing a value does not come to an end, it has met a list that contains itself: there are
not enough lists to go down otherwise. -/
theorem loops_of_display (hs : ∀ id, ∀ v ∈ s.elements id, s.Present v) (hv : s.Present v)
    (h : s.display v = .error .endless) : s.Loops v := by
  obtain ⟨id, ids, rfl, hchain, hlength⟩ := exists_chain_of_endless h
  have hpaths : (id :: ids).Pairwise (TransGen s.Nests) :=
    (hchain.imp fun _ _ => TransGen.single).pairwise
  have hbelow : ∀ other ∈ ids, TransGen s.Nests id other :=
    fun _ hmem => List.rel_of_pairwise_cons hpaths hmem
  have hrepeated : ¬(id :: ids).Nodup := by
    intro hnodup
    have hhas : ∀ other ∈ id :: ids, s.Has (.list other) :=
      List.forall_mem_cons.2 ⟨hv id rfl, fun other hmem => has_of_transGen hs (hbelow other hmem)⟩
    have hle := length_le_of_nodup hnodup hhas
    rw [List.length_cons, hlength] at hle
    omega
  obtain ⟨twice, htwice⟩ := List.exists_duplicate_iff_not_nodup.2 hrepeated
  have hloop := hpaths.sublist (List.duplicate_iff_sublist.1 htwice)
  refine ⟨twice, ⟨id, rfl, ?_⟩, by simpa using hloop⟩
  rcases List.mem_cons.1 htwice.mem with rfl | hmem
  · exact .refl
  · exact (hbelow twice hmem).to_reflTransGen

theorem Encloses.of_element {w : Value} {inner : ListId} (h : s.Encloses w inner)
    (hw : w ∈ s.elements id) : s.Encloses (.list id) inner := by
  obtain ⟨root, rfl, hpath⟩ := h
  exact ⟨id, rfl, .head hw hpath⟩

/-- If printing comes to an end without a text, it has met a foreign object. -/
theorem endless_or_meetsForeign {depth : Nat} {e : Unprintable}
    (h : s.displayWithin depth v = .error e) : e = .endless ∨ e = .foreign ∧ s.MeetsForeign v := by
  induction depth generalizing v with
  | zero =>
    rcases displayWithin_error_cases h with ⟨id, rfl⟩ | ⟨rfl, hforeign⟩
    · cases h
      exact .inl rfl
    · exact .inr ⟨rfl, .inl hforeign⟩
  | succ depth ih =>
    rcases displayWithin_error_cases h with ⟨id, rfl⟩ | ⟨rfl, hforeign⟩
    · obtain ⟨w, hw, herror⟩ := exists_of_displayWithin_error h
      refine (ih herror).imp_right fun ⟨he, hmeets⟩ => ⟨he, .inr ?_⟩
      rcases hmeets with ⟨object, rfl⟩ | ⟨inner, object, hinner, hobject⟩
      · exact ⟨id, object, ⟨id, rfl, .refl⟩, hw⟩
      · exact ⟨inner, object, hinner.of_element hw, hobject⟩
    · exact .inr ⟨rfl, .inl hforeign⟩

/-- Printing a value gives a text, or it stops on a foreign object, or it meets a list that contains
itself and does not come to an end. -/
theorem display_cases (hs : ∀ id, ∀ v ∈ s.elements id, s.Present v) (hv : s.Present v) :
    (∃ text, s.display v = .ok text) ∨ (s.display v = .error .foreign ∧ s.MeetsForeign v) ∨
      (s.display v = .error .endless ∧ s.Loops v) := by
  cases hd : s.display v with
  | ok text => exact .inl ⟨text, rfl⟩
  | error e =>
    rcases endless_or_meetsForeign hd with rfl | ⟨rfl, hmeets⟩
    · exact .inr (.inr ⟨rfl, loops_of_display hs hv hd⟩)
    · exact .inr (.inl ⟨rfl, hmeets⟩)

theorem displayAll_ok {display : Value → Except Unprintable String} {vs : List Value}
    {texts : List String} (h : displayAll display vs = .ok texts) :
    ∀ v ∈ vs, ∃ text, display v = .ok text := by
  induction vs generalizing texts with
  | nil => simp
  | cons v vs ih =>
    simp only [displayAll, bind, Except.bind] at h
    cases hv : display v with
    | error e => simp [hv] at h
    | ok text =>
      cases hvs : displayAll display vs with
      | error e => simp [hv, hvs] at h
      | ok rest => exact List.forall_mem_cons.2 ⟨⟨text, hv⟩, ih hvs⟩

/-- A list has a text only if the lists inside it have one at a smaller depth. -/
theorem displayWithin_of_nests {depth : Nat} {text : String} {other : ListId}
    (h : s.displayWithin depth (.list id) = .ok text) (hnests : s.Nests id other) :
    ∃ depth' < depth, ∃ text', s.displayWithin depth' (.list other) = .ok text' := by
  cases depth with
  | zero => cases h
  | succ depth =>
    simp only [displayWithin, bind, Except.bind] at h
    cases hitems : displayAll (s.displayWithin depth) (s.elements id).toList with
    | error e => simp [hitems] at h
    | ok items =>
      exact ⟨depth, depth.lt_succ_self, displayAll_ok hitems _ (Array.mem_toList_iff.2 hnests)⟩

/-- The lists that are found in a list with a text have texts at smaller depths. -/
theorem displayWithin_of_transGen {depth : Nat} {text : String} {other : ListId}
    (h : s.displayWithin depth (.list id) = .ok text) (hpath : TransGen s.Nests id other) :
    ∃ depth' < depth, ∃ text', s.displayWithin depth' (.list other) = .ok text' := by
  induction hpath with
  | single hstep => exact displayWithin_of_nests h hstep
  | tail _ hstep ih =>
    obtain ⟨depth', hlt, text', h'⟩ := ih
    obtain ⟨depth'', hlt', h''⟩ := displayWithin_of_nests h' hstep
    exact ⟨depth'', hlt'.trans hlt, h''⟩

/-- A list that contains itself has no text: there would be one at ever smaller depths. -/
theorem displayWithin_ne_ok (hloop : TransGen s.Nests id id) (depth : Nat) (text : String) :
    s.displayWithin depth (.list id) ≠ .ok text := by
  induction depth using Nat.strong_induction_on generalizing text with
  | _ depth ih =>
    intro h
    obtain ⟨depth', hlt, text', h'⟩ := displayWithin_of_transGen h hloop
    exact ih depth' hlt text' h'

/-- A value that has a text at some depth has no list in it that contains itself. -/
theorem not_loops_of_displayWithin {depth : Nat} {text : String}
    (h : s.displayWithin depth v = .ok text) : ¬s.Loops v := by
  rintro ⟨id, ⟨root, rfl, hpath⟩, hloop⟩
  rcases Relation.reflTransGen_iff_eq_or_transGen.1 hpath with rfl | hpath
  · exact displayWithin_ne_ok hloop depth text h
  · obtain ⟨depth', -, text', h'⟩ := displayWithin_of_transGen h hpath
    exact displayWithin_ne_ok hloop depth' text' h'

end Store

end Boli
