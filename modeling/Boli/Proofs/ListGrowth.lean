import Boli.Proofs.Frame
import Boli.Proofs.Links
import Boli.Proofs.Operators

/-!
# Lists only grow

A list that is in the store stays there, and its elements stay in place.  New elements come behind
the old ones, and only by the function of the language that appends to a list.

To tell which elements come when, a run is repeated with a record of that function's calls
(`Engine.recording`).  It is the same run, and the elements of each list afterwards are those from
before and then, in order, what the record has for the list.

* `Store.Lengthens` compares the lists of two stores by such a record.
* `Action.Spares` says that an action leaves all lists as they are, though it may make new ones.
* `Action.Recorded` compares an action with one that keeps a record, and `Engine.links_recording`
  has it for all parts of a run.
-/

namespace Boli

/-! ## Records -/

/-- What was put at the end of which list, in order. -/
abbrev Additions := List (ListId × Value)

/-- What was put at the end of one list. -/
def Additions.to (a : Additions) (id : ListId) : List Value :=
  a.filterMap fun (target, v) => if target = id then some v else none

namespace Store

variable {s s' s'' : Store} {a b : Additions}

/-- Each list of the first store is in the second one too, where it has the additions behind its
elements. -/
def Lengthens (a : Additions) (s s' : Store) : Prop :=
  ∀ id, s.Has (.list id) → s'.Has (.list id) ∧
    (s'.elements id).toList = (s.elements id).toList ++ a.to id

namespace Lengthens

theorem of_lists_eq (h : s'.lists = s.lists) : Lengthens [] s s' := by
  intro id hid
  constructor
  · rw [Has, h]
    exact hid
  · rw [elements, elements, h]
    simp [Additions.to]

theorem refl (s : Store) : Lengthens [] s s :=
  of_lists_eq rfl

/-- What was added first stands in front of what was added later. -/
theorem trans (h : Lengthens a s s') (h' : Lengthens b s' s'') : Lengthens (a ++ b) s s'' := by
  intro id hid
  obtain ⟨hid', helements⟩ := h id hid
  obtain ⟨hid'', helements'⟩ := h' id hid'
  refine ⟨hid'', ?_⟩
  rw [helements', helements, List.append_assoc, Additions.to, Additions.to, Additions.to,
    List.filterMap_append]

end Lengthens

/-- A new list is none of those that there are. -/
theorem lengthens_newList (s : Store) (vs : Array Value) : Lengthens [] s (s.newList vs).2 := by
  intro id hid
  refine ⟨has_newList.2 (.inl hid), ?_⟩
  rw [elements_newList, if_neg (Nat.ne_of_lt hid)]
  simp [Additions.to]

/-- Other lists do not notice that one gets an element. -/
theorem elements_append_of_ne (s : Store) {id other : ListId} (h : other ≠ id) (v : Value) :
    (s.append id v).elements other = s.elements other := by
  have hne : ¬id.index = other.index := fun heq => h (by cases id; cases other; simp_all)
  simp only [elements, append, Array.getElem?_modify, if_neg hne]

/-- The list that is appended to has the value behind its elements. -/
theorem lengthens_append (s : Store) (id : ListId) (v : Value) :
    Lengthens [(id, v)] s (s.append id v) := by
  intro other hother
  refine ⟨has_append.2 hother, ?_⟩
  by_cases heq : other = id
  · subst heq
    rw [elements_append s other other v hother, if_pos rfl]
    simp [Additions.to]
  · have hne : ¬id = other := fun h => heq h.symm
    rw [elements_append_of_ne s heq]
    simp [Additions.to, hne]

/-- Binding names leaves the lists alone. -/
theorem lists_defineAll (scope : ScopeId) (bs : List (String × Value)) (s : Store) :
    (s.defineAll scope bs).lists = s.lists := by
  induction bs generalizing s with
  | nil => rfl
  | cons b bs ih => exact ih _

end Store

/-! ## Steps that leave lists alone -/

namespace Action

variable {α β : Type} {x : Action α}

/-- The action leaves all lists that there are as they are. -/
def Spares (x : Action α) : Prop :=
  ∀ m : Machine, m.store.Lengthens [] (after x m).store

namespace Spares

theorem of_lists_eq (h : ∀ m, (after x m).store.lists = m.store.lists) : Spares x :=
  fun m => .of_lists_eq (h m)

theorem pure (a : α) : Spares (pure a) :=
  fun m => .refl m.store

theorem throw (e : Stop) : Spares (throw e : Action α) :=
  fun m => .refl m.store

theorem fail (cause : Cause) (line : Line) : Spares (Action.fail cause line : Action α) :=
  throw _

/-- Two actions that spare the lists spare them together. -/
theorem bind {f : α → Action β} (hx : Spares x) (hf : ∀ a, Spares (f a)) : Spares (x >>= f) := by
  intro m
  have hfirst := hx m
  cases heq : x m with
  | error e m' =>
    rw [after, heq] at hfirst
    rwa [after_bind_error heq]
  | ok a m' =>
    rw [after, heq] at hfirst
    rw [after_bind_ok heq]
    exact hfirst.trans (hf a m')

theorem get {f : Machine → Action β} (hf : ∀ m, Spares (f m)) : Spares (get >>= f) :=
  fun m => hf m m

end Spares

theorem display_spares (v : Value) : Spares (display v) := by
  refine .get fun m => ?_
  split
  · exact .pure _
  · exact .throw _
  · exact .throw _
  · exact .throw _

theorem newList_spares (vs : Array Value) : Spares (newList vs) :=
  fun m => Store.lengthens_newList m.store vs

theorem write_spares (text : String) : Spares (write text) := by
  refine .of_lists_eq fun m => ?_
  unfold after write
  cases m.sink.room with
  | none => rfl
  | some room => cases room <;> rfl

/-- What operators are made of leaves the lists alone. -/
theorem spares_spreads (line : Line) : Spreads line line (fun (_ : Unit) _ x _ => Spares x)
    (fun _ _ => True) (fun _ _ => True) where
  pure _ := .pure _
  fail _ := .fail _ line
  host _ := .throw _
  bind hx hf := hx.bind fun a => hf () a le_rfl
  look hf _ := .get fun m => hf () m le_rfl trivial
  display := display_spares
  newList _ := newList_spares _
  setInput _ := .of_lists_eq fun _ => rfl
  lasting _ _ := trivial
  plain _ := trivial
  elements _ _ := trivial

/-- Of the steps of a run, only calls of functions of the language can lengthen a list. -/
theorem spares_of_elementary (h : x.Elementary) : Spares x := by
  cases h with
  | fail cause line => exact .fail cause line
  | unfinished => exact .throw _
  | lookup scope name line =>
    refine .get fun m => ?_
    cases m.store.lookup? scope name with
    | some v => exact .pure v
    | none => exact .fail _ line
  | binary op v w line => exact (spares_spreads line).binary (w := ()) op trivial trivial
  | unary op v line => exact (spares_spreads line).unary (w := ()) op v
  | requireIndexable v line => exact (spares_spreads line).requireIndexable (w := ()) v
  | element v i line => exact (spares_spreads line).element (w := ()) v i
  | typeOf v => exact (spares_spreads none).typeOf (w := ()) v
  | truth v => exact (spares_spreads none).truth (w := ()) v
  | display v => exact display_spares v
  | write text => exact write_spares text
  | newList vs => exact newList_spares vs
  | leave c signal =>
    cases signal with
    | normal | giveBack v => exact .pure _
    | stop | skip => exact .fail _ none

/-! ## Names and functions -/

theorem define_spares (scope : ScopeId) (name : String) (v : Value) :
    Spares (define scope name v) :=
  .of_lists_eq fun _ => rfl

theorem assign_spares (scope : ScopeId) (name : String) (v : Value) (line : Line) :
    Spares (assign scope name v line) := by
  refine .get fun m => ?_
  cases m.store.resolve? scope name with
  | some target => exact define_spares target name v
  | none => exact .fail _ line

theorem newFunction_spares (c : Closure) : Spares (newFunction c) :=
  .of_lists_eq fun _ => rfl

theorem functionNamed_spares (scope : ScopeId) (name : String) (line : Line) :
    Spares (functionNamed scope name line) := by
  refine .get fun m => ?_
  dsimp only
  split
  · split
    · exact .pure _
    · exact .fail _ line
  · exact .fail _ line

theorem enter_spares (c : Closure) (args : List Value) : Spares (enter c args) :=
  .of_lists_eq fun _ => Store.lists_defineAll _ _ _

end Action

/-! ## Runs with a record -/

/-- What a function of the language puts at the end of which list. -/
def Builtin.added : Builtin → List Value → Additions
  | append, [.list id, v] => [(id, v)]
  | _, _ => []

/-- A step of a script that is run with a record of what is put at the end of which list. -/
abbrev Recording := EStateM Stop (Machine × Additions)

namespace Recording

variable {α : Type}

/-- The end of an action, with a record. -/
def noting (r : Additions) :
    EStateM.Result Stop Machine α → EStateM.Result Stop (Machine × Additions) α
  | .ok a m => .ok a (m, r)
  | .error e m => .error e (m, r)

/-- A step that adds nothing to the record. -/
def lift (x : Action α) : Recording α := fun (m, r) => noting r (x m)

/-- Adds to the record. -/
def note (a : Additions) : Recording Unit := modify fun (m, r) => (m, r ++ a)

end Recording

/-- The parts of running, with a record of the calls that append to a list. -/
def Engine.recording : Engine Recording where
  step := Recording.lift
  callee scope name line := Recording.lift (builtinsFirst scope name line)
  builtin b args line := do
    let v ← Recording.lift (Action.builtin b args line)
    Recording.note (b.added args)
    return v

namespace Action

open Recording

variable {α β : Type} {V : α → Prop} {W : β → Prop} {x : Recording α} {y : Action α}

/-- The first action does what the second one does.  What it adds to the record is what the lists
that there are have grown by.  A value is as described by `V`. -/
def Recorded (V : α → Prop) (x : Recording α) (y : Action α) : Prop :=
  ∀ (m : Machine) r, ∃ a, x (m, r) = noting (r ++ a) (y m) ∧ m.store.Lengthens a (after y m).store ∧
    ∀ v m', y m = .ok v m' → V v

namespace Recorded

theorem lift (h : Spares y) (hV : ∀ m v m', y m = .ok v m' → V v) : Recorded V (lift y) y :=
  fun m r => ⟨[], by rw [List.append_nil]; rfl, h m, hV m⟩

theorem pure {v : α} (h : V v) : Recorded V (pure v) (pure v) := by
  refine lift (Spares.pure v) fun m v' m' heq => ?_
  cases heq
  exact h

/-- The entries of the second part come behind those of the first. -/
theorem bind {f : α → Recording β} {g : α → Action β} (h : Recorded V x y)
    (hf : ∀ v, V v → Recorded W (f v) (g v)) : Recorded W (x >>= f) (y >>= g) := by
  intro m r
  obtain ⟨a, hx, hfirst, hV⟩ := h m r
  cases hy : y m with
  | error e m' =>
    rw [after, hy] at hfirst
    rw [hy] at hx
    refine ⟨a, ?_, ?_, fun w m'' heq => ?_⟩
    · rw [bind_of_error hx, bind_of_error hy]
      rfl
    · rwa [after_bind_error hy]
    · cases (bind_of_error hy).symm.trans heq
  | ok v m' =>
    rw [after, hy] at hfirst
    rw [hy] at hx
    obtain ⟨b, hrest, hsecond, hW⟩ := hf v (hV v m' hy) m' (r ++ a)
    refine ⟨a ++ b, ?_, ?_, fun w m'' heq => hW w m'' ((bind_of_ok hy).symm.trans heq)⟩
    · rw [bind_of_ok hx, bind_of_ok hy, ← List.append_assoc]
      exact hrest
    · rw [after_bind_ok hy]
      exact hfirst.trans hsecond

end Recorded

/-- A call of a function of the language leaves the lists alone, or it appends to one. -/
theorem builtin_cases (b : Builtin) (args : List Value) (line : Line) :
    (b.added args = [] ∧ Spares (builtin b args line)) ∨
      ∃ id v, b = .append ∧ args = [.list id, v] := by
  by_cases happend : ∃ id v, b = .append ∧ args = [.list id, v]
  · exact .inr happend
  · have hspares : Spares (builtin b args line) :=
      (spares_spreads line).builtin (w := ()) (fun _ => write_spares)
        (fun id v hb hargs => absurd ⟨id, v, hb, hargs⟩ happend) fun _ _ => trivial
    refine .inl ⟨?_, hspares⟩
    unfold Builtin.added
    split
    · exact absurd ⟨_, _, rfl, rfl⟩ happend
    · rfl

/-- The record has an entry for each value that was appended. -/
theorem builtin_recorded (b : Builtin) (args : List Value) (line : Line) :
    Recorded (fun _ => True) (Engine.recording.builtin b args line) (builtin b args line) := by
  intro m r
  rcases builtin_cases b args line with ⟨hadded, hspares⟩ | ⟨id, v, rfl, rfl⟩
  · refine ⟨[], ?_, hspares m, fun _ _ _ => trivial⟩
    have hlift : Recording.lift (builtin b args line) (m, r) =
        noting r (builtin b args line m) := rfl
    cases hb : builtin b args line m with
    | error e m' =>
      rw [hb] at hlift
      rw [List.append_nil]
      exact bind_of_error hlift
    | ok v m' =>
      rw [hb] at hlift
      rw [← hadded]
      exact bind_of_ok hlift
  · exact ⟨[(id, v)], rfl, Store.lengthens_append m.store id v, fun _ _ _ => trivial⟩

end Action

theorem Engine.builtinsFirst_spares (scope : ScopeId) (name : String) (line : Line) :
    Action.Spares (builtinsFirst scope name line) := by
  rw [builtinsFirst]
  cases Builtin.ofName? name with
  | some b => exact .pure _
  | none => exact (Action.functionNamed_spares scope name line).bind fun _ => .pure _

/-- A run with a record is the run, and the lists that there are grow by what it records. -/
theorem Engine.links_recording : Links recording standard @Action.Recorded (fun _ => True)
    (fun _ => True) (fun _ => True) where
  pure := .pure
  bind := .bind
  elementary h := .lift (Action.spares_of_elementary h) fun _ _ _ _ => trivial
  define _ _ scope v := .lift (Action.define_spares scope _ v) fun _ _ _ _ => trivial
  assign _ scope v := .lift (Action.assign_spares scope _ v _) fun _ _ _ _ => trivial
  newFunction _ := .lift (Action.newFunction_spares _) fun _ _ _ _ => trivial
  callee _ scope := .lift (builtinsFirst_spares scope _ _) fun _ _ _ _ _ _ => trivial
  builtin := Action.builtin_recorded
  enter _ args := .lift (Action.enter_spares _ args) fun _ _ _ _ => trivial

namespace Action

variable (coerce : Bool) (fuel : Nat) (scope : ScopeId)

/-- The value of an expression is the same with a record. -/
theorem eval_recorded (e : Expr) : Recorded (fun _ => True)
    ((Engine.recording.run coerce fuel).eval scope e) (eval coerce fuel scope e) := by
  have hlinks := Engine.links_recording.run coerce fuel
  rw [Engine.run_standard] at hlinks
  exact hlinks.eval scope e trivial

/-- A statement does the same with a record. -/
theorem exec_recorded (s : Stmt) : Recorded (fun _ => True)
    ((Engine.recording.run coerce fuel).exec scope s) (exec coerce fuel scope s) := by
  have hlinks := Engine.links_recording.run coerce fuel
  rw [Engine.run_standard] at hlinks
  exact hlinks.exec scope s trivial

theorem evals_recorded (es : List Expr) : Recorded (fun _ => True)
    (Engine.each ((Engine.recording.run coerce fuel).eval scope) es)
    (each (eval coerce fuel scope) es) := by
  have heach := Engine.links_recording.each fun e (_ : e ∈ es) => eval_recorded coerce fuel scope e
  rwa [Engine.each_eq] at heach

end Action

end Boli
