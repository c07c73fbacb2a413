import Boli.Proofs.Detachment

/-!
# Operators and the lines of their faults

An operator or a built-in function is told the line it stands on.  It does nothing with that line
but report its faults there.  So on another line it does the same, and a fault it stops on is the
same fault on that other line.

* `SameAt` compares the ends of two actions, one on each line.
* `Action.Reported` says that two actions on the same machine always end so.
* `Action.binary_reported`, `Action.unary_reported`, `Action.element_reported` and
  `Action.builtin_reported` are the results.
-/

namespace Boli

/-- The two ends are the same, and where they are a fault, the first is on `line` and the second on
`line'`. -/
inductive SameAt (line line' : Line) {α : Type} :
    EStateM.Result Stop Machine α → EStateM.Result Stop Machine α → Prop where
  | ok (a : α) (m : Machine) : SameAt line line' (.ok a m) (.ok a m)
  | fault (cause : Cause) (m : Machine) :
    SameAt line line' (.error (.fault ⟨cause, line⟩) m) (.error (.fault ⟨cause, line'⟩) m)
  | host (e : HostError) (m : Machine) :
    SameAt line line' (.error (.host e) m) (.error (.host e) m)
  | unfinished (m : Machine) :
    SameAt line line' (.error .unfinished m) (.error .unfinished m)

namespace Action

variable {α β : Type} {line line' : Line}

/-- The actions do the same, the first on `line` and the second on `line'`. -/
def Reported (line line' : Line) (x x' : Action α) : Prop :=
  ∀ m, SameAt line line' (x m) (x' m)

namespace Reported

theorem pure (a : α) : Reported line line' (pure a) (pure a) :=
  fun m => .ok a m

theorem fail (cause : Cause) :
    Reported line line' (fail cause line : Action α) (Action.fail cause line') :=
  fun m => .fault cause m

theorem host (e : HostError) : Reported line line' (throw (.host e) : Action α) (throw (.host e)) :=
  fun m => .host e m

/-- Two parts of an action report on the same line. -/
theorem bind {x x' : Action α} {f f' : α → Action β} (hx : Reported line line' x x')
    (hf : ∀ a, Reported line line' (f a) (f' a)) : Reported line line' (x >>= f) (x' >>= f') := by
  intro m
  show SameAt line line' (EStateM.bind x f m) (EStateM.bind x' f' m)
  rw [EStateM.bind, EStateM.bind]
  have hends := hx m
  generalize x m = e, x' m = e' at hends
  cases hends with
  | ok a m₁ => exact hf a m₁
  | fault cause m₁ => exact .fault cause m₁
  | host e m₁ => exact .host e m₁
  | unfinished m₁ => exact .unfinished m₁

theorem get {f f' : Machine → Action β} (hf : ∀ m, Reported line line' (f m) (f' m)) :
    Reported line line' (get >>= f) (get >>= f') :=
  fun m => hf m m

end Reported

/-! ## Values, lists, input and output -/

theorem display_reported (v : Value) : Reported line line' (display v) (display v) := by
  refine .get fun m => ?_
  cases m.store.display v with
  | ok text => exact .pure text
  | error e =>
    cases e with
    | foreign => exact .host _
    | endless => exact fun m => .unfinished m
    | notAnInteger infinite => exact .host _

theorem newList_reported (elements : Array Value) :
    Reported line line' (newList elements) (newList elements) :=
  fun _ => .ok _ _

theorem append_reported (id : ListId) (v : Value) :
    Reported line line' (modifyStore (·.append id v)) (modifyStore (·.append id v)) :=
  fun _ => .ok _ _

/-- Writing a line does not depend on where it is done. -/
theorem write_reported (text : String) : Reported line line' (write text) (write text) := by
  intro m
  unfold write
  split
  · exact .host _ _
  · exact .ok _ _
  · exact .ok _ _

/-! ## Operators and built-in functions -/

/-- What operators are made of reports on the line that it is told. -/
theorem reported_spreads : Spreads line line' (fun (_ : Unit) _ => Reported line line')
    (fun _ _ => True) (fun _ _ => True) where
  pure _ := .pure _
  fail _ := .fail _
  host := .host
  bind hx hf := hx.bind fun a => hf () a le_rfl
  look hf _ := .get fun m => hf () m le_rfl trivial
  display := display_reported
  newList _ := newList_reported _
  setInput _ := fun _ => .ok _ _
  lasting _ _ := trivial
  plain _ := trivial
  elements _ _ := trivial

theorem typeOf_reported (v : Value) : Reported line line' (typeOf v) (typeOf v) :=
  reported_spreads.typeOf (w := ()) v

theorem truth_reported (v : Value) : Reported line line' (truth v) (truth v) :=
  reported_spreads.truth (w := ()) v

/-- An operator between operands does the same on another line. -/
theorem binary_reported (op : Op) (l r : Value) :
    Reported line line' (binary op l r line) (binary op l r line') :=
  reported_spreads.binary (w := ()) op trivial trivial

/-- So does a sign. -/
theorem unary_reported (op : Op) (v : Value) :
    Reported line line' (unary op v line) (unary op v line') :=
  reported_spreads.unary (w := ()) op v

theorem requireIndexable_reported (target : Value) :
    Reported line line' (requireIndexable target line) (requireIndexable target line') :=
  reported_spreads.requireIndexable (w := ()) target

/-- So does an index. -/
theorem element_reported (target index : Value) :
    Reported line line' (element target index line) (element target index line') :=
  reported_spreads.element (w := ()) target index

/-- So does a function of the language. -/
theorem builtin_reported (b : Builtin) (args : List Value) :
    Reported line line' (builtin b args line) (builtin b args line') :=
  reported_spreads.builtin (w := ()) (fun _ => write_reported)
    (fun id v _ _ => append_reported id v) fun _ _ => trivial

end Action

end Boli
