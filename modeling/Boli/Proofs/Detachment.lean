import Mathlib
import Boli.Proofs.Operators

/-!
# What operators see of a machine

Operators and built-in functions work on values, lists, input and output.  They do not look at the
scopes, and of a function they see nothing but its name.  So an operator does the same on a machine
that has other scopes, and other functions of the same names, and it leaves both as they are.

* `Machine.refit` puts other scopes and functions into a machine.
* `Action.Detached` says that an action does not notice such a change.  It also says that the action
  does not stop on a jump that nothing catches, since only statements jump.
* `Action.binary_detached`, `Action.unary_detached`, `Action.element_detached` and
  `Action.builtin_detached` are the results.
-/

namespace Boli

/-- The reason to stop is a jump that nothing catches. -/
def Stop.isStray : Stop → Bool
  | fault f => f.cause.isStray
  | host _ | unfinished => false

/-- The machine with other scopes and functions. -/
def Machine.refit (scopes : Array Scope) (functions : Array Closure) (m : Machine) : Machine :=
  { m with store := { m.store with scopes := scopes, functions := functions } }

/-- The end of an action, with a change to the machine that it leaves behind. -/
def onMachine {α : Type} (f : Machine → Machine) :
    EStateM.Result Stop Machine α → EStateM.Result Stop Machine α
  | .ok a m => .ok a (f m)
  | .error e m => .error e (f m)

/-- Functions of the same names, in the same order. -/
def SameNames (functions : Array Closure) (m : Machine) : Prop :=
  functions.map Closure.name = m.store.functions.map Closure.name

/-- A function has the same name on the other machine. -/
theorem SameNames.closure? {functions : Array Closure} {m : Machine} (h : SameNames functions m)
    (scopes : Array Scope) (id : FunctionId) :
    ((m.refit scopes functions).store.closure? id).map Closure.name =
      (m.store.closure? id).map Closure.name := by
  have hget := congrArg (fun names => names[id.index]?) h
  simp only [Array.getElem?_map] at hget
  exact hget

namespace Store

/-! ## What depends on what in a store -/

variable {s s' : Store}

/-- The way outward depends on the scopes only. -/
theorem chainWithin_congr (h : s'.scopes = s.scopes) (depth : Nat) (id : ScopeId) :
    s'.chainWithin depth id = s.chainWithin depth id := by
  induction depth generalizing id with
  | zero => rfl
  | succ depth ih => simp only [chainWithin, parent?, h, ih]

/-- Where a name is bound depends on the scopes only. -/
theorem resolve?_congr (h : s'.scopes = s.scopes) (id : ScopeId) (name : String) :
    s'.resolve? id name = s.resolve? id name := by
  simp only [resolve?, chain, chainWithin_congr h, bindings, h]

theorem lookup?_congr (h : s'.scopes = s.scopes) (id : ScopeId) (name : String) :
    s'.lookup? id name = s.lookup? id name := by
  simp only [lookup?, resolve?_congr h, bindings, h]

theorem displayAll_congr {display display' : Value → Except Unprintable String}
    (h : ∀ v, display v = display' v) (vs : List Value) :
    displayAll display vs = displayAll display' vs := by
  rw [funext h]

/-- The text of a value depends on the lists and on the names of the functions. -/
theorem displayWithin_refit {m : Machine} {functions : Array Closure} (h : SameNames functions m)
    (scopes : Array Scope) (depth : Nat) (v : Value) :
    (m.refit scopes functions).store.displayWithin depth v = m.store.displayWithin depth v := by
  induction depth generalizing v with
  | zero =>
    cases v with
    | function id => simp only [displayWithin, h.closure? scopes id]
    | _ => simp only [displayWithin]
  | succ depth ih =>
    cases v with
    | function id => simp only [displayWithin, h.closure? scopes id]
    | list id =>
      simp only [displayWithin]
      rw [displayAll_congr ih]
      rfl
    | _ => simp only [displayWithin]

end Store

namespace Action

variable {α β : Type}

/-- The action notices neither the scopes nor anything of the functions but their names, and it does
not stop on a stray jump. -/
structure Detached (x : Action α) : Prop where
  refit : ∀ m scopes functions, SameNames functions m →
    x (m.refit scopes functions) = onMachine (Machine.refit scopes functions) (x m)
  caught : ∀ m e m', x m = .error e m' → e.isStray = false

namespace Detached

/-- The action leaves the scopes and functions as they are. -/
theorem onMachine_eq {x : Action α} (h : Detached x) (m : Machine) :
    onMachine (Machine.refit m.store.scopes m.store.functions) (x m) = x m :=
  (h.refit m m.store.scopes m.store.functions rfl).symm

/-- An action that has a value has left the scopes and functions as they were. -/
theorem ok_eq {x : Action α} (h : Detached x) {m m' : Machine} {a : α} (hx : x m = .ok a m') :
    m'.store.scopes = m.store.scopes ∧ m'.store.functions = m.store.functions := by
  have heq := h.onMachine_eq m
  rw [hx] at heq
  injection heq with _ hm
  rw [← hm]
  exact ⟨rfl, rfl⟩

/-- So has one that stops. -/
theorem error_eq {x : Action α} (h : Detached x) {m m' : Machine} {e : Stop}
    (hx : x m = .error e m') :
    m'.store.scopes = m.store.scopes ∧ m'.store.functions = m.store.functions := by
  have heq := h.onMachine_eq m
  rw [hx] at heq
  injection heq with _ hm
  rw [← hm]
  exact ⟨rfl, rfl⟩

/-! ## Rules -/

theorem pure (a : α) : Detached (pure a) :=
  ⟨fun _ _ _ _ => rfl, fun _ _ _ h => by cases h⟩

theorem throw {e : Stop} (he : e.isStray = false) : Detached (throw e : Action α) := by
  refine ⟨fun _ _ _ _ => rfl, fun m e' m' h => ?_⟩
  cases h
  exact he

theorem fail {cause : Cause} (line : Line) (hc : cause.isStray = false) :
    Detached (Action.fail cause line : Action α) :=
  throw hc

/-- Detached actions one after the other are detached. -/
theorem bind {x : Action α} {f : α → Action β} (hx : Detached x) (hf : ∀ a, Detached (f a)) :
    Detached (x >>= f) := by
  constructor
  · intro m scopes functions hnames
    show EStateM.bind x f (m.refit scopes functions) = onMachine _ (EStateM.bind x f m)
    rw [EStateM.bind, EStateM.bind, hx.refit m scopes functions hnames]
    cases hxm : x m with
    | error e m' => rfl
    | ok a m' =>
      refine (hf a).refit m' scopes functions ?_
      rw [SameNames, (hx.ok_eq hxm).2]
      exact hnames
  · intro m e m' h
    change EStateM.bind x f m = _ at h
    rw [EStateM.bind] at h
    cases hxm : x m with
    | error e' m₁ =>
      rw [hxm] at h
      cases h
      exact hx.caught m e m' hxm
    | ok a m₁ =>
      rw [hxm] at h
      exact (hf a).caught m₁ e m' h

/-- Looking at the machine is harmless if what is looked at stays the same. -/
theorem get {f : Machine → Action β} (hf : ∀ m, Detached (f m))
    (hsame : ∀ m scopes functions, SameNames functions m →
      f (m.refit scopes functions) = f m) : Detached (get >>= f) := by
  constructor
  · intro m scopes functions hnames
    show f (m.refit scopes functions) (m.refit scopes functions) = onMachine _ (f m m)
    rw [hsame m scopes functions hnames, (hf m).refit m scopes functions hnames]
  · exact fun m => (hf m).caught m

end Detached

/-! ## Values, lists, input and output -/

/-- The text of a value shows no more of a function than its name. -/
theorem display_detached (v : Value) : Detached (display v) := by
  refine .get (fun m => ?_) fun m scopes functions hnames => ?_
  · cases m.store.display v with
    | ok text => exact .pure text
    | error e => cases e <;> exact .throw rfl
  · have hdisplay : (m.refit scopes functions).store.display v = m.store.display v :=
      Store.displayWithin_refit hnames scopes m.store.lists.size v
    simp only [hdisplay]

theorem newList_detached (elements : Array Value) : Detached (newList elements) :=
  ⟨fun _ _ _ _ => rfl, fun _ _ _ h => by cases h⟩

theorem append_detached (id : ListId) (v : Value) : Detached (modifyStore (·.append id v)) :=
  ⟨fun _ _ _ _ => rfl, fun _ _ _ h => by cases h⟩

/-- Writing a line depends on the sink only. -/
theorem write_detached (line : String) : Detached (write line) := by
  constructor
  · intro m scopes functions _
    have hsink : (m.refit scopes functions).sink = m.sink := rfl
    unfold write
    rw [hsink]
    cases m.sink.room with
    | none => rfl
    | some room => cases room <;> rfl
  · intro m e m' h
    unfold write at h
    split at h <;> cases h
    rfl

theorem setInput_detached (input : InputSource) :
    Detached (modify fun m => { m with input := input }) :=
  ⟨fun _ _ _ _ => rfl, fun _ _ _ h => by cases h⟩

/-! ## Operators and built-in functions -/

/-- What operators are made of is detached. -/
theorem detached_spreads (line : Line) : Spreads line line (fun (_ : Unit) _ x _ => Detached x)
    (fun _ _ => True) (fun _ _ => True) where
  pure _ := .pure _
  fail := .fail line
  host _ := .throw rfl
  bind hx hf := hx.bind fun a => hf () a le_rfl
  look hf hsame := .get (fun m => hf () m le_rfl trivial) fun m scopes functions _ =>
    (hsame (m.refit scopes functions) m rfl rfl).1
  display := display_detached
  newList _ := newList_detached _
  setInput := setInput_detached
  lasting _ _ := trivial
  plain _ := trivial
  elements _ _ := trivial

theorem typeOf_detached (v : Value) : Detached (typeOf v) :=
  (detached_spreads none).typeOf (w := ()) v

theorem truth_detached (v : Value) : Detached (truth v) :=
  (detached_spreads none).truth (w := ()) v

theorem binary_detached (op : Op) (l r : Value) (line : Line) : Detached (binary op l r line) :=
  (detached_spreads line).binary (w := ()) op trivial trivial

theorem unary_detached (op : Op) (v : Value) (line : Line) : Detached (unary op v line) :=
  (detached_spreads line).unary (w := ()) op v

theorem requireIndexable_detached (target : Value) (line : Line) :
    Detached (requireIndexable target line) :=
  (detached_spreads line).requireIndexable (w := ()) target

theorem element_detached (target index : Value) (line : Line) :
    Detached (element target index line) :=
  (detached_spreads line).element (w := ()) target index

theorem builtin_detached (b : Builtin) (args : List Value) (line : Line) :
    Detached (builtin b args line) :=
  (detached_spreads line).builtin (w := ()) (fun _ => write_detached)
    (fun id v _ _ => append_detached id v) fun _ _ => trivial

end Action

end Boli
