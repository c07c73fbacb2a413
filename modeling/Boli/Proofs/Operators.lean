import Mathlib.Order.Basic
import Boli.Run.Eval

/-!
# What operators are made of

Operators and the functions of the language put a few actions together: they look at the lists and
the input, they take values apart, print them and make new lists, and they stop on a fault or on an
error of the host.  A relation between actions that these few have, and that sequencing keeps, holds
of all operators (`Action.Spreads`).

The two actions may stand on different lines, where they report their faults.  What is said of
values may depend on a world, which stands for what the machine has at the time, and stays true in
later worlds.
-/

namespace Boli

/-- The cause is a jump that nothing catches. -/
def Cause.isStray : Cause → Bool
  | stray _ | strayInFunction .. => true
  | _ => false

namespace Action

variable {W : Type} [Preorder W] {line line' : Line}
  {rel : ∀ {α : Type}, W → (W → α → Prop) → Action α → Action α → Prop}
  {Val : W → Value → Prop} {Seen : W → Machine → Prop}

/-- The actions that operators are made of are related, and sequencing keeps the relation.  The
first action stands on `line` and the second one on `line'`.  A value that an operator is given or
gives back is as described by `Val`, and a machine that it looks at as described by `Seen`.  It
looks at nothing but the lists and the input. -/
structure Spreads (line line' : Line)
    (rel : ∀ {α : Type}, W → (W → α → Prop) → Action α → Action α → Prop)
    (Val : W → Value → Prop) (Seen : W → Machine → Prop) : Prop where
  pure : ∀ {α : Type} {V : W → α → Prop} {w : W} {a : α}, V w a → rel w V (pure a) (pure a)
  fail : ∀ {α : Type} {V : W → α → Prop} {w : W} {cause : Cause}, cause.isStray = false →
    rel w V (fail cause line) (fail cause line')
  host : ∀ {α : Type} {V : W → α → Prop} {w : W} (e : HostError),
    rel w V (throw (.host e)) (throw (.host e))
  bind : ∀ {α β : Type} {U : W → β → Prop} {w : W} {x y : Action α} {f g : α → Action β},
    rel w (fun _ _ => True) x y → (∀ w' a, w ≤ w' → rel w' U (f a) (g a)) →
    rel w U (x >>= f) (y >>= g)
  look : ∀ {α : Type} {V : W → α → Prop} {w : W} {f g : Machine → Action α},
    (∀ w' m, w ≤ w' → Seen w' m → rel w' V (f m) (g m)) →
    (∀ m m' : Machine, m.store.lists = m'.store.lists → m.input = m'.input →
      f m = f m' ∧ g m = g m') → rel w V (get >>= f) (get >>= g)
  display : ∀ {w : W} (v : Value), rel w (fun _ _ => True) (display v) (display v)
  newList : ∀ {w : W} {vs : Array Value}, (∀ v ∈ vs, Val w v) → rel w Val (newList vs) (newList vs)
  setInput : ∀ {w : W} (input : InputSource), rel w (fun _ _ => True)
    (modify fun m => { m with input := input }) (modify fun m => { m with input := input })
  lasting : ∀ {w w' : W} {v : Value}, w ≤ w' → Val w v → Val w' v
  plain : ∀ {w : W} {v : Value}, (∀ id, v ≠ .list id) → Val w v
  elements : ∀ {w : W} {m : Machine} {id : ListId} {v : Value}, Seen w m →
    v ∈ m.store.elements id → Val w v

namespace Spreads

variable (h : Spreads line line' @rel Val Seen) {w : W}
include h

/-- What the host gives is a value or an error. -/
theorem ofHost {α : Type} {V : W → α → Prop} (e : HostError) {a? : Option α}
    (ha : ∀ a, a? = some a → V w a) : rel w V (ofHost e a?) (Action.ofHost e a?) := by
  cases a? with
  | some a => exact h.pure (ha a rfl)
  | none => exact h.host e

theorem typeOf (v : Value) : rel w (fun _ _ => True) (typeOf v) (Action.typeOf v) :=
  h.ofHost .notAValue fun _ _ => trivial

theorem truth (v : Value) : rel w (fun _ _ => True) (truth v) (Action.truth v) :=
  h.ofHost .notAValue fun _ _ => trivial

/-- Values are displayed one after the other. -/
theorem displays (vs : List Value) :
    rel w (fun _ _ => True) (each Action.display vs) (each Action.display vs) := by
  induction vs generalizing w with
  | nil => exact h.pure trivial
  | cons v vs ih =>
    exact h.bind (h.display v) fun _ _ _ => h.bind ih fun _ _ _ => h.pure trivial

/-! ## Operators -/

/-- Only division and remainder ask the host. -/
theorem arithmeticNumbers (op : Op) (x y : Float) :
    rel w (fun _ _ => True) (op.arithmetic x y) (op.arithmetic x y) := by
  unfold Op.arithmetic
  split
  · exact h.pure trivial
  · exact h.pure trivial
  · exact h.pure trivial
  · exact h.ofHost _ fun _ _ => trivial
  · exact h.ofHost _ fun _ _ => trivial

/-- A sum of lists is a new list of their elements. -/
theorem add (l r : Value) : rel w Val (add l r line) (Action.add l r line') := by
  refine h.bind (h.typeOf l) fun w left _ => h.bind (h.typeOf r) fun w right _ => ?_
  split
  · refine h.bind (h.display l) fun _ s _ => h.bind (h.display r) fun _ t _ => ?_
    exact h.pure (h.plain (by simp))
  · split
    · refine h.look (fun w m _ hm => h.newList fun v hv => ?_) fun m m' hlists _ => ?_
      · rcases Array.mem_append.1 hv with hv | hv
        · exact h.elements hm hv
        · exact h.elements hm hv
      · simp only [Store.elements, hlists, and_self]
    · split
      · exact h.bind (h.arithmeticNumbers _ _ _) fun _ _ _ => h.pure (h.plain (by simp))
      · exact h.fail rfl

theorem arithmetic (op : Op) (l r : Value) :
    rel w Val (arithmetic op l r line) (Action.arithmetic op l r line') := by
  refine h.bind (h.typeOf l) fun _ left _ => h.bind (h.typeOf r) fun _ right _ => ?_
  split
  · exact h.bind (h.arithmeticNumbers _ _ _) fun _ _ _ => h.pure (h.plain (by simp))
  · exact h.fail rfl

theorem order (op : Op) (l r : Value) :
    rel w Val (order op l r line) (Action.order op l r line') := by
  refine h.bind (h.typeOf l) fun _ left _ => h.bind (h.typeOf r) fun _ right _ => ?_
  split
  · exact h.pure (h.plain (by simp))
  · split
    · exact h.pure (h.plain (by simp))
    · exact h.fail rfl

/-- The logical operators give back one of their operands. -/
theorem binary (op : Op) {l r : Value} (hl : Val w l) (hr : Val w r) :
    rel w Val (binary op l r line) (Action.binary op l r line') := by
  have hchoice (l' r' : Value) (b : Bool) (hl' : Val w l') (hr' : Val w r') :
      Val w (if b then l' else r') := by
    cases b <;> assumption
  cases op with
  | and => exact h.bind (h.truth l) fun _ b hle => h.pure (h.lasting hle (hchoice r l b hr hl))
  | or => exact h.bind (h.truth l) fun _ b hle => h.pure (h.lasting hle (hchoice l r b hl hr))
  | eq | ne =>
    exact h.bind (h.ofHost _ fun _ _ => trivial) fun _ _ _ => h.pure (h.plain (by simp))
  | add => exact h.add l r
  | sub | mul | div | mod => exact h.arithmetic _ l r
  | gt | ge | lt | le => exact h.order _ l r
  | not | other _ => exact h.fail rfl

theorem unary (op : Op) (v : Value) : rel w Val (unary op v line) (Action.unary op v line') := by
  cases op with
  | sub =>
    refine h.bind (h.typeOf v) fun _ type _ => ?_
    split
    · exact h.pure (h.plain (by simp))
    · exact h.fail rfl
  | not => exact h.bind (h.truth v) fun _ _ _ => h.pure (h.plain (by simp))
  | _ => exact h.fail rfl

/-! ## Elements -/

theorem placeOf (index : Value) :
    rel w (fun _ _ => True) (placeOf index line) (Action.placeOf index line') := by
  have hnotWhole (w : W) : rel w (fun _ _ => True)
      (do Action.fail (.indexNotWhole (← Action.display index)) line : Action Int)
      (do Action.fail (.indexNotWhole (← Action.display index)) line') :=
    h.bind (h.display index) fun _ _ _ => h.fail rfl
  refine h.bind (h.typeOf index) fun w _ _ => ?_
  split
  · split
    · exact h.ofHost _ fun _ _ => trivial
    · exact hnotWhole w
  · exact hnotWhole w

theorem requireIndexable (target : Value) : rel w (fun _ _ => True)
    (requireIndexable target line) (Action.requireIndexable target line') := by
  refine h.bind (h.typeOf target) fun _ type _ => ?_
  split
  · exact h.pure trivial
  · exact h.pure trivial
  · exact h.fail rfl

/-- An element is one that the list has, or a text. -/
theorem element (target index : Value) :
    rel w Val (element target index line) (Action.element target index line') := by
  refine h.bind (h.placeOf index) fun w place _ => ?_
  refine h.look (fun w m _ hm => ?_) fun m m' hlists _ => ?_
  · dsimp only
    split
    · refine h.ofHost _ fun v hv => ?_
      cases target with
      | list id => exact h.elements hm (Array.mem_of_getElem? hv)
      | text t =>
        obtain ⟨c, -, rfl⟩ := Option.map_eq_some_iff.1 hv
        exact h.plain (by simp)
      | _ => cases hv
    · exact h.fail rfl
  · have hsize : size m.store target = size m'.store target := by
      cases target <;> simp only [size, Store.elements, hlists]
    have hitem (place : Nat) : item? m.store target place = item? m'.store target place := by
      cases target <;> simp only [item?, Store.elements, hlists]
    constructor <;> simp only [hsize, hitem]

/-! ## Functions of the language -/

theorem textOf (supply : Supply) :
    rel w (fun _ _ => True) (textOf supply line) (Action.textOf supply line') := by
  cases supply with
  | text s => exact h.pure trivial
  | other hostType => exact h.fail rfl

/-- What was read is taken off the input. -/
theorem readInput : rel w (fun _ _ => True) (readInput line) (Action.readInput line') := by
  refine h.look (fun w m _ _ => ?_) fun m m' _ hinput => by simp only [hinput, and_self]
  cases m.input with
  | unavailable => exact h.fail rfl
  | lines rest =>
    cases rest with
    | nil => exact h.fail rfl
    | cons text rest => exact h.bind (h.setInput _) fun _ _ _ => h.pure trivial
  | provider items afterwards =>
    cases items with
    | nil => exact h.textOf afterwards
    | cons item items => exact h.bind (h.setInput _) fun _ _ _ => h.textOf item

theorem input (args : List Value) : rel w Val (input args line) (Action.input args line') := by
  simp only [Action.input]
  split
  · exact h.bind h.readInput fun _ _ _ => h.pure (h.plain (by simp))
  · exact h.fail rfl

/-- Only writing itself has to be related for printing. -/
theorem print (hwrite : ∀ w text, rel w (fun _ _ => True) (write text) (write text))
    (args : List Value) : rel w Val (print args) (Action.print args) := by
  refine h.bind (h.displays args) fun w _ _ => h.bind (hwrite w _) fun _ _ _ => ?_
  exact h.pure (h.plain (by simp))

/-- Only the change to the list has to be related for appending, and the list itself is given
back. -/
theorem append {args : List Value}
    (happend : ∀ id v, args = [.list id, v] → rel w (fun _ _ => True)
      (modifyStore (·.append id v)) (modifyStore (·.append id v)))
    (hargs : ∀ v ∈ args, Val w v) : rel w Val (append args line) (Action.append args line') := by
  simp only [Action.append]
  split
  · next target v =>
    split
    · refine h.bind (happend _ v rfl) fun _ _ hle => h.pure ?_
      exact h.lasting hle (hargs _ List.mem_cons_self)
    · exact h.bind (h.typeOf _) fun _ _ _ => h.fail rfl
  · exact h.fail rfl

theorem length (args : List Value) : rel w Val (length args line) (Action.length args line') := by
  simp only [Action.length]
  split
  · split
    · refine h.look (fun w m _ _ => h.pure (h.plain (by simp))) fun m m' hlists _ => ?_
      simp only [Store.elements, hlists, and_self]
    · exact h.pure (h.plain (by simp))
    · exact h.bind (h.typeOf _) fun _ _ _ => h.fail rfl
  · exact h.fail rfl

/-- Of the functions of the language, one writes and one appends to a list. -/
theorem builtin (hwrite : ∀ w text, rel w (fun _ _ => True) (write text) (write text))
    {b : Builtin} {args : List Value}
    (happend : ∀ id v, b = .append → args = [.list id, v] → rel w (fun _ _ => True)
      (modifyStore (·.append id v)) (modifyStore (·.append id v)))
    (hargs : ∀ v ∈ args, Val w v) :
    rel w Val (builtin b args line) (Action.builtin b args line') := by
  cases b with
  | input => exact h.input args
  | print => exact h.print hwrite args
  | list => exact h.newList fun v hv => hargs v (by simpa using hv)
  | append => exact h.append (fun id v => happend id v rfl) hargs
  | length => exact h.length args

end Spreads

end Action

end Boli
