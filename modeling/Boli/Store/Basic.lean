import Boli.Syntax.Basic

/-!
# The store

The store holds everything with an identity: scopes, lists and functions.  Each is known by its
number, and new ones go to the end, so nothing in the store ever moves or disappears.

A scope binds names to values and may lie inside another scope, which is older.  A name belongs to
the nearest scope, from the inside out, that binds it.

* `Store.chain` lists the scopes from one outward, `Store.resolve?` finds the one that binds a name,
  and `Store.isBound` tells whether there is one.
* `Store.lookup?`, `Store.define` and `Store.assign?` read and write bindings.
* `Store.newList`, `Store.elements` and `Store.append` are the lists.

The lemmas at the end give the effect of each operation on bindings and elements.
-/

namespace Boli

/-- The bindings of a scope, each name once. -/
abbrev Bindings := List (String × Value)

namespace Bindings

/-- The value of a name. -/
def get? (name : String) : Bindings → Option Value
  | [] => none
  | (n, v) :: rest => if n = name then some v else get? name rest
termination_by structural b => b

/-- Binds a name, in place of its old binding if there is one. -/
def set (name : String) (value : Value) : Bindings → Bindings
  | [] => [(name, value)]
  | (n, v) :: rest => if n = name then (n, value) :: rest else (n, v) :: set name value rest
termination_by structural b => b

/-- The names that are bound. -/
def names (b : Bindings) : List String := b.map Prod.fst

/-- Binding a name changes that name only. -/
theorem get?_set (name other : String) (value : Value) (b : Bindings) :
    get? other (set name value b) = if other = name then some value else get? other b := by
  induction b with
  | nil => simp [set, get?, eq_comm]
  | cons p rest ih =>
    obtain ⟨n, v⟩ := p
    by_cases hn : n = name
    · subst hn
      by_cases ho : other = n
      · subst ho; simp [set, get?]
      · have ho' : ¬n = other := fun h => ho h.symm
        simp [set, get?, ho, ho']
    · by_cases ho : n = other
      · subst ho; simp [set, get?, hn]
      · simp [set, get?, hn, ho, ih]

theorem isSome_get? (name : String) (b : Bindings) : (get? name b).isSome ↔ name ∈ names b := by
  induction b with
  | nil => simp [get?, names]
  | cons p rest ih =>
    obtain ⟨n, v⟩ := p
    by_cases hn : n = name
    · simp [get?, names, hn]
    · have hn' : ¬name = n := fun h => hn h.symm
      simp only [names] at ih
      simp [get?, names, hn, hn', ih]

end Bindings

/-- A scope. -/
structure Scope where
  /-- The scope around it. -/
  parent : Option ScopeId
  /-- The names bound in it. -/
  bindings : Bindings
deriving Inhabited

/-- A function: what it is called, what it takes, what it does and where it was defined. -/
structure Closure where
  /-- The name in its definition. -/
  name : String
  /-- The names of its parameters. -/
  parameters : List String
  /-- The statements that a call runs. -/
  body : Block
  /-- The scope of its definition. -/
  scope : ScopeId

/-- Everything that has an identity. -/
structure Store where
  /-- The scopes. -/
  scopes : Array Scope := #[]
  /-- The elements of the lists. -/
  lists : Array (Array Value) := #[]
  /-- The functions. -/
  functions : Array Closure := #[]
  /-- The number of foreign objects that the host handed in. -/
  foreigners : Nat := 0

namespace Store

/-! ## Scopes -/

/-- A new scope without bindings. -/
def newScope (parent : Option ScopeId) (s : Store) : ScopeId × Store :=
  (⟨s.scopes.size⟩, { s with scopes := s.scopes.push ⟨parent, []⟩ })

/-- The bindings of a scope. -/
def bindings (s : Store) (id : ScopeId) : Bindings :=
  match s.scopes[id.index]? with
  | some scope => scope.bindings
  | none => []

/-- The scope around a scope. -/
def parent? (s : Store) (id : ScopeId) : Option ScopeId :=
  s.scopes[id.index]?.bind Scope.parent

/-- The first `depth` scopes from one outward. -/
def chainWithin (s : Store) : Nat → ScopeId → List ScopeId
  | 0, _ => []
  | depth + 1, id =>
    id ::
      match s.parent? id with
      | none => []
      | some parent => chainWithin s depth parent

/-- The scopes from one outward.  Each lies in an older one, so there are no more of them than the
number of the first one tells. -/
def chain (s : Store) (id : ScopeId) : List ScopeId :=
  s.chainWithin (id.index + 1) id

/-- The scope that a name belongs to. -/
def resolve? (s : Store) (id : ScopeId) (name : String) : Option ScopeId :=
  (s.chain id).find? fun scope => (Bindings.get? name (s.bindings scope)).isSome

/-- The name belongs to some scope. -/
def isBound (s : Store) (id : ScopeId) (name : String) : Bool :=
  (s.resolve? id name).isSome

/-- The value of a name. -/
def lookup? (s : Store) (id : ScopeId) (name : String) : Option Value :=
  (s.resolve? id name).bind fun scope => Bindings.get? name (s.bindings scope)

/-- Binds a name in a scope. -/
def define (id : ScopeId) (name : String) (value : Value) (s : Store) : Store :=
  { s with
    scopes := s.scopes.modify id.index fun scope =>
      { scope with bindings := scope.bindings.set name value } }

/-- Binds a name again in the scope that it belongs to. -/
def assign? (id : ScopeId) (name : String) (value : Value) (s : Store) : Option Store :=
  (s.resolve? id name).map fun scope => s.define scope name value

/-- Binds names in a scope one after the other. -/
def defineAll (id : ScopeId) : List (String × Value) → Store → Store
  | [], s => s
  | (name, value) :: rest, s => defineAll id rest (s.define id name value)
termination_by structural b => b

/-! ## Lists and functions -/

/-- A new list. -/
def newList (elements : Array Value) (s : Store) : ListId × Store :=
  (⟨s.lists.size⟩, { s with lists := s.lists.push elements })

/-- The elements of a list. -/
def elements (s : Store) (id : ListId) : Array Value :=
  s.lists[id.index]?.getD #[]

/-- Puts a value at the end of a list. -/
def append (id : ListId) (value : Value) (s : Store) : Store :=
  { s with lists := s.lists.modify id.index (·.push value) }

/-- A new function. -/
def newFunction (closure : Closure) (s : Store) : FunctionId × Store :=
  (⟨s.functions.size⟩, { s with functions := s.functions.push closure })

/-- The function with a number. -/
def closure? (s : Store) (id : FunctionId) : Option Closure :=
  s.functions[id.index]?

/-- A foreign object that was not there before. -/
def newForeign (s : Store) : Value × Store :=
  (.foreign s.foreigners, { s with foreigners := s.foreigners + 1 })

/-! ## Effects on bindings and elements -/

/-- Binding a name in a scope changes that scope only. -/
theorem bindings_define (s : Store) (id other : ScopeId) (name : String) (value : Value)
    (h : id.index < s.scopes.size) :
    (s.define id name value).bindings other =
      if other = id then (s.bindings id).set name value else s.bindings other := by
  obtain ⟨i⟩ := id
  obtain ⟨j⟩ := other
  simp only [bindings, define, Array.getElem?_modify, ScopeId.mk.injEq]
  by_cases hij : i = j
  · subst hij
    simp only [↓reduceIte]
    rw [Array.getElem?_eq_getElem h]
    rfl
  · have hji : ¬j = i := fun hji => hij hji.symm
    simp [hij, hji]

theorem parent?_define (s : Store) (id other : ScopeId) (name : String) (value : Value) :
    (s.define id name value).parent? other = s.parent? other := by
  simp only [parent?, define, Array.getElem?_modify]
  split
  · cases s.scopes[other.index]? <;> rfl
  · rfl

/-- Binding a name moves no scope. -/
theorem chainWithin_define (s : Store) (id : ScopeId) (name : String) (value : Value)
    (depth : Nat) (start : ScopeId) :
    (s.define id name value).chainWithin depth start = s.chainWithin depth start := by
  induction depth generalizing start with
  | zero => rfl
  | succ depth ih =>
    simp only [chainWithin, parent?_define]
    cases s.parent? start with
    | none => rfl
    | some parent => simp only [ih]

/-- Appending to a list changes that list only. -/
theorem elements_append (s : Store) (id other : ListId) (value : Value)
    (h : id.index < s.lists.size) :
    (s.append id value).elements other =
      if other = id then (s.elements id).push value else s.elements other := by
  obtain ⟨i⟩ := id
  obtain ⟨j⟩ := other
  simp only [elements, append, Array.getElem?_modify, ListId.mk.injEq]
  by_cases hij : i = j
  · subst hij
    simp only [↓reduceIte]
    rw [Array.getElem?_eq_getElem h]
    rfl
  · have hji : ¬j = i := fun hji => hij hji.symm
    simp [hij, hji]

end Store

end Boli
