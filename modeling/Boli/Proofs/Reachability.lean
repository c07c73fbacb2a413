import Mathlib
import Boli.Proofs.Source
import Boli.Run.Machine

/-!
# Reachability in the store

The scopes, lists and functions of a store form a graph: a scope points to its parent and to what
its names are bound to, a list points to its elements, and a function to the scope it was defined
in.  `Store.Reaches` follows these pointers.

A set of references is *closed* (`Store.Closed`) if no pointer leads out of it, nothing in it holds
a foreign object, and it contains whatever the store may create next.  Each operation of the store
on members of a closed set keeps the set closed.
-/

namespace Boli

/-- Something with an identity. -/
inductive Ref where
  | scope (id : ScopeId)
  | list (id : ListId)
  | function (id : FunctionId)
deriving DecidableEq

/-- What a value refers to. -/
def Value.ref? : Value → Option Ref
  | list id => some (.list id)
  | function id => some (.function id)
  | null | boolean _ | number _ | text _ | foreign _ => none

namespace Bindings

theorem mem_of_get? {name : String} {v : Value} {b : Bindings} (h : get? name b = some v) :
    (name, v) ∈ b := by
  induction b with
  | nil => cases h
  | cons p rest ih =>
    obtain ⟨n, w⟩ := p
    by_cases hn : n = name
    · simp_all [get?]
    · simp only [get?, hn, ↓reduceIte] at h
      exact List.mem_cons_of_mem _ (ih h)

/-- A binding that is there after a name was bound is the new one or was there before. -/
theorem mem_set {name : String} {value : Value} {p : String × Value} {b : Bindings}
    (h : p ∈ set name value b) : p.2 = value ∨ p ∈ b := by
  induction b with
  | nil =>
    rw [set, List.mem_singleton] at h
    exact .inl (by rw [h])
  | cons q rest ih =>
    obtain ⟨n, w⟩ := q
    by_cases hn : n = name
    · simp only [set, hn, ↓reduceIte, List.mem_cons] at h
      rcases h with rfl | h
      · exact .inl rfl
      · exact .inr (List.mem_cons_of_mem _ h)
    · simp only [set, hn, ↓reduceIte, List.mem_cons] at h
      rcases h with rfl | h
      · exact .inr List.mem_cons_self
      · exact (ih h).imp_right (List.mem_cons_of_mem _)

end Bindings

namespace Store

/-- The store has an object with this reference. -/
def Has (s : Store) : Ref → Prop
  | .scope id => id.index < s.scopes.size
  | .list id => id.index < s.lists.size
  | .function id => id.index < s.functions.size

instance (s : Store) : (r : Ref) → Decidable (s.Has r)
  | .scope id => inferInstanceAs (Decidable (id.index < s.scopes.size))
  | .list id => inferInstanceAs (Decidable (id.index < s.lists.size))
  | .function id => inferInstanceAs (Decidable (id.index < s.functions.size))

/-- A value stands in a scope or a list. -/
inductive Contains (s : Store) : Ref → Value → Prop where
  | binding {id : ScopeId} (h : (name, v) ∈ s.bindings id) : Contains s (.scope id) v
  | element {id : ListId} (h : v ∈ s.elements id) : Contains s (.list id) v

/-- One object refers to another one. -/
inductive Points (s : Store) : Ref → Ref → Prop where
  | parent {id : ScopeId} (h : s.parent? id = some p) : Points s (.scope id) (.scope p)
  | content (h : s.Contains r v) (hv : v.ref? = some r') : Points s r r'
  | closure {id : FunctionId} (h : s.closure? id = some c) :
    Points s (.function id) (.scope c.scope)

/-- A chain of references leads from one object to another one. -/
def Reaches (s : Store) : Ref → Ref → Prop := Relation.ReflTransGen s.Points

/-! ## Closed sets -/

variable {A : Ref → Prop} {s s' : Store}

/-- An object of the store that belongs to a set. -/
def Holds (A : Ref → Prop) (s : Store) (r : Ref) : Prop := A r ∧ s.Has r

/-- A value of the language that refers to a member of a set, if to anything. -/
def Within (A : Ref → Prop) (s : Store) : Value → Prop
  | .list id => s.Holds A (.list id)
  | .function id => s.Holds A (.function id)
  | .null | .boolean _ | .number _ | .text _ => True
  | .foreign _ => False

/-- No pointer leads out of the set, and every function has a body that was read. -/
structure Closed (A : Ref → Prop) (s : Store) : Prop where
  fresh : ∀ r, ¬s.Has r → A r
  contents : ∀ r v, A r → s.Contains r v → s.Within A v
  parents : ∀ id p, A (.scope id) → s.parent? id = some p → s.Holds A (.scope p)
  closures : ∀ id c, A (.function id) → s.closure? id = some c → s.Holds A (.scope c.scope)
  bodies : ∀ id c, s.closure? id = some c → Program.WellFormed c.body

/-- Nothing disappears from the store. -/
def Grows (s s' : Store) : Prop := ∀ r, s.Has r → s'.Has r

theorem Grows.refl : s.Grows s := fun _ h => h

theorem Holds.grow {r : Ref} (h : s.Holds A r) (hs : s.Grows s') : s'.Holds A r :=
  ⟨h.1, hs r h.2⟩

/-- A value that refers to a member goes on to do so. -/
theorem Within.grow {v : Value} (h : s.Within A v) (hs : s.Grows s') : s'.Within A v := by
  cases v with
  | list id => exact Holds.grow h hs
  | function id => exact Holds.grow h hs
  | foreign _ => exact h
  | null | boolean _ | number _ | text _ => trivial

theorem Within.holds {v : Value} {r : Ref} (h : s.Within A v) (hr : v.ref? = some r) :
    s.Holds A r := by
  cases v <;> cases hr <;> exact h

/-- One pointer does not leave a closed set. -/
theorem Closed.points (h : s.Closed A) {r r' : Ref} (hr : A r) (hp : s.Points r r') :
    s.Holds A r' := by
  cases hp with
  | parent hp => exact h.parents _ _ hr hp
  | content hc hv => exact (h.contents _ _ hr hc).holds hv
  | closure hc => exact h.closures _ _ hr hc

/-- What a member of a closed set reaches is a member as well. -/
theorem Closed.reaches (h : s.Closed A) {r r' : Ref} (hr : s.Holds A r) (hp : s.Reaches r r') :
    s.Holds A r' := by
  induction hp with
  | refl => exact hr
  | tail _ hp ih => exact h.points ih.1 hp

/-! ## What the operations do -/

/-- The bindings of a scope hold nothing new but the value that was bound. -/
theorem mem_bindings_define {id other : ScopeId} {name : String} {value : Value}
    {p : String × Value} (h : p ∈ (s.define id name value).bindings other) :
    p.2 = value ∨ p ∈ s.bindings other := by
  simp only [bindings, define, Array.getElem?_modify] at h
  by_cases hid : id.index = other.index
  · cases hs : s.scopes[other.index]? with
    | none => simp [hid, hs] at h
    | some scope =>
      simp only [hid, hs, ↓reduceIte, Option.map_some] at h
      simpa only [bindings, hs] using Bindings.mem_set h
  · rw [if_neg hid] at h
    exact .inr h

/-- The elements of a list hold nothing new but the value that was appended. -/
theorem mem_elements_append {id other : ListId} {value v : Value}
    (h : v ∈ (s.append id value).elements other) : v = value ∨ v ∈ s.elements other := by
  simp only [elements, append, Array.getElem?_modify] at h
  by_cases hid : id.index = other.index
  · cases hs : s.lists[other.index]? with
    | none => simp [hid, hs] at h
    | some xs =>
      simp only [hid, hs, ↓reduceIte, Option.map_some, Option.getD_some, Array.mem_push] at h
      simpa only [elements, hs, Option.getD_some] using h.symm
  · rw [if_neg hid] at h
    exact .inr h

/-- A new scope binds nothing, and the others bind what they bound. -/
theorem bindings_newScope (parent : Option ScopeId) (id : ScopeId) :
    (s.newScope parent).2.bindings id = s.bindings id := by
  simp only [bindings, newScope, Array.getElem?_push]
  by_cases hid : id.index = s.scopes.size
  · simp [hid]
  · rw [if_neg hid]

/-- Only the new scope gets a parent. -/
theorem parent?_newScope (parent : Option ScopeId) (id : ScopeId) :
    (s.newScope parent).2.parent? id =
      if id.index = s.scopes.size then parent else s.parent? id := by
  simp only [parent?, newScope, Array.getElem?_push]
  split <;> rfl

theorem elements_newList (xs : Array Value) (id : ListId) :
    (s.newList xs).2.elements id = if id.index = s.lists.size then xs else s.elements id := by
  simp only [elements, newList, Array.getElem?_push]
  split <;> rfl

theorem closure?_newFunction (c : Closure) (id : FunctionId) :
    (s.newFunction c).2.closure? id =
      if id.index = s.functions.size then some c else s.closure? id := by
  simp only [closure?, newFunction, Array.getElem?_push]

theorem has_define {id : ScopeId} {name : String} {value : Value} {r : Ref} :
    (s.define id name value).Has r ↔ s.Has r := by
  cases r <;> simp [Has, define]

theorem has_append {id : ListId} {value : Value} {r : Ref} :
    (s.append id value).Has r ↔ s.Has r := by
  cases r <;> simp [Has, append]

/-- There is one object more, the new scope. -/
theorem has_newScope {parent : Option ScopeId} {r : Ref} :
    (s.newScope parent).2.Has r ↔ s.Has r ∨ r = .scope (s.newScope parent).1 := by
  cases r with
  | scope id => obtain ⟨i⟩ := id; simp [Has, newScope]; omega
  | list id => simp [Has, newScope]
  | function id => simp [Has, newScope]

theorem has_newList {xs : Array Value} {r : Ref} :
    (s.newList xs).2.Has r ↔ s.Has r ∨ r = .list (s.newList xs).1 := by
  cases r with
  | scope id => simp [Has, newList]
  | list id => obtain ⟨i⟩ := id; simp [Has, newList]; omega
  | function id => simp [Has, newList]

theorem has_newFunction {c : Closure} {r : Ref} :
    (s.newFunction c).2.Has r ↔ s.Has r ∨ r = .function (s.newFunction c).1 := by
  cases r with
  | scope id => simp [Has, newFunction]
  | list id => simp [Has, newFunction]
  | function id => obtain ⟨i⟩ := id; simp [Has, newFunction]; omega

/-- Nothing comes to stand in a scope or a list but the value that was bound. -/
theorem contains_define {id : ScopeId} {name : String} {value v : Value} {r : Ref}
    (h : (s.define id name value).Contains r v) : s.Contains r v ∨ v = value := by
  cases h with
  | binding hb => exact (mem_bindings_define hb).symm.imp_left .binding
  | element he => exact .inl (.element he)

theorem contains_append {id : ListId} {value v : Value} {r : Ref}
    (h : (s.append id value).Contains r v) : s.Contains r v ∨ v = value := by
  cases h with
  | binding hb => exact .inl (.binding hb)
  | element he => exact (mem_elements_append he).symm.imp_left .element

theorem contains_newScope {parent : Option ScopeId} {v : Value} {r : Ref}
    (h : (s.newScope parent).2.Contains r v) : s.Contains r v := by
  cases h with
  | binding hb =>
    rw [bindings_newScope] at hb
    exact .binding hb
  | element he => exact .element he

theorem contains_newList {xs : Array Value} {v : Value} {r : Ref}
    (h : (s.newList xs).2.Contains r v) : s.Contains r v ∨ v ∈ xs := by
  cases h with
  | binding hb => exact .inl (.binding hb)
  | element he =>
    rw [elements_newList] at he
    split at he
    · exact .inr he
    · exact .inl (.element he)

/-- A new function stands nowhere yet. -/
theorem contains_newFunction {c : Closure} {v : Value} {r : Ref}
    (h : (s.newFunction c).2.Contains r v) : s.Contains r v := by
  cases h with
  | binding hb => exact .binding hb
  | element he => exact .element he

/-! ## The operations keep a set closed -/

theorem grows_define {id : ScopeId} {name : String} {value : Value} :
    s.Grows (s.define id name value) :=
  fun _ => has_define.mpr

theorem grows_append {id : ListId} {value : Value} : s.Grows (s.append id value) :=
  fun _ => has_append.mpr

theorem grows_newScope {parent : Option ScopeId} : s.Grows (s.newScope parent).2 :=
  fun _ h => has_newScope.mpr (.inl h)

theorem grows_newList {xs : Array Value} : s.Grows (s.newList xs).2 :=
  fun _ h => has_newList.mpr (.inl h)

theorem grows_newFunction {c : Closure} : s.Grows (s.newFunction c).2 :=
  fun _ h => has_newFunction.mpr (.inl h)

/-- A set stays closed as long as whatever is new in the store refers to members of it. -/
theorem Closed.step (h : s.Closed A) (grows : s.Grows s')
    (contents : ∀ r v, s'.Contains r v → s.Contains r v ∨ s.Within A v)
    (parents : ∀ id p, s'.parent? id = some p → s.parent? id = some p ∨ s.Holds A (.scope p))
    (closures : ∀ id c, s'.closure? id = some c →
      s.closure? id = some c ∨ (s.Holds A (.scope c.scope) ∧ Program.WellFormed c.body)) :
    s'.Closed A where
  fresh r hr := h.fresh r fun hs => hr (grows r hs)
  contents r v hr hv :=
    ((contents r v hv).elim (h.contents r v hr) id).grow grows
  parents i p hi hp := ((parents i p hp).elim (h.parents i p hi) id).grow grows
  closures i c hi hc := ((closures i c hc).elim (h.closures i c hi) And.left).grow grows
  bodies i c hc := (closures i c hc).elim (h.bodies i c) And.right

/-- A value that refers to a member may be bound anywhere. -/
theorem Closed.define (h : s.Closed A) {id : ScopeId} {name : String} {value : Value}
    (hv : s.Within A value) : (s.define id name value).Closed A := by
  refine h.step grows_define (fun r v hc => ?_) (fun i p hp => ?_) fun _ _ => .inl
  · rcases contains_define hc with hold | rfl
    · exact .inl hold
    · exact .inr hv
  · rw [parent?_define] at hp
    exact .inl hp

theorem Closed.append (h : s.Closed A) {id : ListId} {value : Value}
    (hv : s.Within A value) : (s.append id value).Closed A := by
  refine h.step grows_append (fun r v hc => ?_) (fun _ _ => .inl) fun _ _ => .inl
  rcases contains_append hc with hold | rfl
  · exact .inl hold
  · exact .inr hv

/-- A scope may be opened inside a member. -/
theorem Closed.newScope (h : s.Closed A) {p : ScopeId} (hp : s.Holds A (.scope p)) :
    (s.newScope (some p)).2.Closed A := by
  refine h.step grows_newScope (fun r v hc => .inl (contains_newScope hc)) (fun i q hq => ?_)
    fun _ _ => .inl
  rw [parent?_newScope] at hq
  split at hq
  · cases hq
    exact .inr hp
  · exact .inl hq

theorem Closed.newList (h : s.Closed A) {xs : Array Value} (hxs : ∀ v ∈ xs, s.Within A v) :
    (s.newList xs).2.Closed A := by
  refine h.step grows_newList (fun r v hc => ?_) (fun _ _ => .inl) fun _ _ => .inl
  exact (contains_newList hc).imp_right (hxs v)

/-- A function may be made in a member if its body was read. -/
theorem Closed.newFunction (h : s.Closed A) {c : Closure} (hc : s.Holds A (.scope c.scope))
    (hbody : Program.WellFormed c.body) : (s.newFunction c).2.Closed A := by
  refine h.step grows_newFunction (fun r v hv => .inl (contains_newFunction hv)) (fun _ _ => .inl)
    fun i d hd => ?_
  rw [closure?_newFunction] at hd
  split at hd
  · cases hd
    exact .inr ⟨hc, hbody⟩
  · exact .inl hd

/-! ## What lookup finds -/

/-- The way outward from a scope does not leave a closed set. -/
theorem Closed.holds_of_mem_chainWithin (h : s.Closed A) {depth : Nat} {id target : ScopeId}
    (hid : s.Holds A (.scope id)) (ht : target ∈ s.chainWithin depth id) :
    s.Holds A (.scope target) := by
  induction depth generalizing id with
  | zero => cases ht
  | succ depth ih =>
    rw [chainWithin, List.mem_cons] at ht
    rcases ht with rfl | ht
    · exact hid
    · cases hp : s.parent? id with
      | none => simp [hp] at ht
      | some p =>
        rw [hp] at ht
        exact ih (h.parents id p hid.1 hp) ht

theorem Closed.holds_of_resolve? (h : s.Closed A) {id target : ScopeId} {name : String}
    (hid : s.Holds A (.scope id)) (ht : s.resolve? id name = some target) :
    s.Holds A (.scope target) :=
  h.holds_of_mem_chainWithin hid (List.mem_of_find?_eq_some ht)

/-- A value that is found from a member refers to members. -/
theorem Closed.within_of_lookup? (h : s.Closed A) {id : ScopeId} {name : String} {v : Value}
    (hid : s.Holds A (.scope id)) (hv : s.lookup? id name = some v) : s.Within A v := by
  obtain ⟨target, ht, hget⟩ := Option.bind_eq_some_iff.mp hv
  exact h.contents _ _ (h.holds_of_resolve? hid ht).1 (.binding (Bindings.mem_of_get? hget))

theorem Closed.within_of_mem_elements (h : s.Closed A) {id : ListId} {v : Value}
    (hid : A (.list id)) (hv : v ∈ s.elements id) : s.Within A v :=
  h.contents _ _ hid (.element hv)

end Store

end Boli
