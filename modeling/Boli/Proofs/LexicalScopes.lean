import Boli.Proofs.ListIdentity

/-!
# Lexical scopes

Scopes are opened alone or inside a scope that is there, names are bound in them, and names are bound
again.  In a store that comes about like this (`Store.Grown`) every scope lies in an older one, so the
way outward from a scope comes to an end.

* `Store.Belongs` says which scope a name belongs to, the nearest one on the way outward that binds
  it.
* `Store.Lexical` lists the laws of reading and binding names, for all scopes of a store at once.
* `Store.Grown.lexical` is the result that these laws hold.

A binding is seen from the scopes that it is exposed to (`Store.Exposes`), those whose way to it meets
no other binding of the name.  All else follows from this.
-/

namespace Boli

namespace Store

variable {s s' : Store} {id other target : ScopeId} {name : String} {v : Value}
  {chain : List ScopeId}

/-! ## The way outward -/

/-- The scopes on the way outward, up to one that lies in no other. -/
inductive Outward (s : Store) : ScopeId → List ScopeId → Prop where
  | last {id : ScopeId} : s.parent? id = none → Outward s id [id]
  | cons {id p : ScopeId} {chain : List ScopeId} :
    s.parent? id = some p → Outward s p chain → Outward s id (id :: chain)

/-- The way outward leads to another scope, and no scope in front of that one binds the name. -/
inductive Exposes (s : Store) (name : String) : ScopeId → ScopeId → Prop where
  | here (id : ScopeId) : Exposes s name id id
  | outer {id p target : ScopeId} :
    name ∉ s.names id → s.parent? id = some p → Exposes s name p target → Exposes s name id target

/-- A name belongs to the nearest scope on the way outward that binds it. -/
def Belongs (s : Store) (name : String) (id target : ScopeId) : Prop :=
  s.Exposes name id target ∧ name ∈ s.names target

/-- Scopes lie in older ones. -/
def Founded (s : Store) : Prop := ∀ id p, s.parent? id = some p → p.index < id.index

/-- A scope has no more scopes around it than there are older ones. -/
theorem Founded.outward_chainWithin (hs : s.Founded) {depth : Nat} (h : id.index < depth) :
    s.Outward id (s.chainWithin depth id) := by
  induction depth generalizing id with
  | zero => exact absurd h (Nat.not_lt_zero _)
  | succ depth ih =>
    rw [chainWithin]
    cases hp : s.parent? id with
    | none => exact .last hp
    | some p => exact .cons hp (ih (Nat.lt_of_lt_of_le (hs id p hp) (Nat.le_of_lt_succ h)))

theorem Founded.outward (hs : s.Founded) (id : ScopeId) : s.Outward id (s.chain id) :=
  hs.outward_chainWithin (Nat.lt_succ_self _)

/-- There is one way outward. -/
theorem Outward.unique {chain' : List ScopeId} (h : s.Outward id chain) (h' : s.Outward id chain') :
    chain = chain' := by
  induction h generalizing chain' with
  | last hp =>
    cases h' with
    | last => rfl
    | cons hp' => cases hp.symm.trans hp'
  | cons hp _ ih =>
    cases h' with
    | last hp' => cases hp.symm.trans hp'
    | cons hp' h' =>
      cases hp.symm.trans hp'
      rw [ih h']

/-- The way outward from a scope goes on as that from its parent. -/
theorem Founded.chain_of_parent {p : ScopeId} (hs : s.Founded) (hp : s.parent? id = some p) :
    s.chain id = id :: s.chain p :=
  (hs.outward id).unique (.cons hp (hs.outward p))

/-- The search for a name goes from a scope to its parent until one binds the name or has no
parent. -/
@[elab_as_elim]
theorem Founded.search {motive : ScopeId → Prop} (hs : s.Founded) (name : String)
    (bound : ∀ id, name ∈ s.names id → motive id)
    (outermost : ∀ id, name ∉ s.names id → s.parent? id = none → motive id)
    (outer : ∀ id p, name ∉ s.names id → s.parent? id = some p → motive p → motive id)
    (id : ScopeId) : motive id := by
  have hway {chain : List ScopeId} (hchain : s.Outward id chain) : motive id := by
    induction hchain with
    | @last id hp =>
      by_cases hid : name ∈ s.names id
      · exact bound id hid
      · exact outermost id hid hp
    | @cons id p chain hp _ ih =>
      by_cases hid : name ∈ s.names id
      · exact bound id hid
      · exact outer id p hid hp ih
  exact hway (hs.outward id)

/-! ## Looking for a name -/

/-- A name that is bound in the scope belongs to it. -/
theorem resolve?_of_mem (h : name ∈ s.names id) : s.resolve? id name = some id := by
  rw [resolve?, chain, chainWithin]
  exact List.find?_cons_of_pos ((Bindings.isSome_get? name _).2 h)

/-- A name that is not bound in the scope belongs where it belongs for the parent. -/
theorem resolve?_of_parent {p : ScopeId} (hs : s.Founded) (hid : name ∉ s.names id)
    (hp : s.parent? id = some p) : s.resolve? id name = s.resolve? p name := by
  rw [resolve?, hs.chain_of_parent hp]
  exact List.find?_cons_of_neg (mt (Bindings.isSome_get? name _).1 hid)

/-- Behind the outermost scope nothing is found. -/
theorem resolve?_of_outermost (hid : name ∉ s.names id) (hp : s.parent? id = none) :
    s.resolve? id name = none := by
  rw [resolve?, chain, chainWithin, hp]
  exact List.find?_cons_of_neg (mt (Bindings.isSome_get? name _).1 hid)

theorem lookup?_of_mem (h : name ∈ s.names id) :
    s.lookup? id name = Bindings.get? name (s.bindings id) := by
  rw [lookup?, resolve?_of_mem h, Option.bind_some]

theorem lookup?_of_parent {p : ScopeId} (hs : s.Founded) (hid : name ∉ s.names id)
    (hp : s.parent? id = some p) : s.lookup? id name = s.lookup? p name := by
  rw [lookup?, lookup?, resolve?_of_parent hs hid hp]

theorem lookup?_of_outermost (hid : name ∉ s.names id) (hp : s.parent? id = none) :
    s.lookup? id name = none := by
  rw [lookup?, resolve?_of_outermost hid hp, Option.bind_none]

/-! ## Where a name belongs -/

/-- Nothing further out is exposed to a scope that binds the name. -/
theorem Exposes.eq_of_mem (h : s.Exposes name id target) (hid : name ∈ s.names id) :
    target = id := by
  cases h with
  | here => rfl
  | outer hnot => exact absurd hid hnot

/-- The search finds no scope but the one that the name belongs to. -/
theorem belongs_of_resolve? (hs : s.Founded) (h : s.resolve? id name = some target) :
    s.Belongs name id target := by
  refine ⟨?_, mem_names_of_resolve? h⟩
  induction id using hs.search name with
  | bound id hid =>
    cases (resolve?_of_mem hid).symm.trans h
    exact .here target
  | outermost id hid hp => cases (resolve?_of_outermost hid hp).symm.trans h
  | outer id p hid hp ih => exact .outer hid hp (ih ((resolve?_of_parent hs hid hp).symm.trans h))

/-- The search comes to a scope that is exposed, and stops there if it binds the name. -/
theorem resolve?_of_exposes (hs : s.Founded) (h : s.Exposes name id target)
    (htarget : name ∈ s.names target) : s.resolve? id name = some target := by
  induction h with
  | here => exact resolve?_of_mem htarget
  | outer hid hp _ ih => rw [resolve?_of_parent hs hid hp, ih htarget]

theorem resolve?_eq_some_iff (hs : s.Founded) :
    s.resolve? id name = some target ↔ s.Belongs name id target :=
  ⟨belongs_of_resolve? hs, fun h => resolve?_of_exposes hs h.1 h.2⟩

theorem isBound_iff (hs : s.Founded) :
    s.isBound id name ↔ ∃ target, s.Belongs name id target := by
  rw [isBound, Option.isSome_iff_exists]
  exact exists_congr fun _ => resolve?_eq_some_iff hs

theorem lookup?_eq_some_iff (hs : s.Founded) :
    s.lookup? id name = some v ↔
      ∃ target, s.Belongs name id target ∧ Bindings.get? name (s.bindings target) = some v := by
  rw [lookup?, Option.bind_eq_some_iff]
  exact exists_congr fun _ => and_congr_left' (resolve?_eq_some_iff hs)

/-- A name has a value if it belongs to a scope. -/
theorem isSome_lookup? (s : Store) (id : ScopeId) (name : String) :
    (s.lookup? id name).isSome = s.isBound id name := by
  rw [lookup?, isBound]
  cases h : s.resolve? id name with
  | none => rfl
  | some target => exact (Bindings.isSome_get? name _).2 (mem_names_of_resolve? h)

/-- And then it can get another one. -/
theorem isSome_assign? (s : Store) (id : ScopeId) (name : String) (v : Value) :
    (s.assign? id name v).isSome = s.isBound id name :=
  Option.isSome_map

/-! ## Binding a name -/

theorem Founded.define (hs : s.Founded) (id : ScopeId) (name : String) (v : Value) :
    (s.define id name v).Founded := by
  intro other p hp
  rw [parent?_define] at hp
  exact hs other p hp

/-- A new scope is younger than the one that it lies in. -/
theorem Founded.newScope {p : Option ScopeId} (hs : s.Founded)
    (hp : ∀ parent ∈ p, s.Has (.scope parent)) : (s.newScope p).2.Founded := by
  intro other parent hparent
  rw [parent?_newScope] at hparent
  split at hparent
  · next hnew =>
    rw [hnew]
    exact hp parent hparent
  · exact hs other parent hparent

/-- A binding is seen from where it is exposed to. -/
theorem lookup?_define_of_exposes (hs : s.Founded) (hid : s.Has (.scope id))
    (h : s.Exposes name other id) (v : Value) :
    (s.define id name v).lookup? other name = some v := by
  induction h with
  | here => exact lookup?_define hid name v
  | @outer other p id hother hp _ ih =>
    by_cases heq : other = id
    · subst heq
      exact lookup?_define hid name v
    · rw [lookup?_of_parent (hs.define id name v)]
      · exact ih hid
      · rwa [names_define s id other name v heq]
      · rwa [parent?_define]

/-- Elsewhere the name has the value that it had. -/
theorem lookup?_define_of_not_exposes (hs : s.Founded) (hid : s.Has (.scope id))
    (h : ¬s.Exposes name other id) (v : Value) :
    (s.define id name v).lookup? other name = s.lookup? other name := by
  induction other using hs.search name with
  | bound other hother =>
    have hne : other ≠ id := fun heq => h (heq ▸ .here other)
    have hbindings : (s.define id name v).bindings other = s.bindings other := by
      rw [bindings_define s id other name v hid, if_neg hne]
    rw [lookup?_of_mem hother, lookup?_of_mem (by rwa [names, hbindings]), hbindings]
  | outermost other hother hp =>
    have hne : other ≠ id := fun heq => h (heq ▸ .here other)
    rw [lookup?_of_outermost hother hp, lookup?_of_outermost]
    · rwa [names_define s id other name v hne]
    · rwa [parent?_define]
  | outer other p hother hp ih =>
    have hne : other ≠ id := fun heq => h (heq ▸ .here other)
    rw [lookup?_of_parent hs hother hp, lookup?_of_parent (hs.define id name v)]
    · exact ih fun hexposes => h (.outer hother hp hexposes)
    · rwa [names_define s id other name v hne]
    · rwa [parent?_define]

/-- Other names have the values that they had. -/
theorem lookup?_define_of_ne {m : String} (hid : s.Has (.scope id)) (hm : m ≠ name)
    (other : ScopeId) (v : Value) :
    (s.define id name v).lookup? other m = s.lookup? other m := by
  have hget (scope : ScopeId) : Bindings.get? m ((s.define id name v).bindings scope) =
      Bindings.get? m (s.bindings scope) := by
    rw [bindings_define s id scope name v hid]
    split
    · next heq => rw [Bindings.get?_set, if_neg hm, heq]
    · rfl
  simp only [lookup?, resolve?, chain, chainWithin_define, hget]

theorem lookup?_define_of_unseen {m : String} (hs : s.Founded) (hid : s.Has (.scope id))
    (h : ¬(m = name ∧ s.Exposes name other id)) (v : Value) :
    (s.define id name v).lookup? other m = s.lookup? other m := by
  by_cases hm : m = name
  · subst hm
    exact lookup?_define_of_not_exposes hs hid (fun hexposes => h ⟨rfl, hexposes⟩) v
  · exact lookup?_define_of_ne hid hm other v

/-! ## The laws -/

/-- The stores that come of opening scopes and binding names in them.  Whatever else is in the store
has nothing to do with it. -/
inductive Grown : Store → Prop where
  | start {s : Store} : s.scopes = #[] → Grown s
  | root {s : Store} : Grown s → Grown (s.newScope none).2
  | child {s : Store} {id : ScopeId} :
    Grown s → s.Has (.scope id) → Grown (s.newScope (some id)).2
  | define {s : Store} {id : ScopeId} (name : String) (v : Value) :
    Grown s → s.Has (.scope id) → Grown (s.define id name v)
  | assign {s s' : Store} {id : ScopeId} {name : String} {v : Value} :
    Grown s → s.assign? id name v = some s' → Grown s'

theorem Grown.founded (h : s.Grown) : s.Founded := by
  induction h with
  | start hnone =>
    intro id p hp
    rw [parent?, hnone] at hp
    cases hp
  | root _ ih => exact ih.newScope (by simp)
  | child _ hid ih => exact ih.newScope fun p hp => Option.some.inj hp ▸ hid
  | define name v _ _ ih => exact ih.define _ name v
  | assign _ hassign ih =>
    obtain ⟨target, _, rfl⟩ := Option.map_eq_some_iff.1 hassign
    exact ih.define target _ _

/-- The laws of lexical scopes. -/
structure Lexical (s : Store) : Prop where
  /-- The way outward comes to an end, and the chain is what lies on it. -/
  outward : ∀ id, s.Outward id (s.chain id)
  /-- The scope that is found for a name is the one that it belongs to. -/
  resolves : ∀ id name target, s.resolve? id name = some target ↔ s.Belongs name id target
  /-- The value of a name is the one that it has in the scope it belongs to. -/
  reads : ∀ id name v, s.lookup? id name = some v ↔
    ∃ target, s.Belongs name id target ∧ Bindings.get? name (s.bindings target) = some v
  /-- A name is there if it belongs to a scope. -/
  present : ∀ id name, s.isBound id name ↔ ∃ target, s.Belongs name id target
  /-- Then it has a value. -/
  readable : ∀ id name, (s.lookup? id name).isSome ↔ ∃ target, s.Belongs name id target
  /-- And then it can get another one. -/
  assignable : ∀ id name v, (s.assign? id name v).isSome ↔ ∃ target, s.Belongs name id target
  /-- A new value is seen from everywhere where the name belongs to the same scope. -/
  assigned : ∀ id name v s', s.assign? id name v = some s' →
    ∀ other, s.resolve? other name = s.resolve? id name → s'.lookup? other name = some v
  /-- Nothing else is seen of it. -/
  unassigned : ∀ id name v s', s.assign? id name v = some s' →
    ∀ other m, ¬(m = name ∧ s.resolve? other name = s.resolve? id name) →
      s'.lookup? other m = s.lookup? other m
  /-- A binding is seen from everywhere where it is exposed to. -/
  defined : ∀ id name v, s.Has (.scope id) →
    ∀ other, s.Exposes name other id → (s.define id name v).lookup? other name = some v
  /-- Nothing else is seen of it. -/
  undefined : ∀ id name v, s.Has (.scope id) →
    ∀ other m, ¬(m = name ∧ s.Exposes name other id) →
      (s.define id name v).lookup? other m = s.lookup? other m
  /-- Where a name belongs to no scope, reading it and giving it a value fail and change nothing. -/
  fails : ∀ (m : Machine) id name v line, m.store = s → (¬∃ target, s.Belongs name id target) →
    Action.lookup id name line m = .error (.fault ⟨.undefinedVariable name, line⟩) m ∧
      Action.assign id name v line m = .error (.fault ⟨.undefinedTarget name, line⟩) m

end Store

theorem Action.lookup_of_none {scope : ScopeId} {name : String} {m : Machine}
    (h : m.store.lookup? scope name = none) (line : Line) :
    lookup scope name line m = .error (.fault ⟨.undefinedVariable name, line⟩) m := by
  rw [lookup, get_bind, h]
  rfl

theorem Action.assign_of_none {scope : ScopeId} {name : String} {m : Machine}
    (h : m.store.resolve? scope name = none) (v : Value) (line : Line) :
    assign scope name v line m = .error (.fault ⟨.undefinedTarget name, line⟩) m := by
  rw [assign_eq, h]

namespace Store

variable {s s' : Store} {id : ScopeId} {name : String} {v : Value}

/-- Giving a name a value is binding it where it belongs, and that scope is exposed just to those
where the name belongs to it too. -/
theorem exists_of_assign? (hs : s.Founded) (h : s.assign? id name v = some s') :
    ∃ target, s.Has (.scope target) ∧ s' = s.define target name v ∧
      ∀ other, s.Exposes name other target ↔ s.resolve? other name = s.resolve? id name := by
  obtain ⟨target, hresolve, rfl⟩ := Option.map_eq_some_iff.1 h
  have hbound := mem_names_of_resolve? hresolve
  refine ⟨target, has_of_mem_names hbound, rfl, fun other => ?_⟩
  rw [hresolve, resolve?_eq_some_iff hs, Belongs]
  exact (and_iff_left hbound).symm

/-- The laws of lexical scopes hold in every store that comes of opening scopes and binding names. -/
theorem Grown.lexical (h : s.Grown) : s.Lexical := by
  have hs := h.founded
  refine
    { outward := hs.outward
      resolves := fun _ _ _ => resolve?_eq_some_iff hs
      reads := fun _ _ _ => lookup?_eq_some_iff hs
      present := fun _ _ => isBound_iff hs
      readable := ?readable
      assignable := ?assignable
      assigned := ?assigned
      unassigned := ?unassigned
      defined := fun _ _ v hid _ hexposes => lookup?_define_of_exposes hs hid hexposes v
      undefined := fun _ _ v hid _ _ hunseen => lookup?_define_of_unseen hs hid hunseen v
      fails := ?fails }
  case readable =>
    intro id name
    rw [isSome_lookup?, isBound_iff hs]
  case assignable =>
    intro id name v
    rw [isSome_assign?, isBound_iff hs]
  case assigned =>
    intro id name v s' hassign other hother
    obtain ⟨target, htarget, rfl, hexposes⟩ := exists_of_assign? hs hassign
    exact lookup?_define_of_exposes hs htarget ((hexposes other).2 hother) v
  case unassigned =>
    intro id name v s' hassign other m hother
    obtain ⟨target, htarget, rfl, hexposes⟩ := exists_of_assign? hs hassign
    rw [← hexposes] at hother
    exact lookup?_define_of_unseen hs htarget hother v
  case fails =>
    rintro m id name v line rfl hnone
    have hresolve : m.store.resolve? id name = none := by
      rwa [← isBound_iff hs, isBound, Option.not_isSome_iff_eq_none] at hnone
    have hlookup : m.store.lookup? id name = none := by
      rw [lookup?, hresolve, Option.bind_none]
    exact ⟨Action.lookup_of_none hlookup line, Action.assign_of_none hresolve v line⟩

/-- A name that is bound in the outermost scope and again two scopes further in.  A sibling of the
inner scope sees the outer binding, and another outermost scope has a binding of its own. -/
def shadowed : Store :=
  let s := (newScope none {}).2.define ⟨0⟩ "x" (.text "outer")
  let s := (s.newScope (some ⟨0⟩)).2
  let s := (s.newScope (some ⟨1⟩)).2.define ⟨2⟩ "x" (.text "inner")
  let s := (s.newScope (some ⟨1⟩)).2
  (s.newScope none).2.define ⟨4⟩ "x" (.text "apart")

theorem grown_shadowed : shadowed.Grown :=
  .define _ _ (.root (.child (.define _ _ (.child (.child (.define _ _ (.root (.start rfl))
    (by decide)) (by decide)) (by decide)) (by decide)) (by decide))) (by decide)

/-- The sibling gives the name a new value, and so do all scopes that see the outer binding.  A
binding between the two is seen by the sibling and not by the inner scope. -/
theorem lexical_shadowed :
    (∃ s', shadowed.assign? ⟨3⟩ "x" (.text "new") = some s' ∧
      s'.lookup? ⟨0⟩ "x" = some (.text "new") ∧ s'.lookup? ⟨1⟩ "x" = some (.text "new") ∧
        s'.lookup? ⟨2⟩ "x" = some (.text "inner") ∧ s'.lookup? ⟨4⟩ "x" = some (.text "apart")) ∧
      (shadowed.define ⟨1⟩ "x" (.text "new")).lookup? ⟨3⟩ "x" = some (.text "new") ∧
      (shadowed.define ⟨1⟩ "x" (.text "new")).lookup? ⟨2⟩ "x" = some (.text "inner") := by
  have laws := Grown.lexical grown_shadowed
  have hassign : (shadowed.assign? ⟨3⟩ "x" (.text "new")).isSome := by decide
  have hinner : ¬shadowed.Exposes "x" ⟨2⟩ ⟨1⟩ := fun h =>
    absurd (h.eq_of_mem (by decide)) (by decide)
  obtain ⟨s', h⟩ := Option.isSome_iff_exists.1 hassign
  refine ⟨⟨s', h, ?_, ?_, ?_, ?_⟩, ?_, ?_⟩
  · exact laws.assigned ⟨3⟩ "x" _ s' h ⟨0⟩ (by decide)
  · exact laws.assigned ⟨3⟩ "x" _ s' h ⟨1⟩ (by decide)
  · exact laws.unassigned ⟨3⟩ "x" _ s' h ⟨2⟩ "x" (by decide)
  · exact laws.unassigned ⟨3⟩ "x" _ s' h ⟨4⟩ "x" (by decide)
  · exact laws.defined ⟨1⟩ "x" _ (by decide) ⟨3⟩ (.outer (by decide) rfl (.here _))
  · exact laws.undefined ⟨1⟩ "x" _ (by decide) ⟨2⟩ "x" fun h => hinner h.2

end Store

end Boli
