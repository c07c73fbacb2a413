import Boli.Proofs.Reachability
import Boli.Run.Eval

/-!
# Confinement

An action that starts from members of a closed set of references stays inside of it: it changes
nothing outside, and what it returns refers to members only.  It also stops for ordinary reasons
only: never on an operation without meaning, and on an error of the host only if the output is full.

* `Machine.Follows` compares the machine before an action with the one after it.
* `Action.Runs` says all of this about one action, whether it has a value or stops.  Its rules
  follow the combinators of actions.
* `Action.eval_runs` and `Action.exec_runs` are the results for trees that were read.
-/

namespace Boli

open Store

/-- A reason to stop that a tree that was read may give. -/
def Stop.Ordinary (m : Machine) : Stop → Prop
  | .fault f => ∀ what, f.cause ≠ .unknownOperation what
  | .host e => (∃ reason, e = .sinkFailed reason) ∧ m.sink.room ≠ none
  | .unfinished => True

namespace Store

/-- If some values have no texts, one of them is why. -/
theorem exists_of_displayAll_error {display : Value → Except Unprintable String} {vs : List Value}
    {e : Unprintable} (h : displayAll display vs = .error e) : ∃ v ∈ vs, display v = .error e := by
  induction vs with
  | nil => cases h
  | cons v vs ih =>
    simp only [displayAll, bind, Except.bind] at h
    cases hv : display v with
    | error e' =>
      rw [hv] at h
      cases h
      exact ⟨v, List.mem_cons_self, hv⟩
    | ok text =>
      cases hvs : displayAll display vs with
      | error e' =>
        simp only [hv, hvs] at h
        cases h
        obtain ⟨w, hw, herror⟩ := ih hvs
        exact ⟨w, List.mem_cons_of_mem v hw, herror⟩
      | ok texts =>
        simp only [hv, hvs] at h
        cases h

/-- If a list has no text, one of its elements is why. -/
theorem exists_of_displayWithin_error {s : Store} {depth : Nat} {id : ListId} {e : Unprintable}
    (h : s.displayWithin (depth + 1) (.list id) = .error e) :
    ∃ v ∈ s.elements id, s.displayWithin depth v = .error e := by
  simp only [displayWithin, bind, Except.bind] at h
  cases hitems : displayAll (s.displayWithin depth) (s.elements id).toList with
  | ok items => simp [hitems, Pure.pure, Except.pure] at h
  | error e' =>
    rw [hitems] at h
    cases h
    obtain ⟨v, hv, herror⟩ := exists_of_displayAll_error hitems
    exact ⟨v, Array.mem_toList_iff.1 hv, herror⟩

end Store

namespace Machine

variable {A : Ref → Prop} {m m' m'' : Machine}

/-- The second machine comes after the first one, and only members of the set have changed. -/
structure Follows (A : Ref → Prop) (m m' : Machine) : Prop where
  grows : m.store.Grows m'.store
  scopes : ∀ id : ScopeId, ¬A (.scope id) →
    m'.store.scopes[id.index]? = m.store.scopes[id.index]?
  lists : ∀ id : ListId, ¬A (.list id) →
    m'.store.lists[id.index]? = m.store.lists[id.index]?
  log : ∃ calls : List Record, (∀ r ∈ calls, r.level = .debug) ∧
    m'.log.toList = m.log.toList ++ calls
  room : m.sink.room = none → m'.sink.room = none

theorem Follows.refl : m.Follows A m :=
  ⟨.refl, fun _ _ => rfl, fun _ _ => rfl, ⟨[], by simp⟩, id⟩

theorem Follows.trans (h : m.Follows A m') (h' : m'.Follows A m'') : m.Follows A m'' := by
  obtain ⟨calls, hcalls, hlog⟩ := h.log
  obtain ⟨calls', hcalls', hlog'⟩ := h'.log
  refine ⟨fun r hr => h'.grows r (h.grows r hr), ?_, ?_, ⟨calls ++ calls', ?_, ?_⟩, ?_⟩
  · exact fun i hi => (h'.scopes i hi).trans (h.scopes i hi)
  · exact fun i hi => (h'.lists i hi).trans (h.lists i hi)
  · exact fun r hr => (List.mem_append.mp hr).elim (hcalls r) (hcalls' r)
  · rw [hlog', hlog, List.append_assoc]
  · exact fun hm => h'.room (h.room hm)

/-- The store changes, and nothing else. -/
theorem Follows.ofStore {s : Store} (grows : m.store.Grows s)
    (scopes : ∀ id : ScopeId, ¬A (.scope id) → s.scopes[id.index]? = m.store.scopes[id.index]?)
    (lists : ∀ id : ListId, ¬A (.list id) → s.lists[id.index]? = m.store.lists[id.index]?) :
    m.Follows A { m with store := s } :=
  ⟨grows, scopes, lists, ⟨[], by simp⟩, id⟩

/-- Only the output or the input changes. -/
theorem Follows.ofStore_eq (store : m'.store = m.store) (log : m'.log = m.log)
    (room : m.sink.room = none → m'.sink.room = none) : m.Follows A m' :=
  ⟨by rw [store]; exact .refl, fun _ _ => by rw [store], fun _ _ => by rw [store],
    ⟨[], by simp [log]⟩, room⟩

/-- A binding changes a scope of the set. -/
theorem follows_define {id : ScopeId} {name : String} {value : Value} (hid : A (.scope id)) :
    m.Follows A { m with store := m.store.define id name value } := by
  refine .ofStore grows_define (fun other hother => ?_) fun _ _ => rfl
  obtain ⟨i⟩ := id
  obtain ⟨j⟩ := other
  have hij : i ≠ j := by
    rintro rfl
    exact hother hid
  simp [Store.define, Array.getElem?_modify, hij]

theorem follows_append {id : ListId} {value : Value} (hid : A (.list id)) :
    m.Follows A { m with store := m.store.append id value } := by
  refine .ofStore grows_append (fun _ _ => rfl) fun other hother => ?_
  obtain ⟨i⟩ := id
  obtain ⟨j⟩ := other
  have hij : i ≠ j := by
    rintro rfl
    exact hother hid
  simp [Store.append, Array.getElem?_modify, hij]

/-- A new scope is a member of the set. -/
theorem follows_newScope (h : m.store.Closed A) {parent : Option ScopeId} :
    m.Follows A { m with store := (m.store.newScope parent).2 } := by
  refine .ofStore grows_newScope (fun id hid => ?_) fun _ _ => rfl
  have hlt : id.index < m.store.scopes.size := by_contra fun hn => hid (h.fresh _ hn)
  simp [Store.newScope, Array.getElem?_push, hlt.ne]

theorem follows_newList (h : m.store.Closed A) {xs : Array Value} :
    m.Follows A { m with store := (m.store.newList xs).2 } := by
  refine .ofStore grows_newList (fun _ _ => rfl) fun id hid => ?_
  have hlt : id.index < m.store.lists.size := by_contra fun hn => hid (h.fresh _ hn)
  simp [Store.newList, Array.getElem?_push, hlt.ne]

theorem follows_newFunction {c : Closure} :
    m.Follows A { m with store := (m.store.newFunction c).2 } :=
  .ofStore grows_newFunction (fun _ _ => rfl) fun _ _ => rfl

end Machine

namespace Action

variable {A : Ref → Prop} {m : Machine} {α β : Type} {Q Q' : Store → α → Prop}
  {R : Store → β → Prop}

/-- The action keeps to a closed set, and its value has a property. -/
def Runs (A : Ref → Prop) (m : Machine) (x : Action α) (Q : Store → α → Prop) : Prop :=
  match x m with
  | .ok a m' => m'.store.Closed A ∧ m.Follows A m' ∧ Q m'.store a
  | .error e m' => m'.store.Closed A ∧ m.Follows A m' ∧ e.Ordinary m'

namespace Runs

theorem pure {a : α} (h : m.store.Closed A) (hQ : Q m.store a) : Runs A m (pure a) Q :=
  ⟨h, .refl, hQ⟩

theorem throw {e : Stop} (h : m.store.Closed A) (he : e.Ordinary m) : Runs A m (throw e) Q :=
  ⟨h, .refl, he⟩

theorem fail {cause : Cause} {line : Line} (h : m.store.Closed A)
    (hc : ∀ what, cause ≠ .unknownOperation what) : Runs A m (fail cause line) Q :=
  throw h hc

theorem unfinished (h : m.store.Closed A) : Runs A m (MonadExcept.throw Stop.unfinished) Q :=
  throw h trivial

/-- The second part starts from a machine that is still confined. -/
theorem bind {x : Action α} {f : α → Action β} (hx : Runs A m x Q)
    (hf : ∀ a m', m'.store.Closed A → m.Follows A m' → Q m'.store a → Runs A m' (f a) R) :
    Runs A m (x >>= f) R := by
  unfold Runs at hx ⊢
  cases hxm : x m with
  | error e m' =>
    rw [hxm] at hx
    rw [bind_of_error hxm]
    exact hx
  | ok a m' =>
    rw [hxm] at hx
    rw [bind_of_ok hxm]
    have hfa := hf a m' hx.1 hx.2.1 hx.2.2
    unfold Runs at hfa
    cases hfm : f a m' with
    | ok b m'' =>
      rw [hfm] at hfa
      exact ⟨hfa.1, hx.2.1.trans hfa.2.1, hfa.2.2⟩
    | error e m'' =>
      rw [hfm] at hfa
      exact ⟨hfa.1, hx.2.1.trans hfa.2.1, hfa.2.2⟩

theorem mono {x : Action α} (hx : Runs A m x Q) (hQ : ∀ s a, Q s a → Q' s a) : Runs A m x Q' := by
  unfold Runs at hx ⊢
  cases hxm : x m with
  | ok a m' =>
    rw [hxm] at hx
    exact ⟨hx.1, hx.2.1, hQ _ _ hx.2.2⟩
  | error e m' =>
    rw [hxm] at hx
    exact hx

theorem get {f : Machine → Action β} (h : Runs A m (f m) R) : Runs A m (get >>= f) R := h

/-- Where the host has a value, the action cannot fail. -/
theorem ofHost {e : HostError} {a? : Option α} (h : m.store.Closed A) (hs : a?.isSome)
    (hQ : ∀ a, a? = some a → Q m.store a) : Runs A m (ofHost e a?) Q := by
  cases a? with
  | none => cases hs
  | some a => exact pure h (hQ a rfl)

/-- What is shown of the items one by one holds for all of them at the end, since nothing is lost on
the way. -/
theorem each {f : α → Action β} {as : List α} (h : m.store.Closed A)
    (hR : ∀ {s s' b}, R s b → s.Grows s' → R s' b)
    (hf : ∀ a ∈ as, ∀ m', m'.store.Closed A → m.Follows A m' → Runs A m' (f a) R) :
    Runs A m (each f as) fun s bs => ∀ b ∈ bs, R s b := by
  induction as generalizing m with
  | nil => exact pure h (by simp)
  | cons a as ih =>
    refine (hf a List.mem_cons_self m h .refl).bind fun b m₁ h₁ f₁ hb => ?_
    have hrest := ih h₁ fun a ha m' h' f' =>
      hf a (List.mem_cons_of_mem _ ha) m' h' (f₁.trans f')
    refine hrest.bind fun bs m₂ h₂ f₂ hbs => pure h₂ fun c hc => ?_
    rcases List.mem_cons.mp hc with rfl | hc
    · exact hR hb f₂.grows
    · exact hbs c hc

end Runs

/-! ## Values -/

/-- Values of the language have types. -/
theorem isSome_type? {s : Store} {v : Value} (hv : s.Within A v) : v.type?.isSome := by
  cases v with
  | foreign _ => cases hv
  | _ => rfl

/-- Values of the language are true or false. -/
theorem isSome_truth? {s : Store} {v : Value} (hv : s.Within A v) : v.truth?.isSome := by
  cases v with
  | foreign _ => cases hv
  | _ => rfl

theorem typeOf_runs {v : Value} (h : m.store.Closed A) (hv : m.store.Within A v) :
    Runs A m (typeOf v) fun _ _ => True :=
  .ofHost h (isSome_type? hv) fun _ _ => trivial

theorem truth_runs {v : Value} (h : m.store.Closed A) (hv : m.store.Within A v) :
    Runs A m (truth v) fun _ _ => True :=
  .ofHost h (isSome_truth? hv) fun _ _ => trivial

/-- All values but lists have a text, however deep they are. -/
theorem exists_displayWithin {s : Store} {v : Value} (depth : Nat) (hv : s.Within A v)
    (hlist : ∀ id, v ≠ .list id) : ∃ text, s.displayWithin depth v = .ok text := by
  cases v with
  | number x =>
    obtain ⟨text, ht⟩ := Option.isSome_iff_exists.mp (Numeral.isSome_display? x)
    exact ⟨text, by simp [displayWithin, ht]⟩
  | list id => exact absurd rfl (hlist id)
  | foreign _ => cases hv
  | null | boolean _ | text _ | function _ => exact ⟨_, by rw [displayWithin]⟩

/-- Only a list that contains itself has no text. -/
theorem displayWithin_error {s : Store} {depth : Nat} {v : Value} {e : Unprintable}
    (h : s.Closed A) (hv : s.Within A v) (he : s.displayWithin depth v = .error e) :
    e = .endless := by
  induction depth generalizing v e with
  | zero =>
    by_cases hlist : ∃ id, v = .list id
    · obtain ⟨id, rfl⟩ := hlist
      cases he
      rfl
    · obtain ⟨text, ht⟩ := exists_displayWithin 0 hv (not_exists.mp hlist)
      rw [ht] at he
      cases he
  | succ depth ih =>
    by_cases hlist : ∃ id, v = .list id
    · obtain ⟨id, rfl⟩ := hlist
      obtain ⟨w, hw, hwe⟩ := exists_of_displayWithin_error he
      exact ih (h.within_of_mem_elements hv.1 hw) hwe
    · obtain ⟨text, ht⟩ := exists_displayWithin (depth + 1) hv (not_exists.mp hlist)
      rw [ht] at he
      cases he

/-- A display stops at most for a list that contains itself. -/
theorem display_runs {v : Value} (h : m.store.Closed A) (hv : m.store.Within A v) :
    Runs A m (display v) fun _ _ => True := by
  unfold display
  refine .get ?_
  cases hd : m.store.display v with
  | ok text => exact .pure h trivial
  | error e =>
    cases displayWithin_error h hv hd
    exact .unfinished h

/-! ## Effects -/

theorem record_runs {r : Record} (h : m.store.Closed A) (hr : r.level = .debug) :
    Runs A m (record r) fun _ _ => True :=
  ⟨h, ⟨.refl, fun _ _ => rfl, fun _ _ => rfl, ⟨[r], by simp [hr]⟩, id⟩, trivial⟩

/-- A line that does not fit is an error of the host, and the output is full then. -/
theorem write_runs {line : String} (h : m.store.Closed A) :
    Runs A m (write line) fun _ _ => True := by
  unfold Runs write
  cases hroom : m.sink.room with
  | none => exact ⟨h, .ofStore_eq rfl rfl fun _ => hroom, trivial⟩
  | some room =>
    cases room with
    | zero => exact ⟨h, .refl, ⟨_, rfl⟩, by simp [hroom]⟩
    | succ room =>
      exact ⟨h, .ofStore_eq rfl rfl (by simp [hroom]), trivial⟩

theorem setInput_runs {input : InputSource} (h : m.store.Closed A) :
    Runs A m (modify fun m => { m with input := input }) fun _ _ => True :=
  ⟨h, .ofStore_eq rfl rfl id, trivial⟩

theorem textOf_runs {supply : Supply} {line : Line} (h : m.store.Closed A) :
    Runs A m (textOf supply line) fun _ _ => True := by
  cases supply with
  | text s => exact .pure h trivial
  | other hostType => exact .fail h (by simp)

theorem readInput_runs {line : Line} (h : m.store.Closed A) :
    Runs A m (readInput line) fun _ _ => True := by
  unfold readInput
  refine .get ?_
  cases m.input with
  | unavailable => exact .fail h (by simp)
  | lines rest =>
    cases rest with
    | nil => exact .fail h (by simp)
    | cons text rest => exact (setInput_runs h).bind fun _ _ h₁ _ _ => .pure h₁ trivial
  | provider items afterwards =>
    cases items with
    | nil => exact textOf_runs h
    | cons item items => exact (setInput_runs h).bind fun _ _ h₁ _ _ => textOf_runs h₁

/-- A name that is found is bound to members only. -/
theorem lookup_runs {scope : ScopeId} {name : String} {line : Line} (h : m.store.Closed A)
    (hscope : m.store.Holds A (.scope scope)) : Runs A m (lookup scope name line) (Within A) := by
  unfold lookup
  refine .get ?_
  cases hv : m.store.lookup? scope name with
  | none => exact .fail h (by simp)
  | some v => exact .pure h (h.within_of_lookup? hscope hv)

theorem define_runs {scope : ScopeId} {name : String} {v : Value} (h : m.store.Closed A)
    (hscope : A (.scope scope)) (hv : m.store.Within A v) :
    Runs A m (define scope name v) fun _ _ => True :=
  ⟨h.define hv, Machine.follows_define hscope, trivial⟩

/-- The scope that a name belongs to is a member, so the name may be bound again there. -/
theorem assign_runs {scope : ScopeId} {name : String} {v : Value} {line : Line}
    (h : m.store.Closed A) (hscope : m.store.Holds A (.scope scope)) (hv : m.store.Within A v) :
    Runs A m (assign scope name v line) fun _ _ => True := by
  unfold assign
  refine .get ?_
  cases ht : m.store.resolve? scope name with
  | none => exact .fail h (by simp)
  | some target => exact define_runs h (h.holds_of_resolve? hscope ht).1 hv

theorem newList_runs {xs : Array Value} (h : m.store.Closed A)
    (hxs : ∀ v ∈ xs, m.store.Within A v) : Runs A m (newList xs) (Within A) := by
  have hnew : ¬m.store.Has (.list (m.store.newList xs).1) := Nat.lt_irrefl _
  exact ⟨h.newList hxs, Machine.follows_newList h, h.fresh _ hnew, has_newList.mpr (.inr rfl)⟩

/-- A function may be made of a body that was read. -/
theorem newFunction_runs {c : Closure} (h : m.store.Closed A)
    (hc : m.store.Holds A (.scope c.scope)) (hbody : Program.WellFormed c.body) :
    Runs A m (newFunction c) (Within A) := by
  have hnew : ¬m.store.Has (.function (m.store.newFunction c).1) := Nat.lt_irrefl _
  exact ⟨h.newFunction hc hbody, Machine.follows_newFunction, h.fresh _ hnew,
    has_newFunction.mpr (.inr rfl)⟩

/-- A call may open a scope inside a member. -/
theorem newScope_runs {parent : ScopeId} (h : m.store.Closed A)
    (hp : m.store.Holds A (.scope parent)) :
    Runs A m (newScope parent) fun s id => s.Holds A (.scope id) := by
  have hnew : ¬m.store.Has (.scope (m.store.newScope (some parent)).1) := Nat.lt_irrefl _
  exact ⟨h.newScope hp, Machine.follows_newScope h, h.fresh _ hnew, has_newScope.mpr (.inr rfl)⟩

end Action

end Boli
