import Boli.Proofs.ListCycles
import Boli.Proofs.Traces
import Boli.Proofs.Upholding

/-!
# Runs without cycles

Of all steps of a run, only a call that appends a value to a list can make a list contain itself,
and only if the list is already found in the value (`Step.Ties`).  All other steps leave the lists
as they are, or make a new list of values that are there.

So a run has to come by values that are there.  A value that it computes refers to a list that was
there at the start or was made since.  The worlds of `Engine.LinksIn` count the lists that were
made.

* `Store.Settled` is what the store keeps: whatever stands in it is there.
* `Action.Settles` says that an action keeps it, and makes no cycle.
* `Action.Tidy` says it of an action with a record of its steps, and `Engine.links_tidy` has it for
  all parts of a run.
-/

namespace Boli

theorem Value.Below.coerced {size : Nat} {v : Value} (h : v.Below size) (coerce : Bool) :
    (v.coerced coerce).Below size := by
  intro id hid
  cases v with
  | text t =>
    rw [Value.coerced] at hid
    split at hid
    · cases hn : Numeral.ofText? t <;> simp [hn] at hid
    · cases hid
  | _ => exact h id hid

/-- A constant that is a list is one of the first `size` ones, and of the functions of the language
only those in `calls` are called. -/
def Expr.Admits (size : Nat) (calls : Builtin → Prop) : Expr → Prop
  | literal _ v _ => v.Below size
  | call _ f _ => ∀ b, Builtin.ofName? f.name = some b → calls b
  | _ => True

/-- All expressions of a block are like that. -/
def Block.Admits (size : Nat) (calls : Builtin → Prop) (b : Block) : Prop :=
  b.Everywhere (Expr.Admits size calls) fun _ => True

/-- The constants of a program that was read are no lists. -/
theorem Program.WellFormed.admits {p : Program} (h : p.WellFormed) (size : Nat) :
    Block.Admits size (fun _ => True) p := by
  refine fun s hs => (h s hs).mono (fun e he => ?_) fun _ _ => trivial
  cases e with
  | literal line v raw =>
    intro id hid
    subst hid
    exact he.elim
  | call line f args => exact fun _ _ => trivial
  | _ => trivial

variable {size : Nat} {calls : Builtin → Prop}

/-! ## The store -/

namespace Store

variable {s s' : Store} {v : Value}

/-- The lists that stand in scopes and in lists are there, and the bodies of the functions are as
described. -/
structure Settled (size : Nat) (calls : Builtin → Prop) (s : Store) : Prop where
  contents : ∀ r v, s.Contains r v → s.Present v
  bodies : ∀ c ∈ s.functions, c.body.Admits size calls

namespace Settled

theorem elements (h : s.Settled size calls) (id : ListId) : ∀ v ∈ s.elements id, s.Present v :=
  fun v hv => h.contents _ v (.element hv)

/-- What a name is bound to is there. -/
theorem lookup? (h : s.Settled size calls) {scope : ScopeId} {name : String}
    (hv : s.lookup? scope name = some v) : s.Present v := by
  obtain ⟨target, -, hget⟩ := Option.bind_eq_some_iff.1 hv
  exact h.contents _ v (.binding (Bindings.mem_of_get? hget))

/-- A value that is there may be bound. -/
theorem define (h : s.Settled size calls) (scope : ScopeId) (name : String) (hv : s.Present v) :
    (s.define scope name v).Settled size calls where
  contents r u hu := by
    rcases contains_define hu with hold | rfl
    · exact h.contents r u hold
    · exact hv
  bodies := h.bodies

theorem defineAll (h : s.Settled size calls) (scope : ScopeId) {bs : List (String × Value)}
    (hbs : ∀ b ∈ bs, s.Present b.2) : (s.defineAll scope bs).Settled size calls := by
  induction bs generalizing s with
  | nil => exact h
  | cons b bs ih =>
    rw [List.forall_mem_cons] at hbs
    exact ih (h.define scope b.1 hbs.1) hbs.2

theorem newScope (h : s.Settled size calls) (parent : Option ScopeId) :
    (s.newScope parent).2.Settled size calls where
  contents r u hu := h.contents r u (contains_newScope hu)
  bodies := h.bodies

theorem newFunction (h : s.Settled size calls) {c : Closure} (hc : c.body.Admits size calls) :
    (s.newFunction c).2.Settled size calls where
  contents r u hu := h.contents r u (contains_newFunction hu)
  bodies c' hc' := by
    rcases Array.mem_push.1 hc' with hold | rfl
    · exact h.bodies c' hold
    · exact hc

/-- A new list of values that are there keeps the store settled. -/
theorem newList (h : s.Settled size calls) {vs : Array Value} (hvs : ∀ v ∈ vs, s.Present v) :
    (s.newList vs).2.Settled size calls where
  contents r u hu := by
    have hsize : s.lists.size ≤ (s.newList vs).2.lists.size := by simp [Store.newList]
    exact ((contains_newList hu).elim (h.contents r u) (hvs u)).mono hsize
  bodies := h.bodies

/-- So does a value that is there at the end of a list. -/
theorem append (h : s.Settled size calls) (id : ListId) (hv : s.Present v) :
    (s.append id v).Settled size calls where
  contents r u hu := by
    have hsize : s.lists.size ≤ (s.append id v).lists.size := by simp [Store.append]
    rcases contains_append hu with hold | rfl
    · exact (h.contents r u hold).mono hsize
    · exact hv.mono hsize
  bodies := h.bodies

end Settled

end Store

/-! ## Steps -/

namespace Action

variable {α β : Type} {tie : Machine → Prop} {w : Nat} {V : Nat → α → Prop} {U : Nat → β → Prop}
  {x : Action α}

/-- The action keeps the store settled, and without cycles unless the machine is as described by
`tie`. In the world that it leads to its value is as described by `V`. -/
def Settles (size : Nat) (calls : Builtin → Prop) (tie : Machine → Prop) (w : Nat)
    (V : Nat → α → Prop) (x : Action α) : Prop :=
  ∀ m : Machine, m.store.Settled size calls → size + w ≤ m.store.lists.size →
    (x.after m).store.Settled size calls ∧
    (m.store.Acyclic → ¬tie m → (x.after m).store.Acyclic) ∧
    ∀ a m', x m = .ok a m' → ∃ w', w ≤ w' ∧ size + w' ≤ m'.store.lists.size ∧ V w' a

namespace Settles

theorem pure {a : α} (h : V w a) : Settles size calls tie w V (pure a) := by
  refine fun m hm hw => ⟨hm, fun hacyclic _ => hacyclic, fun a' m' heq => ?_⟩
  cases heq
  exact ⟨w, le_rfl, hw, h⟩

theorem throw (e : Stop) : Settles size calls tie w V (throw e : Action α) :=
  fun m hm _ => ⟨hm, fun hacyclic _ => hacyclic, fun a m' heq => by cases heq⟩

/-- The second part starts in the world that the first one leads to. -/
theorem bind {f : α → Action β} (hx : Settles size calls (fun _ => False) w V x)
    (hf : ∀ w' a, w ≤ w' → V w' a → Settles size calls (fun _ => False) w' U (f a)) :
    Settles size calls (fun _ => False) w U (x >>= f) := by
  intro m hm hw
  obtain ⟨hsettled, hacyclic, hvalue⟩ := hx m hm hw
  cases heq : x m with
  | error e m₁ =>
    rw [after_of_error heq] at hsettled hacyclic
    rw [after_bind_error heq]
    exact ⟨hsettled, hacyclic, fun b m' hb => by cases (bind_of_error heq).symm.trans hb⟩
  | ok a m₁ =>
    rw [after_of_ok heq] at hsettled hacyclic
    obtain ⟨w₁, hle₁, hw₁, ha⟩ := hvalue a m₁ heq
    obtain ⟨hsettled', hacyclic', hvalue'⟩ := hf w₁ a hle₁ ha m₁ hsettled hw₁
    rw [after_bind_ok heq, bind_of_ok heq]
    refine ⟨hsettled', fun hm hfalse => hacyclic' (hacyclic hm hfalse) hfalse, fun b m' hb => ?_⟩
    obtain ⟨w₂, hle₂, hw₂, hb⟩ := hvalue' b m' hb
    exact ⟨w₂, hle₁.trans hle₂, hw₂, hb⟩

/-- An action that looks at the machine is in the world that counts all its lists. -/
theorem get {f : Machine → Action α}
    (hf : ∀ w' m, w ≤ w' → m.store.Settled size calls → m.store.lists.size = size + w' →
      Settles size calls tie w' V (f m)) : Settles size calls tie w V (get >>= f) := by
  intro m hm hw
  obtain ⟨w', hw'⟩ := Nat.exists_eq_add_of_le (Nat.le_of_add_right_le hw)
  have hle : w ≤ w' := by omega
  obtain ⟨hsettled, hacyclic, hvalue⟩ := hf w' m hle hm hw' m hm hw'.ge
  refine ⟨hsettled, hacyclic, fun a m' heq => ?_⟩
  obtain ⟨w'', hle', hw'', ha⟩ := hvalue a m' heq
  exact ⟨w'', hle.trans hle', hw'', ha⟩

/-- An action that leaves the store alone makes no cycle. -/
theorem of_store_eq (h : ∀ m, (x.after m).store = m.store) :
    Settles size calls tie w (fun _ _ => True) x := by
  intro m hm hw
  rw [h m]
  refine ⟨hm, fun hacyclic _ => hacyclic, fun a m' heq => ⟨w, le_rfl, ?_, trivial⟩⟩
  have hstore := h m
  rw [after_of_ok heq] at hstore
  rwa [hstore]

/-- Neither does one that leaves the lists alone. -/
theorem modifyStore {f : Store → Store} (hlists : ∀ s, (f s).lists = s.lists)
    (hf : ∀ s, s.Settled size calls → size + w ≤ s.lists.size → (f s).Settled size calls) :
    Settles size calls tie w (fun _ _ => True) (modifyStore f) := by
  refine fun m hm hw => ⟨hf m.store hm hw, fun hacyclic _ => hacyclic.of_lists_eq (hlists _), ?_⟩
  intro _ m' heq
  cases heq
  exact ⟨w, le_rfl, by rw [hlists]; exact hw, trivial⟩

end Settles

theorem display_settles (v : Value) : Settles size calls tie w (fun _ _ => True) (display v) := by
  refine .get fun w m _ _ _ => ?_
  split
  · exact .pure trivial
  · exact .throw _
  · exact .throw _
  · exact .throw _

theorem write_settles (text : String) :
    Settles size calls tie w (fun _ _ => True) (write text) := by
  refine .of_store_eq fun m => ?_
  unfold after write
  cases m.sink.room with
  | none => rfl
  | some room => cases room <;> rfl

/-- A new list is found in nothing, so it closes no cycle. -/
theorem newList_settles {vs : Array Value} (hvs : ∀ v ∈ vs, v.Below (size + w)) :
    Settles size calls tie w (fun w v => v.Below (size + w)) (newList vs) := by
  intro m hm hw
  have hpresent : ∀ v ∈ vs, m.store.Present v := fun v hv => (hvs v hv).mono hw
  refine ⟨hm.newList hpresent, fun hacyclic _ => hacyclic.newList hm.elements hpresent, ?_⟩
  intro v m' heq
  cases heq
  refine ⟨m.store.lists.size + 1 - size, by omega, ?_, fun id hid => ?_⟩
  · simp only [Array.size_push]
    omega
  · cases hid
    dsimp only
    omega

/-- What operators are made of makes no cycle. -/
theorem settles_spreads (line : Line) :
    Spreads line line (fun w V x _ => Settles size calls (fun _ => False) w V x)
      (fun w v => v.Below (size + w))
      (fun w m => m.store.Settled size calls ∧ m.store.lists.size = size + w) where
  pure := .pure
  fail _ := .throw _
  host _ := .throw _
  bind hx hf := hx.bind fun w' a hle _ => hf w' a hle
  look hf _ := .get fun w' m hle hm hw => hf w' m hle ⟨hm, hw⟩
  display := display_settles
  newList := newList_settles
  setInput _ := .of_store_eq fun _ => rfl
  lasting hle hv := hv.mono (Nat.add_le_add_left hle size)
  plain hv := fun id hid => absurd hid (hv id)
  elements hm hv := hm.2 ▸ hm.1.elements _ _ hv

end Action

/-- In each world, values refer to lists that were there at the start or were made since. -/
def Engine.bounds (size : Nat) (calls : Builtin → Prop) : Account Nat where
  value w v := v.Below (size + w)
  signal _ w signal := ∀ v, signal = .giveBack v → v.Below (size + w)
  expr _ _ := Expr.Everywhere (Expr.Admits size calls)
  stmt _ _ := Stmt.Everywhere (Expr.Admits size calls) fun _ => True
  closure _ c := c.body.Admits size calls
  builtin := calls

namespace Action

variable {α β : Type} {tie : Machine → Prop} {w : Nat} {V : Nat → α → Prop} {U : Nat → β → Prop}
  {x y : Action α}

/-- Operators, displays and new lists make no cycle. -/
theorem settles_of_elementary
    (h : ElementaryIn (Engine.bounds size calls) .identity w V x y) :
    Settles size calls (fun _ => False) w V x := by
  cases h with
  | arity | noProperty | misplacedExpr | misplacedStmt | unfinishedValue | unfinishedSignal =>
    exact .throw _
  | lookup _ =>
    refine .get fun w m _ hm hw => ?_
    cases hv : m.store.lookup? _ _ with
    | some v =>
      have hpresent := hm.lookup? hv
      rw [Store.Present, hw] at hpresent
      exact .pure hpresent
    | none => exact .throw _
  | binary _ hl hr => exact (settles_spreads _).binary _ hl hr
  | unary => exact (settles_spreads _).unary _ _
  | requireIndexable => exact (settles_spreads _).requireIndexable _
  | element => exact (settles_spreads _).element _ _
  | typeOf => exact (settles_spreads none).typeOf _
  | truth => exact (settles_spreads none).truth _
  | display => exact display_settles _
  | write _ text => exact write_settles text
  | newList _ hvs => exact newList_settles hvs
  | @leave c signal _ hsignal =>
    cases signal with
    | normal => exact .pure fun id hid => by cases hid
    | giveBack v =>
      rcases hsignal with hsignal | ⟨s, -, hsignal⟩
      · cases hsignal
      · exact .pure (hsignal v rfl)
    | stop | skip => exact .throw _

/-! ## Names and functions -/

theorem define_settles {v : Value} (scope : ScopeId) (name : String) (hv : v.Below (size + w)) :
    Settles size calls tie w (fun _ _ => True) (define scope name v) :=
  .modifyStore (fun _ => rfl) fun _ hs hw => hs.define scope name (hv.mono hw)

theorem assign_settles {v : Value} (scope : ScopeId) (name : String) (line : Line)
    (hv : v.Below (size + w)) :
    Settles size calls tie w (fun _ _ => True) (assign scope name v line) := by
  refine .get fun w' m hle _ _ => ?_
  cases m.store.resolve? scope name with
  | some target => exact define_settles target name (hv.mono (Nat.add_le_add_left hle size))
  | none => exact .throw _

theorem newFunction_settles {c : Closure} (hc : c.body.Admits size calls) :
    Settles size calls tie w (fun w v => v.Below (size + w)) (newFunction c) := by
  intro m hm hw
  refine ⟨hm.newFunction hc, fun hacyclic _ => hacyclic.of_lists_eq rfl, fun v m' heq => ?_⟩
  cases heq
  exact ⟨w, le_rfl, hw, fun id hid => by cases hid⟩

theorem functionNamed_settles (scope : ScopeId) (name : String) (line : Line) :
    Settles size calls tie w (fun _ c => c.body.Admits size calls)
      (functionNamed scope name line) := by
  refine .get fun w m _ hm _ => ?_
  dsimp only
  split
  · split
    · next hc => exact .pure (hm.bodies _ (Array.mem_of_getElem? hc))
    · exact .throw _
  · exact .throw _

/-- The arguments of a call are there, and they are bound in a new scope. -/
theorem enter_settles {c : Closure} {args : List Value} (hc : c.body.Admits size calls)
    (hargs : ∀ v ∈ args, v.Below (size + w)) : Settles size calls (fun _ => False) w
      (fun _ _ => c.body.Admits size calls) (enter c args) := by
  have hscope : Settles size calls (fun _ => False) w (fun _ _ => True) (newScope c.scope) := by
    refine fun m hm hw => ⟨hm.newScope _, fun hacyclic _ => hacyclic.of_lists_eq rfl, ?_⟩
    intro _ m' heq
    cases heq
    exact ⟨w, le_rfl, hw, trivial⟩
  refine hscope.bind fun w₁ scope hle _ => .bind (V := fun _ _ => True) ?_ fun w₂ _ _ _ => ?_
  · refine .modifyStore (Store.lists_defineAll _ _) fun s hs hw => hs.defineAll scope fun b hb => ?_
    have hle' : size + w ≤ s.lists.size := by omega
    exact (hargs b.2 (List.of_mem_zip hb).2).mono hle'
  · have hrecord : Settles size calls (fun _ => False) w₂ (fun _ _ => True)
        (record (.calling c.name args.length)) := .of_store_eq fun _ => rfl
    exact hrecord.bind fun _ _ _ _ => .pure hc

end Action

/-! ## Calls of functions of the language -/

/-- The step appends a value to a list that is found in the value. -/
def Step.Ties (t : Step) : Prop :=
  ∃ target v, t.call = some (.append, [.list target, v]) ∧ t.before.store.Encloses v target

namespace Action

variable {α β : Type} {w : Nat} {V : Nat → α → Prop} {U : Nat → β → Prop}

/-- Of the functions of the language only the one that appends can close a cycle. -/
theorem builtin_settles {b : Builtin} {args : List Value} (hargs : ∀ v ∈ args, v.Below (size + w))
    (line : Line) : Settles size calls
      (fun m => Step.Ties ⟨m, (builtin b args line).after m, some (b, args)⟩) w
      (fun w v => v.Below (size + w)) (builtin b args line) := by
  by_cases happend : ∃ id v, b = .append ∧ args = [.list id, v]
  · obtain ⟨id, v, rfl, rfl⟩ := happend
    intro m hm hw
    have hv : m.store.Present v := (hargs v (by simp)).mono hw
    refine ⟨hm.append id hv, fun hacyclic hfree => ?_, fun u m' heq => ?_⟩
    · exact hacyclic.append fun hties => hfree ⟨id, v, rfl, hties⟩
    · cases heq
      exact ⟨w, le_rfl, by simpa [Store.append] using hw, hargs _ List.mem_cons_self⟩
  · have hsettles : Settles size calls (fun _ => False) w (fun w v => v.Below (size + w))
        (builtin b args line) :=
      (settles_spreads line).builtin (fun _ => write_settles)
        (fun id v hb hargs => absurd ⟨id, v, hb, hargs⟩ happend) hargs
    intro m hm hw
    obtain ⟨hsettled, hacyclic, hvalue⟩ := hsettles m hm hw
    exact ⟨hsettled, fun hm _ => hacyclic hm not_false, hvalue⟩

/-! ## Runs with a record of their steps -/

end Action

/-- The step keeps the store settled, and it makes a cycle only if it appends a value to a list that
is found in the value.  It calls only functions of the language that are in `calls`. -/
structure Step.Fair (size : Nat) (calls : Builtin → Prop) (t : Step) : Prop where
  settled : t.after.store.Settled size calls
  acyclic : t.before.store.Acyclic → ¬t.Ties → t.after.store.Acyclic
  call : ∀ b args, t.call = some (b, args) → calls b

namespace Action

open Tracing

variable {α β : Type} {w : Nat} {V : Nat → α → Prop} {U : Nat → β → Prop} {x : Tracing α}
  {y : Action α}

/-- The first action records the steps of the second one, and all of them are fair.  In the world
that the action leads to its value is as described by `V`. -/
def Tidy (size : Nat) (calls : Builtin → Prop) (w : Nat) (V : Nat → α → Prop) (x : Tracing α)
    (y : Action α) : Prop :=
  ∀ m : Machine, m.store.Settled size calls → size + w ≤ m.store.lists.size →
    ∃ ts, Traces x y m ts ∧ (∀ t ∈ ts, t.Fair size calls) ∧
      (y.after m).store.Settled size calls ∧
      ∀ a m', y m = .ok a m' → ∃ w', w ≤ w' ∧ size + w' ≤ m'.store.lists.size ∧ V w' a

namespace Tidy

theorem pure {a : α} (h : V w a) : Tidy size calls w V (pure a) (pure a) := by
  refine fun m hm hw => ⟨[], .pure a m, by simp, hm, fun a' m' heq => ?_⟩
  cases heq
  exact ⟨w, le_rfl, hw, h⟩

/-- A step that settles is recorded as a fair one. -/
theorem lift {call : Option (Builtin × List Value)}
    (hcall : ∀ b args, call = some (b, args) → calls b)
    (h : Settles size calls (fun m => Step.Ties ⟨m, y.after m, call⟩) w V y) :
    Tidy size calls w V (lift call y) y := by
  intro m hm hw
  obtain ⟨hsettled, hacyclic, hvalue⟩ := h m hm hw
  refine ⟨_, .lift call y m, fun t ht => ?_, hsettled, hvalue⟩
  cases List.mem_singleton.1 ht
  exact ⟨hsettled, hacyclic, hcall⟩

/-- A step that calls no function of the language. -/
theorem step (h : Settles size calls (fun _ => False) w V y) :
    Tidy size calls w V (Tracing.lift none y) y := by
  refine lift (by simp) fun m hm hw => ?_
  obtain ⟨hsettled, hacyclic, hvalue⟩ := h m hm hw
  exact ⟨hsettled, fun hm _ => hacyclic hm not_false, hvalue⟩

/-- The record of two parts is the record of the first one followed by that of the second. -/
theorem bind {f : α → Tracing β} {g : α → Action β} (h : Tidy size calls w V x y)
    (hf : ∀ w' a, w ≤ w' → V w' a → Tidy size calls w' U (f a) (g a)) :
    Tidy size calls w U (x >>= f) (y >>= g) := by
  intro m hm hw
  obtain ⟨ts, htraces, hfair, hsettled, hvalue⟩ := h m hm hw
  cases hy : y m with
  | error e m₁ =>
    rw [after_of_error hy] at hsettled
    refine ⟨ts, htraces.bind_error hy, hfair, ?_, fun b m' hb => ?_⟩
    · rwa [after_bind_error hy]
    · cases (bind_of_error hy).symm.trans hb
  | ok a m₁ =>
    rw [after_of_ok hy] at hsettled
    obtain ⟨w₁, hle₁, hw₁, ha⟩ := hvalue a m₁ hy
    obtain ⟨us, htraces', hfair', hsettled', hvalue'⟩ := hf w₁ a hle₁ ha m₁ hsettled hw₁
    rw [after_bind_ok hy, bind_of_ok hy]
    refine ⟨ts ++ us, htraces.bind_ok hy htraces', ?_, hsettled', fun b m' hb => ?_⟩
    · simp only [List.mem_append, or_imp, forall_and]
      exact ⟨hfair, hfair'⟩
    · obtain ⟨w₂, hle₂, hw₂, hb⟩ := hvalue' b m' hb
      exact ⟨w₂, hle₁.trans hle₂, hw₂, hb⟩

end Tidy

end Action

namespace Engine

/-- A call finds a function of the language that the program may call, or a function in the
store. -/
theorem builtinsFirst_settles {line : Line} {f : Ident} {args : List Expr}
    (h : (Expr.call line f args).Admits size calls) (w : Nat) (scope : ScopeId) :
    Action.Settles size calls (fun _ => False) w (bounds size calls).callee
      (builtinsFirst scope f.name line) := by
  rw [builtinsFirst]
  cases hb : Builtin.ofName? f.name with
  | some b => exact .pure (h b hb)
  | none => exact (Action.functionNamed_settles scope f.name line).bind fun _ _ _ hc => .pure hc

/-- All parts of a run take fair steps. -/
theorem links_tidy (coerce : Bool) : LinksIn traced standard .identity coerce coerce
    (Action.Tidy size calls) (bounds size calls) where
  keeps _ := rfl
  pure := .pure
  bind := .bind
  elementary h := by
    have hsettles := Action.settles_of_elementary h
    obtain rfl := h.eq
    exact .step hsettles
  value_mono hle hv := hv.mono (Nat.add_le_add_left hle size)
  null _ := fun id hid => by cases hid
  literal {w scope line v raw} h :=
    (Value.Below.coerced h.root coerce).mono (Nat.le_add_right size w)
  normal _ _ := fun v hv => by cases hv
  stop _ _ := fun v hv => by cases hv
  skip _ _ := fun v hv => by cases hv
  giveBack _ _ hv := fun v' heq => by cases heq; exact hv
  passed _ hsignal := hsignal
  define _ _ hv := .step (Action.define_settles _ _ hv)
  assign _ hv := .step (Action.assign_settles _ _ _ hv)
  newFunction {w scope line name ps b} hs := by
    have hbody : b.Admits size calls := fun s hs' => hs.child hs'
    rw [Block.rewritten_identity]
    exact .step (Action.newFunction_settles hbody)
  callee {w scope line f args β U k k'} he hk := by
    refine (Action.Tidy.step (builtinsFirst_settles he.root w scope)).bind fun w' callee hle h => ?_
    have hrest := hk w' callee hle h
    rwa [callee.rewritten_identity] at hrest
  builtin _ hb hargs :=
    .lift (fun _ _ heq => by cases heq; exact hb) (Action.builtin_settles hargs _)
  enter {w c args} hc hargs := by
    rw [c.rewritten_identity]
    exact .step (Action.enter_settles hc hargs)
  below he _ hc := he.child hc
  exprs hs _ he := hs.expr he
  children hs _ _ hc := hs.child hc

end Engine

/-! ## Programs -/

namespace Session

/-- The program and the store refer to no list that is not there, and of the functions of the
language they call only those in `calls`. -/
structure Ready (calls : Builtin → Prop) (p : Program) (m : Machine) : Prop where
  store : m.store.Settled m.store.lists.size calls
  program : Block.Admits m.store.lists.size calls p

/-- The machines that a run comes by. -/
def states (fuel : Nat) (settings : Settings) (p : Program) (m : Machine) : List Machine :=
  m :: (trace fuel settings p m).map Step.after ++ [(runWithin fuel settings p m).2]

theorem acyclic_fresh (input : InputSource) (sink : Sink) :
    (Machine.fresh input sink).store.Acyclic := by
  have hnone (a b : ListId) : ¬(Machine.fresh input sink).store.Nests a b := by
    simp [Store.Nests, Store.elements, Machine.fresh]
  intro id hloop
  cases hloop with
  | single h | tail _ h => exact hnone _ _ h

/-- A program that was read can start on a fresh machine. -/
theorem ready_fresh {p : Program} (hp : p.WellFormed) (input : InputSource) (sink : Sink) :
    Ready (fun _ => True) p (.fresh input sink) := by
  refine ⟨⟨fun r v hv id hid => ?_, by simp [Machine.fresh]⟩, hp.admits _⟩
  subst hid
  exact ((Machine.closed_fresh input sink).contents r _ trivial hv).2

section Runs

variable (fuel : Nat) (settings : Settings) {p : Program} {m : Machine}

/-- A run takes fair steps, which lead to the machine that it ends with. -/
theorem fair_trace (hm : Ready calls p m) :
    (∃ last, m.Leads (trace fuel settings p m) last ∧
      (runWithin fuel settings p m).2.store = last.store) ∧
    ∀ t ∈ trace fuel settings p m, t.Fair m.store.lists.size calls := by
  have htop := (Engine.links_tidy settings.coerce).topLevel fuel 0 globalScope hm.program
    fun s _ _ _ _ _ _ _ => .step (.throw _)
  rw [Stmt.rewrittenAll_identity, Engine.run_standard, Engine.topLevel_standard] at htop
  obtain ⟨ts, htraces, hfair, -⟩ := htop m hm.store le_rfl
  have hlast := congrArg Machine.store (runWithin_after fuel settings p m).1
  rw [trace_eq htraces]
  exact ⟨⟨_, htraces.leads, hlast⟩, hfair⟩

/-- If no step appends a value to a list that is found in the value, no machine on the way has a
cycle. -/
theorem states_of_untied (hm : Ready calls p m) (hacyclic : m.store.Acyclic)
    (hfree : ∀ t ∈ trace fuel settings p m, ¬t.Ties) : ∀ m' ∈ states fuel settings p m,
      m'.store.Settled m.store.lists.size calls ∧ m'.store.Acyclic := by
  obtain ⟨⟨last, hleads, hlast⟩, hfair⟩ := fair_trace fuel settings hm
  obtain ⟨hafter, hend⟩ := hleads.invariant
    (I := fun m' => m'.store.Settled m.store.lists.size calls ∧ m'.store.Acyclic)
    ⟨hm.store, hacyclic⟩ fun t ht hbefore =>
      ⟨(hfair t ht).settled, (hfair t ht).acyclic hbefore.2 (hfree t ht)⟩
  intro m' hm'
  simp only [states, List.cons_append, List.mem_cons, List.mem_append, List.mem_map,
    List.not_mem_nil, or_false] at hm'
  rcases hm' with rfl | ⟨t, ht, rfl⟩ | rfl
  · exact ⟨hm.store, hacyclic⟩
  · exact hafter t ht
  · rw [hlast]
    exact hend

/-- A program that appends nothing ties no cycle. -/
theorem untied_of_ready (hm : Ready (· ≠ .append) p m) :
    ∀ t ∈ trace fuel settings p m, ¬t.Ties := by
  rintro t ht ⟨target, v, hcall, -⟩
  exact ((fair_trace fuel settings hm).2 t ht).call _ _ hcall rfl

/-- Lists come to contain themselves only by calls that append a value to a list which is found in
the value.  In a run without such calls no machine has a list that contains itself, and printing a
value comes to an end on each of them, with a text unless there is a foreign object in the value.
A program that does not call the function that appends makes no such calls.  Conversely, if a list
that contains itself is found in a value, no depth is enough to print the value. -/
theorem states_acyclic (hm : Ready (fun _ => True) p m) (hacyclic : m.store.Acyclic) :
    (∃ last, m.Leads (trace fuel settings p m) last ∧
      (runWithin fuel settings p m).2.store = last.store) ∧
    ((∀ t ∈ trace fuel settings p m, ¬t.Ties) ∨ Ready (· ≠ .append) p m →
      ∀ m' ∈ states fuel settings p m, m'.store.Acyclic ∧ ∀ v, m'.store.Present v →
        (∃ text, m'.store.display v = .ok text) ∨
          m'.store.display v = .error .foreign ∧ m'.store.MeetsForeign v) ∧
    ∀ (s : Store) (v : Value), s.Loops v → ∀ depth,
      s.displayWithin depth v = .error .endless ∨
        s.displayWithin depth v = .error .foreign ∧ s.MeetsForeign v := by
  refine ⟨(fair_trace fuel settings hm).1, fun hcalls m' hm' => ?_, fun s v hloops depth => ?_⟩
  · have hfree := hcalls.elim (fun hfree => hfree) (untied_of_ready fuel settings)
    obtain ⟨hsettled, hacyclic'⟩ := states_of_untied fuel settings hm hacyclic hfree m' hm'
    refine ⟨hacyclic', fun v hv => ?_⟩
    rcases Store.display_cases hsettled.elements hv with htext | hforeign | ⟨-, hloops⟩
    · exact .inl htext
    · exact .inr hforeign
    · exact absurd hloops (hacyclic'.not_loops v)
  · cases hd : s.displayWithin depth v with
    | ok text => exact absurd hloops (Store.not_loops_of_displayWithin hd)
    | error e =>
      rcases Store.endless_or_meetsForeign hd with rfl | ⟨rfl, hmeets⟩
      · exact .inl rfl
      · exact .inr ⟨rfl, hmeets⟩

end Runs

/-- Appends an element of a list to that list. -/
def sharedElement : String :=
  "chala suru karu; heAhe a = [[1], \"x\"]; jod(a, a[0]); dakhava(a); bas re ata;"

/-- A step that appends a list appends it to another one, and it has no lists in it. -/
def appendsFlat (t : Step) : Bool :=
  match t.call with
  | some (.append, [.list target, .list root]) =>
    root != target && (t.before.store.elements root).all fun v => !(v matches .list _)
  | _ => true

/-- A list without lists in it leads back to no list that it is appended to. -/
theorem not_ties_of_appendsFlat {t : Step} (h : appendsFlat t) : ¬t.Ties := by
  rintro ⟨target, v, hcall, root, rfl, hpath⟩
  simp only [appendsFlat, hcall, Bool.and_eq_true, bne_iff_ne,
    Array.all_eq_true_iff_forall_mem] at h
  rcases Relation.ReflTransGen.cases_head hpath with heq | ⟨other, hnests, -⟩
  · exact h.1 heq
  · simpa using h.2 _ hnests

/-- The list has one of its elements twice, and no list contains itself. -/
theorem states_acyclic_sharedElement : ∃ p, Program.ofText sharedElement = .ok p ∧
    (runWithin 9 {} p (.fresh .unavailable {})).2.output = #["[[1], x, [1]]"] ∧
    ∀ m' ∈ states 9 {} p (.fresh .unavailable {}), m'.store.Acyclic := by
  cases hp : Program.ofText sharedElement with
  | error e =>
    have hread : (Program.ofText sharedElement).toOption.isSome := by decide +kernel
    rw [hp] at hread
    cases hread
  | ok p =>
    have hready := ready_fresh (wellFormed_of_ofText hp) .unavailable {}
    have houtput : (Program.ofText sharedElement).toOption.map
        (fun p => (runWithin 9 {} p (.fresh .unavailable {})).2.output) =
          some #["[[1], x, [1]]"] := by decide +kernel
    have hflat : (Program.ofText sharedElement).toOption.all
        (fun p => (trace 9 {} p (.fresh .unavailable {})).all appendsFlat) := by decide +kernel
    rw [hp] at houtput hflat
    have hfree : ∀ t ∈ trace 9 {} p (.fresh .unavailable {}), ¬t.Ties :=
      fun t ht => not_ties_of_appendsFlat (List.all_eq_true.1 hflat t ht)
    obtain ⟨-, hstates, -⟩ := states_acyclic 9 {} hready (acyclic_fresh .unavailable {})
    exact ⟨p, rfl, Option.some.inj houtput, fun m' hm' => (hstates (.inl hfree) m' hm').1⟩

end Session

end Boli
