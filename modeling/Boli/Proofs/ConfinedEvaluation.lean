import Boli.Proofs.Confinement
import Boli.Proofs.Links

/-!
# Evaluation is confined

Operators, built-in functions, expressions and statements keep to any closed set that contains the
scope they run in (`Action.eval_runs`, `Action.exec_runs`).

Operators ask the host for quotients, remainders, integers and items.  The checks made before each
of these requests are enough for it to succeed.
-/

namespace Boli.Action

open Store

variable {A : Ref → Prop} {m : Machine}

/-! ## Operators -/

/-- Quotients and remainders of doubles are never refused. -/
theorem arithmetic_numbers_runs {op : Op} {x y : Float} (h : m.store.Closed A) :
    Runs A m (op.arithmetic x y) fun _ _ => True := by
  unfold Op.arithmetic
  split
  · exact .pure h trivial
  · exact .pure h trivial
  · exact .pure h trivial
  · exact .ofHost h (Double.isSome_divide? x y) fun _ _ => trivial
  · exact .ofHost h (Double.isSome_remainder? x y) fun _ _ => trivial

/-- A sum is a number, a text or a new list of elements that were there. -/
theorem add_runs {l r : Value} {line : Line} (h : m.store.Closed A) (hl : m.store.Within A l)
    (hr : m.store.Within A r) : Runs A m (add l r line) (Within A) := by
  unfold add
  refine (typeOf_runs h hl).bind fun left m₁ h₁ f₁ _ => ?_
  have hl₁ := hl.grow f₁.grows
  have hr₁ := hr.grow f₁.grows
  refine (typeOf_runs h₁ hr₁).bind fun right m₂ h₂ f₂ _ => ?_
  have hl₂ := hl₁.grow f₂.grows
  have hr₂ := hr₁.grow f₂.grows
  split
  · refine (display_runs h₂ hl₂).bind fun s m₃ h₃ f₃ _ => ?_
    exact (display_runs h₃ (hr₂.grow f₃.grows)).bind fun t m₄ h₄ _ _ => .pure h₄ trivial
  · split
    · refine .get (newList_runs h₂ fun v hv => ?_)
      rcases Array.mem_append.mp hv with hv | hv
      · exact h₂.within_of_mem_elements hl₂.1 hv
      · exact h₂.within_of_mem_elements hr₂.1 hv
    · split
      · exact (arithmetic_numbers_runs h₂).bind fun _ _ h₃ _ _ => .pure h₃ trivial
      · exact .fail h₂ (by simp)

theorem arithmetic_runs {op : Op} {l r : Value} {line : Line} (h : m.store.Closed A)
    (hl : m.store.Within A l) (hr : m.store.Within A r) :
    Runs A m (arithmetic op l r line) (Within A) := by
  unfold arithmetic
  refine (typeOf_runs h hl).bind fun left m₁ h₁ f₁ _ => ?_
  refine (typeOf_runs h₁ (hr.grow f₁.grows)).bind fun right m₂ h₂ _ _ => ?_
  split
  · exact (arithmetic_numbers_runs h₂).bind fun _ _ h₃ _ _ => .pure h₃ trivial
  · exact .fail h₂ (by simp)

/-- Comparing values that have no order is a fault. -/
theorem order_runs {op : Op} {l r : Value} {line : Line} (h : m.store.Closed A)
    (hl : m.store.Within A l) (hr : m.store.Within A r) :
    Runs A m (order op l r line) (Within A) := by
  unfold order
  refine (typeOf_runs h hl).bind fun left m₁ h₁ f₁ _ => ?_
  refine (typeOf_runs h₁ (hr.grow f₁.grows)).bind fun right m₂ h₂ _ _ => ?_
  split
  · exact .pure h₂ trivial
  · split
    · exact .pure h₂ trivial
    · exact .fail h₂ (by simp)

/-- Any two values of the language can be compared for equality. -/
theorem looselyEquals_runs {l r : Value} (h : m.store.Closed A) (hl : m.store.Within A l)
    (hr : m.store.Within A r) :
    Runs A m (ofValue? (l.looselyEquals? r)) fun _ _ => True := by
  refine .ofHost h ?_ fun _ _ => trivial
  simp [Value.looselyEquals?, isSome_type? hl, isSome_type? hr]

/-- An operator that is written between operands has a meaning for all values, or fails with a
fault. -/
theorem binary_runs {op : Op} {l r : Value} {line : Line} (hop : op ∈ Op.binaries)
    (h : m.store.Closed A) (hl : m.store.Within A l) (hr : m.store.Within A r) :
    Runs A m (binary op l r line) (Within A) := by
  cases op with
  | and =>
    refine (truth_runs h hl).bind fun b m₁ h₁ f₁ _ => .pure h₁ ?_
    cases b
    · exact hl.grow f₁.grows
    · exact hr.grow f₁.grows
  | or =>
    refine (truth_runs h hl).bind fun b m₁ h₁ f₁ _ => .pure h₁ ?_
    cases b
    · exact hr.grow f₁.grows
    · exact hl.grow f₁.grows
  | eq | ne => exact (looselyEquals_runs h hl hr).bind fun _ _ h₁ _ _ => .pure h₁ trivial
  | add => exact add_runs h hl hr
  | sub | mul | div | mod => exact arithmetic_runs h hl hr
  | gt | ge | lt | le => exact order_runs h hl hr
  | not => exact absurd hop (by decide)
  | other symbol => simp [Op.binaries] at hop

theorem unary_runs {op : Op} {v : Value} {line : Line} (hop : op = .sub ∨ op = .not)
    (h : m.store.Closed A) (hv : m.store.Within A v) :
    Runs A m (unary op v line) (Within A) := by
  rcases hop with rfl | rfl
  · refine (typeOf_runs h hv).bind fun type m₁ h₁ _ _ => ?_
    split
    · exact .pure h₁ trivial
    · exact .fail h₁ (by simp)
  · exact (truth_runs h hv).bind fun _ _ h₁ _ _ => .pure h₁ trivial

/-! ## Elements and built-in functions -/

/-- An index that is accepted is an integer. -/
theorem placeOf_runs {index : Value} {line : Line} (h : m.store.Closed A)
    (hi : m.store.Within A index) : Runs A m (placeOf index line) fun _ _ => True := by
  have notWhole : ∀ m' : Machine, m'.store.Closed A → m'.store.Within A index →
      Runs A m' (do fail (.indexNotWhole (← display index)) line : Action Int)
        fun _ _ => True :=
    fun m' h' hi' => (display_runs h' hi').bind fun _ _ h₁ _ _ => .fail h₁ (by simp)
  unfold placeOf
  refine (typeOf_runs h hi).bind fun _ m₁ h₁ f₁ _ => ?_
  have hi₁ := hi.grow f₁.grows
  cases index with
  | number x =>
    by_cases hx : Double.isWhole x
    · simp only [hx, ↓reduceIte]
      exact .ofHost h₁ (by rw [Double.toInt?_of_isWhole hx]; rfl) fun _ _ => trivial
    · simp only [hx]
      exact notWhole m₁ h₁ hi₁
  | _ => exact notWhole m₁ h₁ hi₁

/-- There is an item at every place below the size. -/
theorem isSome_item? {s : Store} {target : Value} {place : Nat} (h : place < size s target) :
    (item? s target place).isSome := by
  cases target with
  | list id => simpa [item?, size] using h
  | text t => simpa [item?, size, Text.charAt?_eq, String.length_toList] using h
  | _ => exact absurd h (Nat.not_lt_zero _)

/-- An item of a member is a value of the language. -/
theorem within_of_item? {s : Store} {target v : Value} {place : Nat} (h : s.Closed A)
    (ht : s.Within A target) (hv : item? s target place = some v) : s.Within A v := by
  cases target with
  | list id => exact h.within_of_mem_elements ht.1 (Array.mem_of_getElem? hv)
  | text t =>
    obtain ⟨c, _, rfl⟩ := Option.map_eq_some_iff.mp hv
    trivial
  | _ => cases hv

theorem requireIndexable_runs {target : Value} {line : Line} (h : m.store.Closed A)
    (ht : m.store.Within A target) : Runs A m (requireIndexable target line) fun _ _ => True := by
  refine (typeOf_runs h ht).bind fun type _ h₁ _ _ => ?_
  split
  · exact .pure h₁ trivial
  · exact .pure h₁ trivial
  · exact .fail h₁ (by simp)

/-- The place is checked before the item is asked for. -/
theorem element_runs {target index : Value} {line : Line} (h : m.store.Closed A)
    (ht : m.store.Within A target) (hi : m.store.Within A index) :
    Runs A m (element target index line) (Within A) := by
  unfold element
  refine (placeOf_runs h hi).bind fun place m₁ h₁ f₁ _ => .get ?_
  dsimp only
  split
  · have hplace : place.toNat < size m₁.store target := by omega
    exact .ofHost h₁ (isSome_item? hplace) fun v hv => within_of_item? h₁ (ht.grow f₁.grows) hv
  · exact .fail h₁ (by simp)

theorem displays_runs {vs : List Value} (h : m.store.Closed A)
    (hvs : ∀ v ∈ vs, m.store.Within A v) :
    Runs A m (each display vs) fun _ _ => True := by
  refine (Runs.each (R := fun _ _ => True) h (fun _ _ => trivial) ?_).mono fun _ _ _ => trivial
  exact fun v hv m' h' f' => display_runs h' ((hvs v hv).grow f'.grows)

/-- The arguments of a function of the language are checked before they are used. -/
theorem builtin_runs {b : Builtin} {args : List Value} {line : Line} (h : m.store.Closed A)
    (hargs : ∀ v ∈ args, m.store.Within A v) : Runs A m (builtin b args line) (Within A) := by
  cases b with
  | input =>
    simp only [builtin, input]
    split
    · exact (readInput_runs h).bind fun _ _ h₁ _ _ => .pure h₁ trivial
    · exact .fail h (by simp)
  | print =>
    refine (displays_runs h hargs).bind fun texts m₁ h₁ _ _ => ?_
    exact (write_runs h₁).bind fun _ _ h₂ _ _ => .pure h₂ trivial
  | list => exact newList_runs h fun v hv => hargs v (by simpa using hv)
  | append =>
    simp only [builtin, append]
    split
    · rename_i target value
      have ht : m.store.Within A target := hargs _ (by simp)
      have hv : m.store.Within A value := hargs _ (by simp)
      cases target with
      | list id => exact ⟨h.append hv, Machine.follows_append ht.1, ht.1, grows_append _ ht.2⟩
      | _ => exact (typeOf_runs h ht).bind fun _ _ h₁ _ _ => .fail h₁ (by simp)
    · exact .fail h (by simp)
  | length =>
    simp only [builtin, length]
    split
    · rename_i target
      have ht : m.store.Within A target := hargs _ (by simp)
      cases target with
      | list id => exact .get (.pure h trivial)
      | text t => exact .pure h trivial
      | _ => exact (typeOf_runs h ht).bind fun _ _ h₁ _ _ => .fail h₁ (by simp)
    · exact .fail h (by simp)

/-! ## Calls -/

/-- The value that a signal carries is within a set. -/
def SignalWithin (A : Ref → Prop) (s : Store) : Signal → Prop
  | .giveBack v => s.Within A v
  | .normal | .stop | .skip => True

/-- A function that is found was made of a body that was read. -/
theorem functionNamed_runs {scope : ScopeId} {name : String} {line : Line}
    (h : m.store.Closed A) (hscope : m.store.Holds A (.scope scope)) :
    Runs A m (functionNamed scope name line) fun s c =>
      s.Holds A (.scope c.scope) ∧ Program.WellFormed c.body := by
  unfold functionNamed
  refine .get ?_
  dsimp only
  split
  · rename_i id hid
    have hf := h.within_of_lookup? hscope hid
    split
    · rename_i c hc
      exact .pure h ⟨h.closures id c hf.1 hc, h.bodies id c hc⟩
    · exact .fail h (by simp)
  · exact .fail h (by simp)

theorem defineAll_runs {scope : ScopeId} {bs : List (String × Value)} (h : m.store.Closed A)
    (hscope : A (.scope scope)) (hbs : ∀ b ∈ bs, m.store.Within A b.2) :
    Runs A m (modifyStore (·.defineAll scope bs)) fun _ _ => True := by
  induction bs generalizing m with
  | nil => exact ⟨h, .refl, trivial⟩
  | cons b bs ih =>
    -- The store after the first binding is the one that the others start from.
    have hfirst : m.store.Within A b.2 := hbs b List.mem_cons_self
    have hrest := ih (m := { m with store := m.store.define scope b.1 b.2 }) (h.define hfirst)
      fun c hc => (hbs c (List.mem_cons_of_mem _ hc)).grow grows_define
    exact ⟨hrest.1, (Machine.follows_define hscope).trans hrest.2.1, trivial⟩

/-- The scope of a call lies in the scope of the function. -/
theorem enter_runs {c : Closure} {args : List Value} (h : m.store.Closed A)
    (hc : m.store.Holds A (.scope c.scope)) (hargs : ∀ v ∈ args, m.store.Within A v) :
    Runs A m (enter c args) fun s id => s.Holds A (.scope id) := by
  unfold enter
  refine (newScope_runs h hc).bind fun scope m₁ h₁ f₁ hscope => ?_
  have hbs : ∀ b ∈ c.parameters.zip args, m₁.store.Within A b.2 := fun b hb =>
    (hargs b.2 (List.of_mem_zip hb).2).grow f₁.grows
  refine (defineAll_runs h₁ hscope.1 hbs).bind fun _ m₂ h₂ f₂ _ => ?_
  refine (record_runs h₂ rfl).bind fun _ m₃ h₃ f₃ _ => .pure h₃ ?_
  exact (hscope.grow f₂.grows).grow f₃.grows

/-- A call returns a value that was within the set. -/
theorem leave_runs {c : Closure} {signal : Signal} (h : m.store.Closed A)
    (hs : SignalWithin A m.store signal) : Runs A m (leave c signal) (Within A) := by
  cases signal with
  | normal => exact .pure h trivial
  | giveBack v => exact .pure h hs
  | stop => exact .fail h (by simp)
  | skip => exact .fail h (by simp)

/-- Constants refer to nothing. -/
theorem within_of_isSpelled {s : Store} {v : Value} {raw : String} {coerce : Bool}
    (h : v.IsSpelled raw) : s.Within A (v.coerced coerce) := by
  cases v with
  | text t =>
    simp only [Value.coerced]
    split
    · cases Numeral.ofText? t <;> trivial
    · trivial
  | list _ | function _ | foreign _ => cases h
  | null | boolean _ | number _ => trivial

end Boli.Action

/-! ## Expressions and statements -/

namespace Boli

/-- A store comes before those that have whatever it has. -/
instance Store.instPreorder : Preorder Store where
  le := Store.Grows
  le_refl _ := .refl
  le_trans _ _ _ h h' := fun r hr => h' r (h r hr)

/-- Values are within a set, and trees that were read run in scopes that belong to it. -/
def Engine.within (A : Ref → Prop) : Account Store where
  value := Store.Within A
  signal _ := Action.SignalWithin A
  expr s scope e := s.Holds A (.scope scope) ∧ e.Everywhere Expr.Proper
  stmt s scope t := s.Holds A (.scope scope) ∧ t.Everywhere Expr.Proper Stmt.Proper
  closure s c := s.Holds A (.scope c.scope) ∧ Program.WellFormed c.body

namespace Action

variable {A : Ref → Prop} {coerce : Bool} {fuel : Nat} {scope : ScopeId}

/-- From every machine with a store, the action keeps to the set. -/
def RunsFrom (A : Ref → Prop) {α : Type} (s : Store) (V : Store → α → Prop) (x : Action α) : Prop :=
  ∀ m : Machine, m.store = s → m.store.Closed A → Runs A m x V

/-- The steps that bind no name and make no function keep to the set. -/
theorem runsFrom_of_elementary {α : Type} {V : Store → α → Prop} {s : Store} {x y : Action α}
    (h : ElementaryIn (Engine.within A) .identity s V x y) : RunsFrom A s V x := by
  rintro m rfl hm
  cases h with
  | lookup he => exact lookup_runs hm he.1
  | binary he hv hu => exact binary_runs he.2.root hm hv hu
  | unary he hv => exact unary_runs he.2.root hm hv
  | arity | noProperty => exact .fail hm (by simp)
  | requireIndexable _ hv => exact requireIndexable_runs hm hv
  | element _ hv hu => exact element_runs hm hv hu
  | typeOf _ hv => exact typeOf_runs hm hv
  | newList _ hvs => exact newList_runs hm hvs
  | misplacedExpr he => cases he.2.root
  | display _ hv => exact display_runs hm hv
  | write => exact write_runs hm
  | truth _ hv => exact truth_runs hm hv
  | misplacedStmt hs => cases hs.2.root
  | leave _ hsignal =>
    refine leave_runs hm ?_
    rcases hsignal with rfl | ⟨_, -, hsignal⟩
    · trivial
    · exact hsignal
  | unfinishedValue | unfinishedSignal => exact .unfinished hm

/-- A function that is found was made in a scope of the set, from a tree that was read. -/
theorem builtinsFirst_runs {m : Machine} {name : String} {line : Line} (h : m.store.Closed A)
    (hscope : m.store.Holds A (.scope scope)) :
    Runs A m (Engine.builtinsFirst scope name line) (Engine.within A).callee := by
  rw [Engine.builtinsFirst]
  cases Builtin.ofName? name with
  | some b => exact .pure h trivial
  | none => exact (functionNamed_runs h hscope).bind fun c _ h₁ _ hc => .pure h₁ hc

/-- All parts of a run keep to the set. -/
theorem sustains_runsFrom (A : Ref → Prop) (coerce : Bool) :
    Engine.Sustains coerce (RunsFrom A) (Engine.within A) where
  keeps _ := rfl
  pure hV m hm h := .pure h (hm ▸ hV)
  bind hx hf m hm h := by
    subst hm
    exact (hx m rfl h).bind fun a m' h' f' ha => hf m'.store a f'.grows ha m' rfl h'
  elementary := runsFrom_of_elementary
  value_mono hle hv := hv.grow hle
  expr_mono hle he := ⟨he.1.grow hle, he.2⟩
  stmt_mono hle hs := ⟨hs.1.grow hle, hs.2⟩
  closure_mono hle hc := ⟨hc.1.grow hle, hc.2⟩
  literal he := within_of_isSpelled he.2.root
  giveBack _ _ hv := hv
  passed _ hsignal := hsignal
  define hs _ hv := by
    rintro m rfl h
    exact define_runs h hs.1.1 hv
  assign hs hv := by
    rintro m rfl h
    exact assign_runs h hs.1 hv
  newFunction hs := by
    rintro m rfl h
    exact newFunction_runs h hs.1 fun s hs' => hs.2.child hs'
  callee he hk := by
    rintro m rfl h
    refine (builtinsFirst_runs h he.1).bind fun callee m' h' f' hcallee => ?_
    exact hk m'.store callee f'.grows hcallee m' rfl h'
  builtin _ _ hvs := by
    rintro m rfl h
    exact builtin_runs h hvs
  enter hc hargs := by
    rintro m rfl h
    exact (enter_runs h hc.1 hargs).mono fun s id hid t ht => ⟨hid, hc.2 t ht⟩
  below he c hc := ⟨he.1, he.2.child hc⟩
  exprs hs e he := ⟨hs.1, hs.2.expr he⟩
  children hs _ c hc := ⟨hs.1, hs.2.child hc⟩

variable {m : Machine}

/-- An expression that was read keeps to any closed set around its scope. -/
theorem eval_runs {e : Expr} (h : m.store.Closed A) (hscope : m.store.Holds A (.scope scope))
    (he : e.Everywhere Expr.Proper) : Runs A m (eval coerce fuel scope e) (Store.Within A) :=
  (sustains_runsFrom A coerce).eval fuel m.store ⟨hscope, he⟩ m rfl h

/-- A statement that was read keeps to any closed set around its scope. -/
theorem exec_runs {s : Stmt} (h : m.store.Closed A) (hscope : m.store.Holds A (.scope scope))
    (hs : s.Everywhere Expr.Proper Stmt.Proper) :
    Runs A m (exec coerce fuel scope s) (SignalWithin A) :=
  (sustains_runsFrom A coerce).exec fuel m.store ⟨hscope, hs⟩ m rfl h

/-- A program that was read keeps to any closed set around the global scope. -/
theorem program_runs {p : Program} (coerce : Bool) (fuel : Nat) (hp : p.WellFormed)
    (h : m.store.Closed A) (hscope : m.store.Holds A (.scope globalScope)) :
    Runs A m (topLevel (exec coerce fuel globalScope) p.statements) fun _ _ => True :=
  (sustains_runsFrom A coerce).topLevel fuel m.store globalScope
    (fun s hs => ⟨hscope, hp s hs⟩) (fun _ _ _ _ _ _ _ _ m _ h => .fail h (by simp)) m rfl h

end Action

end Boli
