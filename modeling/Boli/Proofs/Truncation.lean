import Boli.Proofs.Detachment
import Boli.Proofs.Traces

/-!
# A sink that fails

A sink may take no more than some number of lines.  A run does not look at its sink before it
writes, and when the sink refuses a line, nothing stands between that error and the caller.  So the
run goes as it would with a sink that takes everything, up to the step that writes one line too
many, and there it ends.

* `Action.Silent` says that an action does not notice where output goes, and writes none.
* `Action.WritesOnce` says that an action writes at most one line and does nothing else if the line
  is refused.  All steps of a run are like that.
* `Action.Truncated` compares a run with a limited sink and the steps of the run with a sink that
  takes everything.
-/

namespace Boli

/-- The machine with another output and another sink. -/
def Machine.redirect (output : Array String) (sink : Sink) (m : Machine) : Machine :=
  { m with output := output, sink := sink }

/-- The machine with a sink that takes lines until there are `total` of them. -/
def Machine.limited (total : Nat) (reason : String) (m : Machine) : Machine :=
  { m with sink := ⟨some (total - m.output.size), reason⟩ }

/-- What was written and logged at first is still there. -/
structure Machine.Extends (m m' : Machine) : Prop where
  output : m.output.toList <+: m'.output.toList
  log : m.log.toList <+: m'.log.toList

namespace Machine.Extends

variable {m m' m'' : Machine}

theorem refl (m : Machine) : m.Extends m :=
  ⟨List.prefix_rfl, List.prefix_rfl⟩

theorem trans (h : m.Extends m') (h' : m'.Extends m'') : m.Extends m'' :=
  ⟨h.output.trans h'.output, h.log.trans h'.log⟩

theorem size_le (h : m.Extends m') : m.output.size ≤ m'.output.size := by
  simpa using h.output.length_le

end Machine.Extends

/-- If every step keeps what was written and logged, it is still there at the end. -/
theorem Machine.Leads.extends {m m' : Machine} {ts : List Step} (h : m.Leads ts m')
    (hsteps : ∀ t ∈ ts, t.before.Extends t.after) :
    m.Extends m' ∧ ∀ t ∈ ts, t.before.Extends m' := by
  induction ts generalizing m with
  | nil =>
    cases h
    exact ⟨.refl _, by simp⟩
  | cons t ts ih =>
    obtain ⟨rfl, hrest⟩ := h
    obtain ⟨hafter, htail⟩ := ih hrest fun u hu => hsteps u (List.mem_cons_of_mem t hu)
    have hhead := (hsteps t List.mem_cons_self).trans hafter
    exact ⟨hhead, List.forall_mem_cons.2 ⟨hhead, htail⟩⟩

namespace Action

variable {α β : Type} {x : Action α}

/-! ## Actions that write nothing -/

/-- The action notices neither the output nor the sink, and leaves both as they are. -/
structure Silent (x : Action α) : Prop where
  redirect : ∀ m output sink, x (m.redirect output sink) =
    onMachine (Machine.redirect output sink) (x m)
  log : ∀ m, m.log.toList <+: (x.after m).log.toList

namespace Silent

theorem pure (a : α) : Silent (pure a) :=
  ⟨fun _ _ _ => rfl, fun _ => List.prefix_rfl⟩

theorem throw (e : Stop) : Silent (throw e : Action α) :=
  ⟨fun _ _ _ => rfl, fun _ => List.prefix_rfl⟩

/-- Silent actions one after the other are silent. -/
theorem bind {f : α → Action β} (hx : Silent x) (hf : ∀ a, Silent (f a)) : Silent (x >>= f) := by
  constructor
  · intro m output sink
    have hfirst := hx.redirect m output sink
    cases heq : x m with
    | error e m' =>
      rw [heq] at hfirst
      rw [bind_of_error heq, bind_of_error hfirst]
      rfl
    | ok a m' =>
      rw [heq] at hfirst
      rw [bind_of_ok heq, bind_of_ok hfirst]
      exact (hf a).redirect m' output sink
  · intro m
    have hfirst := hx.log m
    cases heq : x m with
    | error e m' =>
      rw [after_of_error heq] at hfirst
      rwa [after_bind_error heq]
    | ok a m' =>
      rw [after_of_ok heq] at hfirst
      rw [after_bind_ok heq]
      exact hfirst.trans ((hf a).log m')

/-- An action that looks at the machine is silent if it does not look at the output. -/
theorem get {f : Machine → Action β} (hf : ∀ m, Silent (f m))
    (hsame : ∀ m output sink, f (m.redirect output sink) = f m) : Silent (get >>= f) := by
  refine ⟨fun m output sink => ?_, fun m => (hf m).log m⟩
  show f (m.redirect output sink) (m.redirect output sink) = onMachine _ (f m m)
  rw [hsame, (hf m).redirect]

theorem modifyStore (f : Store → Store) : Silent (modifyStore f) :=
  ⟨fun _ _ _ => rfl, fun _ => List.prefix_rfl⟩

/-- The output and the sink are as they were. -/
theorem after_eq (h : Silent x) (m : Machine) :
    (x.after m).output = m.output ∧ (x.after m).sink = m.sink := by
  have hsame : x m = onMachine (Machine.redirect m.output m.sink) (x m) :=
    h.redirect m m.output m.sink
  rw [after]
  cases heq : x m with
  | error e m' =>
    rw [heq] at hsame
    injection hsame with _ hm
    rw [hm]
    exact ⟨rfl, rfl⟩
  | ok a m' =>
    rw [heq] at hsame
    injection hsame with _ hm
    rw [hm]
    exact ⟨rfl, rfl⟩

/-- A silent action does the same with a limited sink. -/
theorem limited (h : Silent x) (m : Machine) (total : Nat) (reason : String) :
    x (m.limited total reason) = onMachine (Machine.limited total reason) (x m) := by
  have hafter := (h.after_eq m).1
  have hredirect := h.redirect m m.output ⟨some (total - m.output.size), reason⟩
  change x (m.redirect m.output ⟨some (total - m.output.size), reason⟩) = _
  rw [hredirect]
  rw [after] at hafter
  cases heq : x m with
  | error e m' =>
    rw [heq] at hafter
    simp only [onMachine, Machine.redirect, Machine.limited, ← hafter]
  | ok a m' =>
    rw [heq] at hafter
    simp only [onMachine, Machine.redirect, Machine.limited, ← hafter]

end Silent

theorem display_silent (v : Value) : Silent (display v) := by
  refine .get (fun m => ?_) fun _ _ _ => rfl
  split
  · exact .pure _
  · exact .throw _
  · exact .throw _
  · exact .throw _

theorem newList_silent (vs : Array Value) : Silent (newList vs) :=
  ⟨fun _ _ _ => rfl, fun _ => List.prefix_rfl⟩

/-- What operators are made of is silent. -/
theorem silent_spreads (line : Line) : Spreads line line (fun (_ : Unit) _ x _ => Silent x)
    (fun _ _ => True) (fun _ _ => True) where
  pure _ := .pure _
  fail _ := .throw _
  host _ := .throw _
  bind hx hf := hx.bind fun a => hf () a le_rfl
  look hf hsame := .get (fun m => hf () m le_rfl trivial) fun m output sink =>
    (hsame (m.redirect output sink) m rfl rfl).1
  display := display_silent
  newList _ := newList_silent _
  setInput _ := ⟨fun _ _ _ => rfl, fun _ => List.prefix_rfl⟩
  lasting _ _ := trivial
  plain _ := trivial
  elements _ _ := trivial

theorem assign_silent (scope : ScopeId) (name : String) (v : Value) (line : Line) :
    Silent (assign scope name v line) := by
  refine .get (fun m => ?_) fun _ _ _ => rfl
  split
  · exact .modifyStore _
  · exact .throw _

theorem newFunction_silent (c : Closure) : Silent (newFunction c) :=
  ⟨fun _ _ _ => rfl, fun _ => List.prefix_rfl⟩

theorem functionNamed_silent (scope : ScopeId) (name : String) (line : Line) :
    Silent (functionNamed scope name line) := by
  refine .get (fun m => ?_) fun _ _ _ => rfl
  dsimp only
  split
  · split
    · exact .pure _
    · exact .throw _
  · exact .throw _

theorem enter_silent (c : Closure) (args : List Value) : Silent (enter c args) := by
  have hscope : Silent (newScope c.scope) := ⟨fun _ _ _ => rfl, fun _ => List.prefix_rfl⟩
  have hrecord : Silent (record (.calling c.name args.length)) := by
    refine ⟨fun _ _ _ => rfl, fun m => ?_⟩
    change m.log.toList <+: (m.log.push _).toList
    rw [Array.toList_push]
    exact List.prefix_append _ _
  exact hscope.bind fun scope => (Silent.modifyStore _).bind fun _ => hrecord.bind fun _ => .pure _

theorem builtinsFirst_silent (scope : ScopeId) (name : String) (line : Line) :
    Silent (Engine.builtinsFirst scope name line) := by
  rw [Engine.builtinsFirst]
  split
  · exact .pure _
  · exact (functionNamed_silent scope name line).bind fun _ => .pure _

/-! ## Actions that write one line -/

/-- With a sink that takes everything, the action writes at most one line.  With a limited sink it
does the same if there is room for that line.  If there is none, it does nothing and stops on the
error of the sink. -/
def WritesOnce (x : Action α) : Prop :=
  ∀ m, m.sink.room = none → m.Extends (x.after m) ∧ (x.after m).sink.room = none ∧
    (((x.after m).output = m.output ∧ ∀ total reason,
        x (m.limited total reason) = onMachine (Machine.limited total reason) (x m)) ∨
      ∃ line, (x.after m).output = m.output.push line ∧
        (∀ total reason, m.output.size < total →
          x (m.limited total reason) = onMachine (Machine.limited total reason) (x m)) ∧
        ∀ reason, x (m.limited m.output.size reason) =
          .error (.host (.sinkFailed reason)) (m.limited m.output.size reason))

/-- An action that writes nothing has room for it everywhere. -/
theorem Silent.writesOnce (h : Silent x) : WritesOnce x := by
  intro m hroom
  obtain ⟨houtput, hsink⟩ := h.after_eq m
  refine ⟨⟨?_, h.log m⟩, ?_, .inl ⟨houtput, h.limited m⟩⟩
  · rw [houtput]
  · rw [hsink, hroom]

/-- Writing a line is all or nothing. -/
theorem write_writesOnce (text : String) : WritesOnce (write text) := by
  intro m hroom
  have hwrite : write text m = .ok () { m with output := m.output.push text } := by
    rw [write, hroom]
  rw [after_of_ok hwrite, hwrite]
  refine ⟨⟨?_, List.prefix_rfl⟩, hroom,
    .inr ⟨text, rfl, fun total reason hlt => ?_, fun reason => ?_⟩⟩
  · rw [Array.toList_push]
    exact List.prefix_append _ _
  · obtain ⟨k, hk⟩ := Nat.exists_eq_add_of_lt hlt
    have hfirst : total - m.output.size = k + 1 := by omega
    have hrest : total - (m.output.push text).size = k := by
      rw [Array.size_push]
      omega
    simp only [write, Machine.limited, onMachine, hfirst, hrest]
  · simp only [write, Machine.limited, Nat.sub_self]

/-- It does not matter what is made of the value. -/
theorem WritesOnce.map (h : WritesOnce x) (b : β) : WritesOnce (x >>= fun _ => pure b) := by
  intro m hroom
  have hafter : after (x >>= fun _ => pure b) m = after x m := by
    cases heq : x m with
    | error e m' => rw [after_bind_error heq, after_of_error heq]
    | ok a m' =>
      rw [after_bind_ok heq, after_of_ok heq]
      rfl
  have hsame {m' : Machine} {total : Nat} {reason : String}
      (heq : x m' = onMachine (Machine.limited total reason) (x m)) :
      (x >>= fun _ => pure b) m' =
        onMachine (Machine.limited total reason) ((x >>= fun _ => pure b) m) := by
    cases hx : x m with
    | error e m' =>
      rw [hx] at heq
      rw [bind_of_error heq, bind_of_error hx]
      rfl
    | ok a m' =>
      rw [hx] at heq
      rw [bind_of_ok heq, bind_of_ok hx]
      rfl
  obtain ⟨hextends, hroom', hcases⟩ := h m hroom
  rw [hafter]
  refine ⟨hextends, hroom', hcases.imp ?_ ?_⟩
  · exact fun ⟨houtput, hlimited⟩ => ⟨houtput, fun total reason => hsame (hlimited total reason)⟩
  · rintro ⟨line, houtput, hlimited, hrefused⟩
    refine ⟨line, houtput, fun total reason hlt => hsame (hlimited total reason hlt), ?_⟩
    exact fun reason => bind_of_error (hrefused reason)

/-- A display changes nothing. -/
theorem after_display (v : Value) (m : Machine) : (display v).after m = m := by
  rw [after, display, get_bind]
  cases m.store.display v with
  | ok text => rfl
  | error e => cases e <;> rfl

theorem after_displays (vs : List Value) (m : Machine) : (each display vs).after m = m := by
  induction vs with
  | nil => rfl
  | cons v vs ih =>
    have hfirst := after_display v m
    rw [each]
    cases hv : display v m with
    | error e m' =>
      rw [after_of_error hv] at hfirst
      rwa [after_bind_error hv]
    | ok text m' =>
      rw [after_of_ok hv] at hfirst
      subst hfirst
      rw [after_bind_ok hv]
      cases hvs : each display vs m' with
      | error e m'' =>
        rw [after_of_error hvs] at ih
        rwa [after_bind_error hvs]
      | ok texts m'' =>
        rw [after_of_ok hvs] at ih
        rw [after_bind_ok hvs]
        exact ih

/-- The texts of all values are there before the line is written. -/
theorem print_writesOnce (args : List Value) : WritesOnce (print args) := by
  intro m hroom
  have hdisplays := (silent_spreads none).displays (w := ()) args
  have hafter := after_displays args m
  cases htexts : each display args m with
  | error e m' =>
    rw [after_of_error htexts] at hafter
    subst hafter
    have hprint : print args m' = .error e m' := bind_of_error htexts
    rw [after_of_error hprint, hprint]
    refine ⟨.refl m', hroom, .inl ⟨rfl, fun total reason => ?_⟩⟩
    have hlimited := hdisplays.limited m' total reason
    rw [htexts] at hlimited
    exact bind_of_error hlimited
  | ok texts m' =>
    rw [after_of_ok htexts] at hafter
    subst hafter
    -- printing goes on to write the texts, on the machine as it is
    have hprint : print args m' = (write (" ".intercalate texts) >>= fun _ => pure .null) m' :=
      bind_of_ok htexts
    have hlimited (total : Nat) (reason : String) : print args (m'.limited total reason) =
        (write (" ".intercalate texts) >>= fun _ => pure .null) (m'.limited total reason) := by
      have hlimited := hdisplays.limited m' total reason
      rw [htexts] at hlimited
      exact bind_of_ok hlimited
    have hwrite := (write_writesOnce (" ".intercalate texts)).map Value.null m' hroom
    simp only [after, hprint, hlimited]
    exact hwrite

/-- No function of the language writes twice. -/
theorem builtin_writesOnce (b : Builtin) (args : List Value) (line : Line) :
    WritesOnce (builtin b args line) := by
  cases b with
  | print => exact print_writesOnce args
  | input => exact ((silent_spreads line).input (w := ()) args).writesOnce
  | list => exact (newList_silent _).writesOnce
  | length => exact ((silent_spreads line).length (w := ()) args).writesOnce
  | append =>
    exact ((silent_spreads line).append (w := ()) (fun _ _ _ => .modifyStore _)
      fun _ _ => trivial).writesOnce

/-- Neither does any other step. -/
theorem writesOnce_of_elementary (h : x.Elementary) : WritesOnce x := by
  cases h with
  | write text => exact write_writesOnce text
  | fail | unfinished => exact (Silent.throw _).writesOnce
  | lookup scope name line =>
    refine (Silent.get (fun m => ?_) fun _ _ _ => rfl).writesOnce
    split
    · exact .pure _
    · exact .throw _
  | binary op v w line =>
    exact ((silent_spreads line).binary (w := ()) op trivial trivial).writesOnce
  | unary op v line => exact ((silent_spreads line).unary (w := ()) op v).writesOnce
  | requireIndexable v line => exact ((silent_spreads line).requireIndexable (w := ()) v).writesOnce
  | element v i line => exact ((silent_spreads line).element (w := ()) v i).writesOnce
  | typeOf v => exact ((silent_spreads none).typeOf (w := ()) v).writesOnce
  | truth v => exact ((silent_spreads none).truth (w := ()) v).writesOnce
  | display v => exact (display_silent v).writesOnce
  | newList vs => exact (newList_silent vs).writesOnce
  | leave c signal =>
    cases signal with
    | normal | giveBack v => exact (Silent.pure _).writesOnce
    | stop | skip => exact (Silent.throw _).writesOnce

/-! ## Runs with a limited sink -/

end Action

/-- The step writes the line behind the first `total` lines. -/
def Step.Writes (total : Nat) (t : Step) : Prop :=
  t.before.output.size = total ∧ ∃ line, t.after.output = t.before.output.push line

namespace Action

open Tracing

variable {V : α → Prop} {U : β → Prop} {y : Action α} {x : Tracing α}

/-- The first action records the steps of the second one, with a sink that takes everything.  With a
limited sink, the second action does the same if there is room for all lines.  Otherwise it stops on
the error of the sink before the step that writes one line too many.  A value is as described by
`V`. -/
def Truncated (V : α → Prop) (x : Tracing α) (y : Action α) : Prop :=
  ∀ m, m.sink.room = none → ∃ ts, Traces x y m ts ∧ (∀ t ∈ ts, t.before.Extends t.after) ∧
    (y.after m).sink.room = none ∧ (∀ v m', y m = .ok v m' → V v) ∧
    (∀ total reason, (y.after m).output.size ≤ total →
      y (m.limited total reason) = onMachine (Machine.limited total reason) (y m)) ∧
    ∀ total reason, m.output.size ≤ total → total < (y.after m).output.size →
      ∃ t ∈ ts, t.Writes total ∧ y (m.limited total reason) =
        .error (.host (.sinkFailed reason)) (t.before.limited total reason)

namespace Truncated

theorem pure {v : α} (h : V v) : Truncated V (pure v) (pure v) := by
  intro m hroom
  refine ⟨[], .pure v m, by simp, hroom, fun v' m' heq => ?_, fun _ _ _ => rfl,
    fun total reason hle hlt => ?_⟩
  · cases heq
    exact h
  · exact absurd hle (Nat.not_le.2 hlt)

/-- If a step has no room for its line, the run ends within this step. -/
theorem lift {call : Option (Builtin × List Value)} (h : WritesOnce y)
    (hV : ∀ m v m', y m = .ok v m' → V v) : Truncated V (lift call y) y := by
  intro m hroom
  obtain ⟨hextends, hroom', hcases⟩ := h m hroom
  refine ⟨_, .lift call y m, by simpa using hextends, hroom', hV m, ?_⟩
  rcases hcases with ⟨houtput, hlimited⟩ | ⟨line, houtput, hlimited, hrefused⟩
  · refine ⟨fun total reason _ => hlimited total reason, fun total reason hle hlt => ?_⟩
    rw [houtput] at hlt
    exact absurd hle (Nat.not_le.2 hlt)
  · rw [houtput, Array.size_push]
    refine ⟨hlimited, fun total reason hle hlt => ?_⟩
    obtain rfl : total = m.output.size := by omega
    exact ⟨_, List.mem_singleton_self _, ⟨rfl, line, houtput⟩, hrefused reason⟩

/-- If the first part is cut short, the second one is not run. -/
theorem bind {f : α → Tracing β} {g : α → Action β} (h : Truncated V x y)
    (hf : ∀ v, V v → Truncated U (f v) (g v)) : Truncated U (x >>= f) (y >>= g) := by
  intro m hroom
  obtain ⟨ts, htraces, hsteps, hroom₁, hV, hfits, hcut⟩ := h m hroom
  cases hy : y m with
  | error e m₁ =>
    rw [after_of_error hy] at hroom₁ hfits hcut
    rw [after_bind_error hy]
    refine ⟨ts, htraces.bind_error hy, hsteps, hroom₁, fun v m' heq => ?_,
      fun total reason hle => ?_, fun total reason hle hlt => ?_⟩
    · cases (bind_of_error hy).symm.trans heq
    · have hfirst := hfits total reason hle
      rw [hy] at hfirst
      rw [bind_of_error hfirst, bind_of_error hy]
      rfl
    · obtain ⟨t, ht, hwrites, hstop⟩ := hcut total reason hle hlt
      exact ⟨t, ht, hwrites, bind_of_error hstop⟩
  | ok v m₁ =>
    rw [after_of_ok hy] at hroom₁ hfits hcut
    obtain ⟨us, htraces', hsteps', hroom₂, hU, hfits', hcut'⟩ := hf v (hV v m₁ hy) m₁ hroom₁
    have hsize := (htraces'.leads.extends hsteps').1.size_le
    have hfirst (total : Nat) (reason : String) (hle : m₁.output.size ≤ total) :
        (y >>= g) (m.limited total reason) = g v (m₁.limited total reason) := by
      have hfirst := hfits total reason hle
      rw [hy] at hfirst
      exact bind_of_ok hfirst
    rw [after_bind_ok hy, bind_of_ok hy]
    refine ⟨ts ++ us, htraces.bind_ok hy htraces', ?_, hroom₂, hU, fun total reason hle => ?_,
      fun total reason hle hlt => ?_⟩
    · simp only [List.mem_append, or_imp, forall_and]
      exact ⟨hsteps, hsteps'⟩
    · rw [hfirst total reason (hsize.trans hle)]
      exact hfits' total reason hle
    · -- the line too many is written by the first action or by the second one
      rcases Nat.lt_or_ge total m₁.output.size with hlt₁ | hge₁
      · obtain ⟨t, ht, hwrites, hstop⟩ := hcut total reason hle hlt₁
        exact ⟨t, List.mem_append_left us ht, hwrites, bind_of_error hstop⟩
      · obtain ⟨t, ht, hwrites, hstop⟩ := hcut' total reason hge₁ hlt
        exact ⟨t, List.mem_append_right ts ht, hwrites, (hfirst total reason hge₁).trans hstop⟩

end Truncated

end Action

/-- A run with a limited sink follows the steps of the run with a sink that takes everything. -/
theorem Engine.links_truncated : Links traced standard @Action.Truncated (fun _ => True)
    (fun _ => True) (fun _ => True) where
  pure := .pure
  bind := .bind
  elementary h := .lift (Action.writesOnce_of_elementary h) fun _ _ _ _ => trivial
  define _ _ _ _ := .lift (Action.Silent.modifyStore _).writesOnce fun _ _ _ _ => trivial
  assign _ scope v := .lift (Action.assign_silent scope _ v _).writesOnce fun _ _ _ _ => trivial
  newFunction _ := .lift (Action.newFunction_silent _).writesOnce fun _ _ _ _ => trivial
  callee _ scope :=
    .lift (Action.builtinsFirst_silent scope _ _).writesOnce fun _ _ _ _ _ _ => trivial
  builtin b args line := .lift (Action.builtin_writesOnce b args line) fun _ _ _ _ => trivial
  enter _ args := .lift (Action.enter_silent _ args).writesOnce fun _ _ _ _ => trivial

namespace Session

variable (fuel : Nat) (settings : Settings) (p : Program)

theorem truncated : Action.Truncated (fun _ => True) (traced fuel settings p)
    (Action.topLevel (Action.exec settings.coerce fuel globalScope) p.statements) := by
  have hstatements : ∀ s ∈ p.statements, True := fun _ _ => trivial
  have htop := Engine.links_truncated.topLevel settings.coerce fuel globalScope hstatements
  rwa [Engine.run_standard, Engine.topLevel_standard] at htop

/-- Where the statements end alike, the runs do. -/
theorem runWithin_of_onMachine {m m' : Machine} {total : Nat} {reason : String}
    (h : Action.topLevel (Action.exec settings.coerce fuel globalScope) p.statements m' =
      onMachine (Machine.limited total reason)
        (Action.topLevel (Action.exec settings.coerce fuel globalScope) p.statements m)) :
    runWithin fuel settings p m' =
      ((runWithin fuel settings p m).1, (runWithin fuel settings p m).2.limited total reason) := by
  rw [runWithin, runWithin, runBy, runBy, h]
  cases Action.topLevel (Action.exec settings.coerce fuel globalScope) p.statements m with
  | ok _ _ => rfl
  | error e _ => cases e <;> rfl

/-- A sink that fails only cuts the run short.  Let the sink of a machine take everything, and
compare with the run on the same machine whose sink takes `k` lines.  If the run writes no more
than `k` lines, the two runs are the same.  Otherwise the second one ends with the error of the
sink.  It ends where the first run takes the step that writes one line too many: with the lines,
the records and the store that the first run has before that step, and with one more record for the
error. -/
theorem runWithin_truncated {m : Machine} (hm : m.sink.room = none) (k : Nat) (reason : String) :
    let full := runWithin fuel settings p m
    let cut := runWithin fuel settings p { m with sink := ⟨some k, reason⟩ }
    let total := m.output.size + k
    (∃ last, m.Leads (trace fuel settings p m) last ∧
      full.2 = { last with log := full.2.log } ∧ last.log.toList <+: full.2.log.toList) ∧
    (full.2.output.size ≤ total →
      cut = (full.1, { full.2 with sink := ⟨some (total - full.2.output.size), reason⟩ })) ∧
    (total < full.2.output.size → ∃ t ∈ trace fuel settings p m, t.Writes total ∧
      cut = (.raised (.sinkFailed reason),
        { t.before with
          log := t.before.log.push (.unknownError settings.file (.sinkFailed reason))
          sink := ⟨some 0, reason⟩ }) ∧
      t.before.output.toList = full.2.output.toList.take total ∧
      t.before.log.toList <+: full.2.log.toList) := by
  intro full cut total
  obtain ⟨ts, htraces, hsteps, -, -, hfits, hcut⟩ := truncated fuel settings p m hm
  obtain ⟨hfull, hlog⟩ := runWithin_after fuel settings p m
  have hextends := (htraces.leads.extends hsteps).2
  have houtput := congrArg Machine.output hfull
  have hstart : { m with sink := ⟨some k, reason⟩ } = m.limited total reason := by
    rw [Machine.limited, Nat.add_sub_cancel_left]
  rw [trace_eq htraces]
  refine ⟨⟨_, htraces.leads, hfull, hlog⟩, fun hle => ?_, fun hlt => ?_⟩
  · rw [houtput] at hle
    have hsame := runWithin_of_onMachine fuel settings p (hfits total reason hle)
    rwa [← hstart] at hsame
  · rw [houtput] at hlt
    obtain ⟨t, ht, hwrites, hstop⟩ := hcut total reason (Nat.le_add_right _ _) hlt
    refine ⟨t, ht, hwrites, ?_, ?_, (hextends t ht).log.trans hlog⟩
    · change runWithin fuel settings p { m with sink := ⟨some k, reason⟩ } = _
      rw [hstart, runWithin, runBy, hstop]
      simp only [Machine.limited, hwrites.1, Nat.sub_self]
    · have htake := List.prefix_iff_eq_take.1 (hextends t ht).output
      rw [Array.length_toList, hwrites.1] at htake
      rw [htake, houtput]

/-- Prints the sum of two calls, each of which prints its argument. -/
def printingCalls : Program :=
  let call (x : Float) : Expr :=
    .call (some 2) ⟨some 2, "told"⟩ [.literal (some 2) (.number x) ""]
  .mk (some 1) [
    .function (some 1) "told" ["x"] (.mk (some 1) [
      .print (some 1) [.name (some 1) "x"],
      .giveBack (some 1) (some (.name (some 1) "x"))]),
    .print (some 2) [.binary (some 2) .add (call 1) (call 2)]]

/-- The second call is not over when the sink refuses its line. -/
theorem runWithin_truncated_printingCalls :
    (runWithin 9 {} printingCalls (.fresh .unavailable {})).2.output = #["1", "2", "3"] ∧
    ∃ t ∈ trace 9 {} printingCalls (.fresh .unavailable {}), t.Writes 1 ∧
      runWithin 9 {} printingCalls (.fresh .unavailable ⟨some 1, "full"⟩) =
        (.raised (.sinkFailed "full"),
          { t.before with
            log := t.before.log.push (.unknownError "<stdin>" (.sinkFailed "full"))
            sink := ⟨some 0, "full"⟩ }) := by
  have houtput : (runWithin 9 {} printingCalls (.fresh .unavailable {})).2.output =
      #["1", "2", "3"] := by decide +kernel
  have hroom : (Machine.fresh .unavailable {}).sink.room = none := rfl
  obtain ⟨-, -, hcut⟩ := runWithin_truncated 9 {} printingCalls hroom 1 "full"
  obtain ⟨t, ht, hwrites, hend, -⟩ := hcut (by rw [houtput]; decide)
  exact ⟨houtput, t, ht, hwrites, hend⟩

end Session

end Boli
