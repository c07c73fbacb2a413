import Boli.Proofs.CallTokens
import Boli.Proofs.GlobalNames
import Boli.Proofs.Links
import Boli.Proofs.Upholding

/-!
# Functions of the language are never captured

A call looks among the functions of the language first, and then in the scopes.  The order does not
matter: the names of those functions are keywords, a name in a program is no keyword in any letter
case, and so no scope of a run ever binds one of them.

* `Machine.Named` is the invariant: the bound names and those in the functions of the store are
  names.
* `Engine.lexical` looks in the scopes first.
* `Action.Agrees` says that two actions do the same on such machines and keep them so.  It links the
  two orders (`Engine.links_lexical`), and so the two runs are the same.
-/

namespace Boli

open Store

/-- The program mentions the name outside of calls. -/
inductive Block.Mentions (p : Program) : String → Prop where
  | declared (h : p.HasStmt (.declare l name initial)) : Mentions p name
  | assigned (h : p.HasStmt (.assign l name value)) : Mentions p name
  | function (h : p.HasStmt (.function l name ps body)) : Mentions p name
  | parameter (h : p.HasStmt (.function l f ps body)) (hname : name ∈ ps) : Mentions p name
  | read (h : p.HasExpr (.name l name)) : Mentions p name
  | property (h : p.HasExpr (.property l target property)) : Mentions p property.name

/-- What a well-formed program mentions is a name. -/
theorem Block.Mentions.isName {p : Program} {name : String} (h : p.Mentions name)
    (hp : p.WellFormed) : IsName name := by
  cases h with
  | declared h | assigned h => exact (Block.Everywhere.stmt hp h).root
  | function h => exact (Block.Everywhere.stmt hp h).root.1
  | parameter h hname => exact (Block.Everywhere.stmt hp h).root.2.1 name hname
  | read h | property h => exact (Block.Everywhere.expr hp h).root

/-! ## Bound names -/

/-- The parameters are names, and the body has the form of one that was read. -/
structure Closure.Named (c : Closure) : Prop where
  parameters : ∀ name ∈ c.parameters, IsName name
  body : Program.WellFormed c.body

/-- All that is bound is a name, now and by any function to come. -/
structure Machine.Named (m : Machine) : Prop where
  names : ∀ scope, ∀ name ∈ m.store.names scope, IsName name
  functions : ∀ c ∈ m.store.functions, c.Named

namespace Store

variable {s : Store} {id other : ScopeId} {name : String}

/-- A scope gets no other name than the one that is bound. -/
theorem eq_or_mem_names_of_define {n : String} {v : Value}
    (h : n ∈ (s.define id name v).names other) : n = name ∨ n ∈ s.names other := by
  by_cases heq : other = id
  · subst heq
    by_cases hid : s.Has (.scope other)
    · rwa [names_define_self s other name v hid, Bindings.mem_names_set] at h
    · -- there is nothing to bind the name in
      have hnone : (s.define other name v).scopes[other.index]? = none := by
        refine Array.getElem?_eq_none ?_
        rw [size_define]
        exact Nat.le_of_not_lt hid
      rw [names, bindings, hnone] at h
      cases h
  · rw [names_define s id other name v heq] at h
    exact .inr h

/-- A scope gets no other names than those that are bound. -/
theorem mem_or_mem_names_of_defineAll {n : String} {bs : List (String × Value)}
    (h : n ∈ (s.defineAll id bs).names other) : n ∈ bs.map Prod.fst ∨ n ∈ s.names other := by
  induction bs generalizing s with
  | nil => exact .inr h
  | cons b bs ih =>
    rcases ih h with h | h
    · exact .inl (.tail _ h)
    · rcases eq_or_mem_names_of_define h with rfl | h
      · exact .inl (.head _)
      · exact .inr h

/-- A name that no scope binds is not found. -/
theorem lookup?_eq_none (h : ∀ scope, name ∉ s.names scope) (id : ScopeId) :
    s.lookup? id name = none := by
  have hresolve : s.resolve? id name = none := by
    cases hr : s.resolve? id name with
    | none => rfl
    | some target => exact absurd (mem_names_of_resolve? hr) (h target)
  rw [lookup?, hresolve]
  rfl

end Store

namespace Machine.Named

variable {m : Machine}

/-- No scope binds the name of a function of the language. -/
theorem not_mem_names (h : m.Named) (scope : ScopeId) (b : Builtin) :
    b.name ∉ m.store.names scope :=
  fun hb => (h.names scope b.name hb).ne_builtin b rfl

theorem fresh (input : InputSource) (sink : Sink) : (Machine.fresh input sink).Named where
  names scope name h := by
    have hnames : (Machine.fresh input sink).store.names scope = [] := by
      obtain ⟨i⟩ := scope
      cases i <;> rfl
    rw [hnames] at h
    cases h
  functions c h := absurd h (Array.not_mem_empty c)

/-- All that is bound is in the scopes and the functions. -/
theorem of_eq {m' : Machine} (h : m.Named) (hscopes : m'.store.scopes = m.store.scopes)
    (hfunctions : m'.store.functions = m.store.functions) : m'.Named where
  names scope name hname := by
    rw [Store.names, bindings, hscopes] at hname
    exact h.names scope name hname
  functions c hc := h.functions c (hfunctions ▸ hc)

end Machine.Named

/-! ## Actions that do the same -/

namespace Action

variable {α β : Type} {x y : Action α} {V : α → Prop} {W : β → Prop}

/-- On machines that bind names only, the two actions do the same, and they leave such a machine
behind.  A value is as described by `V`. -/
structure Agrees (V : α → Prop) (x y : Action α) : Prop where
  same : ∀ m, m.Named → x m = y m
  named : ∀ m, m.Named → (after x m).Named
  value : ∀ m a m', m.Named → x m = .ok a m' → V a

namespace Agrees

theorem pure {a : α} (h : V a) : Agrees V (pure a) (pure a) := by
  refine ⟨fun _ _ => rfl, fun _ hm => hm, fun m a' m' _ hx => ?_⟩
  cases hx
  exact h

/-- The second actions have to agree only on values of the first. -/
theorem bind {f g : α → Action β} (h : Agrees V x y) (hf : ∀ a, V a → Agrees W (f a) (g a)) :
    Agrees W (x >>= f) (y >>= g) := by
  -- what comes after the first action runs on a machine that it has left behind
  have hnext {m : Machine} (hm : m.Named) {a : α} {m' : Machine} (hx : x m = .ok a m') :
      m'.Named ∧ Agrees W (f a) (g a) := by
    have hafter := h.named m hm
    rw [after, hx] at hafter
    exact ⟨hafter, hf a (h.value m a m' hm hx)⟩
  constructor
  · intro m hm
    have hsame := h.same m hm
    cases hx : x m with
    | error e m' => rw [bind_of_error hx, bind_of_error (hsame.symm.trans hx)]
    | ok a m' =>
      rw [bind_of_ok hx, bind_of_ok (hsame.symm.trans hx)]
      exact (hnext hm hx).2.same m' (hnext hm hx).1
  · intro m hm
    cases hx : x m with
    | error e m' =>
      have hafter := h.named m hm
      rw [after, hx] at hafter
      rwa [after_bind_error hx]
    | ok a m' =>
      rw [after_bind_ok hx]
      exact (hnext hm hx).2.named m' (hnext hm hx).1
  · intro m b m' hm hb
    obtain ⟨a, m₁, hx, hb⟩ := exists_of_bind_eq_ok hb
    exact (hnext hm hx).2.value m₁ b m' (hnext hm hx).1 hb

theorem throw (e : Stop) : Agrees V (throw e) (throw e) :=
  ⟨fun _ _ => rfl, fun _ hm => hm, fun _ _ _ _ hx => by cases hx⟩

/-- The actions look at a machine that binds names only. -/
theorem get {f g : Machine → Action β} (h : ∀ m, m.Named → Agrees W (f m) (g m)) :
    Agrees W (get >>= f) (get >>= g) where
  same m hm := (h m hm).same m hm
  named m hm := (h m hm).named m hm
  value m b m' hm hx := (h m hm).value m b m' hm hx

/-- An action does the same as itself. -/
theorem ofKept (h : ∀ m, m.Named → (after x m).Named) : Agrees (fun _ => True) x x :=
  ⟨fun _ _ => rfl, h, fun _ _ _ _ _ => trivial⟩

/-- An action that does not look at scopes keeps them as they are. -/
theorem ofDetached (h : Detached x) : Agrees (fun _ => True) x x := by
  refine .ofKept fun m hm => ?_
  unfold after
  cases hx : x m with
  | ok a m' => exact hm.of_eq (h.ok_eq hx).1 (h.ok_eq hx).2
  | error e m' => exact hm.of_eq (h.error_eq hx).1 (h.error_eq hx).2

end Agrees

/-! ## Steps -/

/-- The steps that bind nothing and make no function keep all bound names. -/
theorem agrees_of_elementary (h : x.Elementary) : Agrees (fun _ => True) x x := by
  cases h with
  | fail | unfinished => exact .throw _
  | lookup scope name line =>
    refine .get fun m _ => ?_
    cases m.store.lookup? scope name with
    | some v => exact .pure trivial
    | none => exact .throw _
  | binary op v w line => exact .ofDetached (binary_detached op v w line)
  | unary op v line => exact .ofDetached (unary_detached op v line)
  | requireIndexable v line => exact .ofDetached (requireIndexable_detached v line)
  | element v i line => exact .ofDetached (element_detached v i line)
  | typeOf v => exact .ofDetached (typeOf_detached v)
  | truth v => exact .ofDetached (truth_detached v)
  | display v => exact .ofDetached (display_detached v)
  | write text => exact .ofDetached (write_detached text)
  | newList vs => exact .ofDetached (newList_detached vs)
  | leave c signal =>
    cases signal with
    | normal | giveBack v => exact .pure trivial
    | stop | skip => exact .throw _

/-- A name may be bound. -/
theorem define_agrees {name : String} (h : IsName name) (scope : ScopeId) (v : Value) :
    Agrees (fun _ => True) (define scope name v) (define scope name v) := by
  refine .ofKept fun m hm => ⟨fun other n hn => ?_, hm.functions⟩
  rcases eq_or_mem_names_of_define hn with rfl | hn
  · exact h
  · exact hm.names other n hn

theorem assign_agrees {name : String} (h : IsName name) (scope : ScopeId) (v : Value)
    (line : Line) :
    Agrees (fun _ => True) (assign scope name v line) (assign scope name v line) := by
  refine .ofKept fun m hm => ?_
  rw [after, assign_eq]
  cases m.store.resolve? scope name with
  | none => exact hm
  | some target => exact (define_agrees h target v).named m hm

/-- A function with names for parameters may be made. -/
theorem newFunction_agrees {c : Closure} (h : c.Named) :
    Agrees (fun _ => True) (newFunction c) (newFunction c) := by
  refine .ofKept fun m hm => ⟨hm.names, fun c' hc' => ?_⟩
  rcases Array.mem_push.1 hc' with hc' | rfl
  · exact hm.functions c' hc'
  · exact h

/-- A function that is called comes from the store. -/
theorem functionNamed_agrees (scope : ScopeId) (name : String) (line : Line) :
    Agrees Closure.Named (functionNamed scope name line) (functionNamed scope name line) := by
  refine .get fun m hm => ?_
  dsimp only
  cases m.store.lookup? scope name with
  | none => exact .throw _
  | some v =>
    cases v with
    | function id =>
      dsimp only
      cases hc : m.store.closure? id with
      | none => exact .throw _
      | some c => exact .pure (hm.functions c (Array.mem_of_getElem? hc))
    | _ => exact .throw _

/-- The parameters that a call binds are names. -/
theorem enter_agrees {c : Closure} (h : c.Named) (args : List Value) :
    Agrees (fun _ => True) (enter c args) (enter c args) := by
  have hscope : Agrees (fun _ => True) (newScope c.scope) (newScope c.scope) := by
    refine .ofKept fun m hm => ⟨fun other name hname => hm.names other name ?_, hm.functions⟩
    rw [names, ← bindings_newScope (some c.scope)]
    exact hname
  have hparameters (scope : ScopeId) : Agrees (fun _ => True)
      (modifyStore (·.defineAll scope (c.parameters.zip args)))
      (modifyStore (·.defineAll scope (c.parameters.zip args))) := by
    refine .ofKept fun m hm => ⟨fun other name hname => ?_, fun c' hc' => ?_⟩
    · rcases mem_or_mem_names_of_defineAll hname with hparameter | hname
      · obtain ⟨b, hb, rfl⟩ := List.mem_map.1 hparameter
        exact h.parameters b.1 (List.of_mem_zip hb).1
      · exact hm.names other name hname
    · refine hm.functions c' ?_
      rw [← functions_defineAll scope (c.parameters.zip args)]
      exact hc'
  have hrecord : Agrees (fun _ => True) (record (.calling c.name args.length))
      (record (.calling c.name args.length)) := .ofKept fun _ hm => ⟨hm.names, hm.functions⟩
  refine hscope.bind fun scope _ => (hparameters scope).bind fun _ _ => ?_
  exact hrecord.bind fun _ _ => .pure trivial

end Action

/-! ## The other order -/

namespace Engine

/-- What the scopes bind is found first, and then the functions of the language. -/
def scopesFirst (scope : ScopeId) (name : String) (line : Line) : Action Callee := do
  match (← get).store.lookup? scope name with
  | some _ => do
    let closure ← Action.functionNamed scope name line
    return .function closure
  | none =>
    match Builtin.ofName? name with
    | some b => return .builtin b
    | none => Action.fail (.unknownFunction name) line

/-- The standard parts, but calls are resolved through the scopes first. -/
def lexical : Engine Action where
  step := id
  callee := scopesFirst
  builtin := Action.builtin

/-- A call of a name that no scope binds fails. -/
theorem functionNamed_of_unbound {m : Machine} {scope : ScopeId} {name : String} (line : Line)
    (h : m.store.lookup? scope name = none) :
    Action.functionNamed scope name line m = .error (.fault ⟨.unknownFunction name, line⟩) m := by
  rw [Action.functionNamed, Action.get_bind, h]
  rfl

/-- The scopes bind no function of the language, so either order finds the same. -/
theorem builtinsFirst_eq {m : Machine} (hm : m.Named) (scope : ScopeId) (name : String)
    (line : Line) : builtinsFirst scope name line m = scopesFirst scope name line m := by
  rw [scopesFirst, Action.get_bind, builtinsFirst]
  cases hb : Builtin.ofName? name with
  | some b =>
    obtain rfl := Builtin.name_of_ofName? hb
    rw [lookup?_eq_none fun scope => hm.not_mem_names scope b]
  | none =>
    cases hl : m.store.lookup? scope name with
    | some v => rfl
    | none => exact Action.bind_of_error (functionNamed_of_unbound line hl)

/-- Both orders find the same function, and it comes from the store or is one of the language. -/
theorem callee_agrees (scope : ScopeId) (name : String) (line : Line) :
    Action.Agrees (fun callee => ∀ c, callee = .function c → c.Named)
      (builtinsFirst scope name line) (scopesFirst scope name line) := by
  have hself : Action.Agrees (fun callee => ∀ c, callee = .function c → c.Named)
      (builtinsFirst scope name line) (builtinsFirst scope name line) := by
    rw [builtinsFirst]
    cases Builtin.ofName? name with
    | some b => exact .pure (by simp)
    | none =>
      refine (Action.functionNamed_agrees scope name line).bind fun c hc => .pure ?_
      rintro _ ⟨⟩
      exact hc
  exact ⟨fun m hm => builtinsFirst_eq hm scope name line, hself.named, hself.value⟩

/-- The two orders agree in all that a run of a well-formed program does. -/
theorem links_lexical : Links standard lexical @Action.Agrees (Expr.Everywhere Expr.Proper)
    (Stmt.Everywhere Expr.Proper Stmt.Proper) Closure.Named where
  pure := .pure
  bind := .bind
  elementary := Action.agrees_of_elementary
  define {s name} hs hbound scope v := by
    refine Action.define_agrees ?_ scope v
    have hproper := hs.root
    cases s <;> cases hbound
    · exact hproper
    · exact hproper.1
  assign hs scope v := Action.assign_agrees hs.root scope v _
  closure hs _ := ⟨hs.root.2.1, fun _ h => hs.child h⟩
  newFunction := Action.newFunction_agrees
  callee _ scope := callee_agrees scope _ _
  builtin b args line := .ofDetached (Action.builtin_detached b args line)
  enter := Action.enter_agrees
  body hc := hc.body
  below he _ hc := he.child hc
  exprs hs _ he := hs.expr he
  children hs _ hc := hs.child hc

end Engine

/-! ## Runs -/

theorem Action.topLevel_agrees {run run' : Stmt → Action Signal} {ss : List Stmt}
    (h : ∀ s ∈ ss, Agrees (fun _ => True) (run s) (run' s)) :
    Agrees (fun _ => True) (topLevel run ss) (topLevel run' ss) := by
  induction ss with
  | nil => exact .pure trivial
  | cons s ss ih =>
    refine (h s List.mem_cons_self).bind fun signal _ => ?_
    cases signal with
    | normal => exact ih fun t ht => h t (List.mem_cons_of_mem s ht)
    | stop | skip | giveBack _ => exact .throw _

/-- In every state of a run, all that is bound is a name. -/
theorem Machine.Reached.named {coerce : Bool} {p : Program} {m : Machine}
    (h : m.Reached coerce p) (hp : p.WellFormed) : m.Named := by
  have hlinks (fuel : Nat) := Engine.links_lexical.run coerce fuel
  simp only [Engine.run_standard] at hlinks
  induction h with
  | fresh input sink => exact .fresh input sink
  | eval _ he _ fuel ih => exact ((hlinks fuel).eval _ _ (Block.Everywhere.expr hp he)).named _ ih
  | exec _ hs _ fuel ih => exact ((hlinks fuel).exec _ _ (Block.Everywhere.stmt hp hs)).named _ ih
  | enter _ hc _ ih =>
    exact (Action.enter_agrees (ih.functions _ (Array.mem_of_getElem? hc)) _).named _ ih

namespace Session

/-- The order in which calls are resolved makes no difference to a run. -/
theorem runWithin_eq_lexical {p : Program} (hp : p.WellFormed) (fuel : Nat) (settings : Settings)
    {m : Machine} (hm : m.Named) :
    runWithin fuel settings p m =
      runBy ((Engine.lexical.run settings.coerce fuel).exec globalScope) settings p m := by
  have hlinks := Engine.links_lexical.run settings.coerce fuel
  rw [Engine.run_standard] at hlinks
  have hstatements := Action.topLevel_agrees fun s hs => hlinks.exec globalScope s (hp s hs)
  rw [runWithin, runBy, runBy, ← hstatements.same m hm]
  rfl

end Session

/-- Functions of the language are never captured.  No name in a program that was read is a keyword
in any letter case.  A call goes to a function of the language if and only if the token in front of
its parenthesis is the keyword of that function in some letter case.  So no scope of a run ever
binds such a function, neither on the way nor at the end, and to look in the scopes first makes the
same run. -/
theorem builtins_never_captured {text : String} {p : Program} (hp : Program.ofText text = .ok p) :
    (∀ name, p.Mentions name → ∀ k : Keyword, ¬k.IsSpelledBy name) ∧
    (∃ tokens q, Token.ofText text = .ok tokens ∧
      Parser.program.ofTokens (Token.numbered tokens) = .ok q ∧ q.unlined = p.unlined ∧
      ∀ line callee args, q.HasExpr (.call line callee args) →
        ∃ (i : Nat) (t o : Token), line = some (i : Int) ∧ tokens[i]? = some t ∧
          tokens[i + 1]? = some o ∧ o.kind = .symbol .openParen ∧ t.Calls callee.name ∧
          ∀ b : Builtin, (callee.name = b.name ↔ t.kind = .keyword b.keyword) ∧
            (t.kind = .keyword b.keyword ↔ b.keyword.IsSpelledBy t.value)) ∧
    (∀ coerce (m : Machine), m.Reached coerce p → ∀ scope (b : Builtin),
      b.name ∉ m.store.names scope) ∧
    (∀ fuel settings input sink scope (b : Builtin),
      b.name ∉ (Session.runWithin fuel settings p (.fresh input sink)).2.store.names scope) ∧
    ∀ fuel settings input sink, Session.runWithin fuel settings p (.fresh input sink) =
      Session.runBy ((Engine.lexical.run settings.coerce fuel).exec globalScope) settings p
        (.fresh input sink) := by
  have hwf := wellFormed_of_ofText hp
  refine ⟨fun name hname => (hname.isName hwf).not_isSpelledBy, ?_, ?_, ?_, ?_⟩
  · obtain ⟨tokens, htokens, _⟩ := ofText_eq_ok.1 hp
    obtain ⟨q, hq, hunlined, hcalls⟩ := exists_numbered htokens hp
    refine ⟨tokens, q, htokens, hq, hunlined, fun line callee args hcall => ?_⟩
    obtain ⟨i, t, o, hline, ht, ho, hparen, hcallee⟩ := hcalls line callee args hcall
    exact ⟨i, t, o, hline, ht, ho, hparen, hcallee,
      hcallee.builtin_iff htokens (List.mem_of_getElem? ht)⟩
  · exact fun coerce m hm => (hm.named hwf).not_mem_names
  · intro fuel settings input sink
    obtain ⟨m, hm, hstore⟩ := Session.exists_reached hwf fuel settings input sink
    rw [hstore]
    exact (hm.named hwf).not_mem_names
  · exact fun fuel settings input sink =>
      Session.runWithin_eq_lexical hwf fuel settings (.fresh input sink)

/-- Calls functions of the language in mixed letter case, from a function with a name close to
theirs. -/
def mixedCalls : Program :=
  .mk (some 1) [
    .function (some 2) "joda" ["x"] (.mk (some 2) [.giveBack (some 2) (some
      (.call (some 2) ⟨some 2, "jod"⟩ [.name (some 2) "x",
        .call (some 2) ⟨some 2, "moj"⟩ [.name (some 2) "x"]]))]),
    .print (some 3) [.call (some 3) ⟨some 3, "joda"⟩ [.call (some 3) ⟨some 3, "yadi"⟩ []]]]

theorem builtins_never_captured_mixedCalls :
    mixedCalls.Mentions "joda" ∧ ¬Keyword.append.IsSpelledBy "joda" ∧
      Session.runWithin 9 {} mixedCalls (.fresh .unavailable {}) =
        Session.runBy ((Engine.lexical.run false 9).exec globalScope) {} mixedCalls
          (.fresh .unavailable {}) := by
  have htext : Program.ofText ("chala suru karu;\n" ++
      "kaamKar joda(x) \x7b paratDe Jod(x, MOJ(x)); \x7d\n" ++
      "dakhava joda(yaDi());\nbas re ata;") = .ok mixedCalls := by
    cbv
  have hmentions : mixedCalls.Mentions "joda" := .function (.top List.mem_cons_self)
  obtain ⟨hnames, _, _, _, hrun⟩ := builtins_never_captured htext
  exact ⟨hmentions, hnames "joda" hmentions .append, hrun 9 {} .unavailable {}⟩

end Boli
