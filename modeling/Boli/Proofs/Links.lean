import Mathlib
import Boli.Proofs.Engines
import Boli.Proofs.RewrittenTrees

/-!
# One induction over running

Whatever holds of all runs, or between two ways to run a program, holds because each part of a run
keeps it.  Here this is shown once.

* `Engine.Account` has what is said of the values, signals, trees and functions that runs come
  across.  It may depend on a world, which stands for what the machine has at the time, and stays
  true in later worlds (`Engine.Account.Lawful`).
* `Engine.LinksIn` says that a relation between actions is kept by all parts of two engines, of which
  the second one runs rewritten trees.
* `Engine.LinksIn.run` is the induction: then the relation holds between whole runs.
* `Engine.Links` is the same for relations that need no worlds and no rewriting, and
  `Engine.Sustains` for properties of a single run.
-/

namespace Boli

/-! ## Rewritten functions -/

/-- The constants mean with the second setting what they meant with the first. -/
def Rewriting.Keeps (r : Rewriting) (coerce coerce' : Bool) : Prop :=
  ∀ v : Value, (r.constant v).coerced coerce' = v.coerced coerce

/-- The function with the lines and constants of its body rewritten. -/
def Closure.rewritten (r : Rewriting) (c : Closure) : Closure :=
  { c with body := c.body.rewritten r }

theorem Closure.rewritten_identity (c : Closure) : c.rewritten .identity = c := by
  rw [rewritten, Block.rewritten_identity]

/-- What is called, with its body rewritten. -/
def Callee.rewritten (r : Rewriting) : Callee → Callee
  | builtin b => builtin b
  | function c => function (c.rewritten r)

theorem Callee.rewritten_identity (callee : Callee) : callee.rewritten .identity = callee := by
  cases callee with
  | builtin b => rfl
  | function c => rw [rewritten, Closure.rewritten_identity]

/-! ## What is said of a run -/

/-- A signal that the second statement ends with is one that the first statement ends with. -/
inductive Stmt.Passes : Stmt → Stmt → Signal → Prop where
  | block {b : Block} {c : Stmt} {signal : Signal} (h : c ∈ b.statements) :
    Passes (.block b) c signal
  | consequent {line : Line} {e : Expr} {c : Stmt} {a : Option Stmt} {signal : Signal} :
    Passes (.branch line e c a) c signal
  | alternate {line : Line} {e : Expr} {s c : Stmt} {signal : Signal} :
    Passes (.branch line e s (some c)) c signal
  | loop {line : Line} {e : Expr} {b : Block} {c : Stmt} {v : Value} (h : c ∈ b.statements) :
    Passes (.loop line e b) c (.giveBack v)

namespace Engine

/-- What is said of the things that runs come across, in a world. -/
structure Account (W : Type) where
  /-- Said of values. -/
  value : W → Value → Prop := fun _ _ => True
  /-- Said of the signals that a statement ends with. -/
  signal : Stmt → W → Signal → Prop := fun _ _ _ => True
  /-- Said of expressions and the scopes that they are evaluated in. -/
  expr : W → ScopeId → Expr → Prop := fun _ _ _ => True
  /-- Said of statements and the scopes that they run in. -/
  stmt : W → ScopeId → Stmt → Prop := fun _ _ _ => True
  /-- Said of the functions of the script. -/
  closure : W → Closure → Prop := fun _ _ => True
  /-- Said of the functions of the language that are called. -/
  builtin : Builtin → Prop := fun _ => True

namespace Account

variable {W : Type}

/-- Said of what is called. -/
def callee (A : Account W) (w : W) : Callee → Prop
  | .builtin b => A.builtin b
  | .function c => A.closure w c

/-- Said of the signals that statements end with when they run in order. -/
def signals (A : Account W) (ss : List Stmt) (w : W) (signal : Signal) : Prop :=
  signal = .normal ∨ ∃ s ∈ ss, A.signal s w signal

/-- What is said stays true, and it is true of parts and results if it is true of what they come
from. -/
structure Lawful [Preorder W] (A : Account W) (coerce : Bool) : Prop where
  value_mono : ∀ {w w' : W} {v : Value}, w ≤ w' → A.value w v → A.value w' v := by
    intros; trivial
  expr_mono : ∀ {w w' : W} {scope : ScopeId} {e : Expr}, w ≤ w' → A.expr w scope e →
    A.expr w' scope e := by intros; trivial
  stmt_mono : ∀ {w w' : W} {scope : ScopeId} {s : Stmt}, w ≤ w' → A.stmt w scope s →
    A.stmt w' scope s := by intros; trivial
  closure_mono : ∀ {w w' : W} {c : Closure}, w ≤ w' → A.closure w c → A.closure w' c := by
    intros; trivial
  null : ∀ w, A.value w .null := by intros; trivial
  literal : ∀ {w : W} {scope : ScopeId} {line : Line} {v : Value} {raw : String},
    A.expr w scope (.literal line v raw) → A.value w (v.coerced coerce) := by intros; trivial
  normal : ∀ s w, A.signal s w .normal := by intros; trivial
  stop : ∀ line w, A.signal (.stop line) w .stop := by intros; trivial
  skip : ∀ line w, A.signal (.skip line) w .skip := by intros; trivial
  giveBack : ∀ {w : W} {v : Value} (line : Line) (e : Option Expr), A.value w v →
    A.signal (.giveBack line e) w (.giveBack v) := by intros; trivial
  passed : ∀ {s c : Stmt} {w : W} {signal : Signal}, s.Passes c signal → A.signal c w signal →
    A.signal s w signal := by intros; trivial
  below : ∀ {w : W} {scope : ScopeId} {e : Expr}, A.expr w scope e →
    ∀ c ∈ e.children, A.expr w scope c := by intros; trivial
  exprs : ∀ {w : W} {scope : ScopeId} {s : Stmt}, A.stmt w scope s →
    ∀ e ∈ s.exprs, A.expr w scope e := by intros; trivial
  children : ∀ {w : W} {scope : ScopeId} {s : Stmt}, A.stmt w scope s → s.isCompound = true →
    ∀ c ∈ s.children, A.stmt w scope c := by intros; trivial

end Account

end Engine

/-! ## Relations between actions -/

/-- The steps that bind no name, make no function and add to no list, and what is said of their
values.  A step of the second kind is told the rewritten line. -/
inductive Action.ElementaryIn {W : Type} (A : Engine.Account W) (r : Rewriting) (w : W) :
    {α : Type} → (W → α → Prop) → Action α → Action α → Prop where
  | lookup {scope : ScopeId} {line : Line} {name : String} (h : A.expr w scope (.name line name)) :
    ElementaryIn A r w A.value (lookup scope name line) (lookup scope name (r.line line))
  | binary {scope : ScopeId} {line : Line} {op : Op} {left right : Expr} {v u : Value}
    (h : A.expr w scope (.binary line op left right)) (hv : A.value w v) (hu : A.value w u) :
    ElementaryIn A r w A.value (binary op v u line) (binary op v u (r.line line))
  | unary {scope : ScopeId} {line : Line} {op : Op} {e : Expr} {v : Value}
    (h : A.expr w scope (.unary line op e)) (hv : A.value w v) :
    ElementaryIn A r w A.value (unary op v line) (unary op v (r.line line))
  | arity {scope : ScopeId} {line : Line} {f : Ident} {args : List Expr}
    (h : A.expr w scope (.call line f args)) (expected : Nat) :
    ElementaryIn A r w A.value (fail (.arity f.name expected args.length) line)
      (fail (.arity f.name expected args.length) (r.line line))
  | requireIndexable {scope : ScopeId} {line : Line} {e i : Expr} {v : Value}
    (h : A.expr w scope (.index line e i)) (hv : A.value w v) :
    ElementaryIn A r w (fun _ _ => True) (requireIndexable v line)
      (requireIndexable v (r.line line))
  | element {scope : ScopeId} {line : Line} {e i : Expr} {v u : Value}
    (h : A.expr w scope (.index line e i)) (hv : A.value w v) (hu : A.value w u) :
    ElementaryIn A r w A.value (element v u line) (element v u (r.line line))
  | typeOf {scope : ScopeId} {line : Line} {e : Expr} {n : Ident} {v : Value}
    (h : A.expr w scope (.property line e n)) (hv : A.value w v) :
    ElementaryIn A r w (fun _ _ => True) (typeOf v) (typeOf v)
  | noProperty {scope : ScopeId} {line : Line} {e : Expr} {n : Ident}
    (h : A.expr w scope (.property line e n)) (type : ValueType) :
    ElementaryIn A r w A.value (fail (.noProperty n.name type) line)
      (fail (.noProperty n.name type) (r.line line))
  | newList {scope : ScopeId} {line : Line} {es : List Expr} {vs : Array Value}
    (h : A.expr w scope (.list line es)) (hvs : ∀ v ∈ vs, A.value w v) :
    ElementaryIn A r w A.value (newList vs) (newList vs)
  | misplacedExpr {scope : ScopeId} {line : Line} {form : String}
    (h : A.expr w scope (.misplaced line form)) :
    ElementaryIn A r w A.value (fail (.unknownOperation ("expression " ++ form)) line)
      (fail (.unknownOperation ("expression " ++ form)) (r.line line))
  | display {scope : ScopeId} {line : Line} {es : List Expr} {v : Value}
    (h : A.stmt w scope (.print line es)) (hv : A.value w v) :
    ElementaryIn A r w (fun _ _ => True) (display v) (display v)
  | write {scope : ScopeId} {line : Line} {es : List Expr} (h : A.stmt w scope (.print line es))
    (text : String) : ElementaryIn A r w (fun _ _ => True) (write text) (write text)
  | truth {scope : ScopeId} {s : Stmt} {v : Value} (h : A.stmt w scope s) (hv : A.value w v) :
    ElementaryIn A r w (fun _ _ => True) (truth v) (truth v)
  | misplacedStmt {scope : ScopeId} {line : Line} {form : String}
    (h : A.stmt w scope (.misplaced line form)) :
    ElementaryIn A r w (A.signal (.misplaced line form))
      (fail (.unknownOperation ("statement " ++ form)) line)
      (fail (.unknownOperation ("statement " ++ form)) (r.line line))
  | leave {c : Closure} {signal : Signal} (h : A.closure w c)
    (hsignal : A.signals c.body.statements w signal) :
    ElementaryIn A r w A.value (leave c signal) (leave (c.rewritten r) signal)
  | unfinishedValue : ElementaryIn A r w A.value (throw .unfinished) (throw .unfinished)
  | unfinishedSignal (s : Stmt) :
    ElementaryIn A r w (A.signal s) (throw .unfinished) (throw .unfinished)

/-- Without rewriting, the two steps are the same. -/
theorem Action.ElementaryIn.eq {W : Type} {A : Engine.Account W} {w : W} {α : Type}
    {V : W → α → Prop} {x y : Action α} (h : ElementaryIn A .identity w V x y) : y = x := by
  cases h with
  | leave => rw [Closure.rewritten_identity]
  | _ => rfl

namespace Engine

variable {M N : Type → Type} [Monad M] [Monad N] {E : Engine M} {F : Engine N}

section Worlds

variable {W : Type} [Preorder W] {A : Account W} {coerce coerce' : Bool} {ρ : Rewriting}
  {rel : ∀ {α : Type}, W → (W → α → Prop) → M α → N α → Prop}

/-- All parts of two engines keep a relation between actions.  The relation holds in a world and
comes with what is said of the value in the world that the actions lead to. -/
structure LinksIn (E : Engine M) (F : Engine N) (ρ : Rewriting) (coerce coerce' : Bool)
    (rel : ∀ {α : Type}, W → (W → α → Prop) → M α → N α → Prop) (A : Account W) : Prop
    extends A.Lawful coerce where
  keeps : ρ.Keeps coerce coerce'
  pure : ∀ {α : Type} {V : W → α → Prop} {w : W} {a : α}, V w a → rel w V (pure a) (pure a)
  bind : ∀ {α β : Type} {V : W → α → Prop} {U : W → β → Prop} {w : W} {x : M α} {y : N α}
    {f : α → M β} {g : α → N β}, rel w V x y →
    (∀ w' a, w ≤ w' → V w' a → rel w' U (f a) (g a)) → rel w U (x >>= f) (y >>= g)
  elementary : ∀ {α : Type} {V : W → α → Prop} {w : W} {x y : Action α},
    Action.ElementaryIn A ρ w V x y → rel w V (E.step x) (F.step y)
  define : ∀ {w : W} {scope : ScopeId} {s : Stmt} {name : String} {v : Value},
    A.stmt w scope s → s.declared? = some name → A.value w v → rel w (fun _ _ => True)
      (E.step (Action.define scope name v)) (F.step (Action.define scope name v))
  assign : ∀ {w : W} {scope : ScopeId} {line : Line} {name : String} {e : Expr} {v : Value},
    A.stmt w scope (.assign line name e) → A.value w v → rel w (fun _ _ => True)
      (E.step (Action.assign scope name v line)) (F.step (Action.assign scope name v (ρ.line line)))
  newFunction : ∀ {w : W} {scope : ScopeId} {line : Line} {name : String} {ps : List String}
    {b : Block}, A.stmt w scope (.function line name ps b) →
    rel w A.value (E.step (Action.newFunction ⟨name, ps, b, scope⟩))
      (F.step (Action.newFunction ⟨name, ps, b.rewritten ρ, scope⟩))
  /-- Two runs that are related for each function they may call are related if they look for it. -/
  callee : ∀ {w : W} {scope : ScopeId} {line : Line} {f : Ident} {args : List Expr} {β : Type}
    {U : W → β → Prop} {k : Callee → M β} {k' : Callee → N β},
    A.expr w scope (.call line f args) →
    (∀ w' callee, w ≤ w' → A.callee w' callee → rel w' U (k callee) (k' (callee.rewritten ρ))) →
    rel w U (E.callee scope f.name line >>= k) (F.callee scope f.name (ρ.line line) >>= k')
  builtin : ∀ {w : W} {scope : ScopeId} {line : Line} {f : Ident} {args : List Expr} {b : Builtin}
    {vs : List Value}, A.expr w scope (.call line f args) → A.builtin b →
    (∀ v ∈ vs, A.value w v) → rel w A.value (E.builtin b vs line) (F.builtin b vs (ρ.line line))
  enter : ∀ {w : W} {c : Closure} {args : List Value}, A.closure w c →
    (∀ v ∈ args, A.value w v) →
    rel w (fun w scope => ∀ s ∈ c.body.statements, A.stmt w scope s)
      (E.step (Action.enter c args)) (F.step (Action.enter (c.rewritten ρ) args))

/-- The relation holds between what two runners do, in all worlds. -/
structure LinkedIn (ρ : Rewriting) (rel : ∀ {α : Type}, W → (W → α → Prop) → M α → N α → Prop)
    (A : Account W) (r : Runner M) (r' : Runner N) : Prop where
  eval : ∀ {w : W} {scope : ScopeId} {e : Expr}, A.expr w scope e →
    rel w A.value (r.eval scope e) (r'.eval scope (e.rewritten ρ))
  exec : ∀ {w : W} {scope : ScopeId} {s : Stmt}, A.stmt w scope s →
    rel w (A.signal s) (r.exec scope s) (r'.exec scope (s.rewritten ρ))
  loop : ∀ {w : W} {scope : ScopeId} {line : Line} {e : Expr} {b : Block},
    A.stmt w scope (.loop line e b) → rel w (A.signal (.loop line e b)) (r.loop scope e b)
      (r'.loop scope (e.rewritten ρ) (b.rewritten ρ))
  call : ∀ {w : W} {c : Closure} {args : List Value}, A.closure w c →
    (∀ v ∈ args, A.value w v) → rel w A.value (r.call c args) (r'.call (c.rewritten ρ) args)

namespace LinksIn

variable (h : LinksIn E F ρ coerce coerce' @rel A)
include h

/-- The texts of values that are printed are asked for one by one. -/
theorem texts {w : W} {scope : ScopeId} {line : Line} {es : List Expr} {vs : List Value}
    (hs : A.stmt w scope (.print line es)) (hvs : ∀ v ∈ vs, A.value w v) :
    rel w (fun _ _ => True) (Engine.each (fun v => E.step (Action.display v)) vs)
      (Engine.each (fun v => F.step (Action.display v)) vs) := by
  induction vs generalizing w with
  | nil => exact h.pure trivial
  | cons v vs ih =>
    rw [List.forall_mem_cons] at hvs
    refine h.bind (h.elementary (.display hs hvs.1)) fun w₁ text hle _ => ?_
    refine h.bind (ih (h.stmt_mono hle hs) fun v hv => h.value_mono hle (hvs.2 v hv)) ?_
    exact fun _ texts _ _ => h.pure trivial

/-- Less may be said of the value. -/
theorem mono [LawfulMonad M] [LawfulMonad N] {α : Type} {V U : W → α → Prop} {w : W} {x : M α}
    {y : N α} (hx : rel w V x y) (hV : ∀ w' a, w ≤ w' → V w' a → U w' a) : rel w U x y := by
  have hbind := h.bind hx fun w' a hle ha => h.pure (hV w' a hle ha)
  rwa [bind_pure, bind_pure] at hbind

section Steps

variable {r : Runner M} {r' : Runner N} (ih : LinkedIn ρ @rel A r r')
include ih

/-- What is said of each value is still true when all of them are there. -/
theorem evals {w : W} {scope : ScopeId} {es : List Expr} (hes : ∀ e ∈ es, A.expr w scope e) :
    rel w (fun w vs => ∀ v ∈ vs, A.value w v) (each (r.eval scope) es)
      (each (r'.eval scope) (Expr.rewrittenAll ρ es)) := by
  induction es generalizing w with
  | nil => exact h.pure (by simp)
  | cons e es ihs =>
    rw [List.forall_mem_cons] at hes
    refine h.bind (ih.eval hes.1) fun w₁ v hle₁ hv => ?_
    refine h.bind (ihs fun e he => h.expr_mono hle₁ (hes.2 e he)) fun w₂ vs hle₂ hvs => ?_
    exact h.pure (List.forall_mem_cons.2 ⟨h.value_mono hle₂ hv, hvs⟩)

/-- A value that is missing is null on both sides. -/
theorem value? {w : W} {scope : ScopeId} {e : Option Expr}
    (he : ∀ a ∈ e.toList, A.expr w scope a) :
    rel w A.value (Engine.value? r scope e) (Engine.value? r' scope (e.map (Expr.rewritten ρ))) := by
  cases e with
  | none => exact h.pure (h.null w)
  | some e => exact ih.eval (he e (by simp))

/-- Each form of expression keeps the relation, given that what is inside of it does. -/
theorem evalStep {w : W} {scope : ScopeId} {e : Expr} (he : A.expr w scope e) :
    rel w A.value (E.evalStep coerce r scope e)
      (F.evalStep coerce' r' scope (e.rewritten ρ)) := by
  have hchild {w' : W} (hle : w ≤ w') (c : Expr) (hc : c ∈ e.children) : A.expr w' scope c :=
    h.expr_mono hle (h.below he c hc)
  cases e with
  | literal line v raw =>
    show rel w A.value (Pure.pure (v.coerced coerce)) (Pure.pure ((ρ.constant v).coerced coerce'))
    rw [h.keeps v]
    exact h.pure (h.literal he)
  | name line id => exact h.elementary (.lookup he)
  | binary line op left right =>
    refine h.bind (ih.eval (hchild le_rfl left (by simp [Expr.children]))) fun w₁ v hle₁ hv => ?_
    refine h.bind (ih.eval (hchild hle₁ right (by simp [Expr.children]))) fun w₂ u hle₂ hu => ?_
    exact h.elementary (.binary (h.expr_mono (hle₁.trans hle₂) he) (h.value_mono hle₂ hv) hu)
  | unary line op e =>
    refine h.bind (ih.eval (hchild le_rfl e (by simp [Expr.children]))) fun w₁ v hle hv => ?_
    exact h.elementary (.unary (h.expr_mono hle he) hv)
  | call line f args =>
    refine h.callee he fun w₁ callee hle₁ hcallee => ?_
    have he₁ := h.expr_mono hle₁ he
    cases callee with
    | builtin b =>
      refine h.bind (h.evals ih (hchild hle₁)) fun w₂ vs hle₂ hvs => ?_
      exact h.builtin (h.expr_mono hle₂ he₁) hcallee hvs
    | function c =>
      have hlength : (Expr.rewrittenAll ρ args).length = args.length := by
        rw [Expr.rewrittenAll_eq_map, List.length_map]
      dsimp only [Callee.rewritten, Closure.rewritten]
      rw [hlength]
      split
      · refine h.bind (h.evals ih (hchild hle₁)) fun w₂ vs hle₂ hvs => ?_
        exact ih.call (h.closure_mono hle₂ hcallee) hvs
      · exact h.elementary (.arity he₁ _)
  | index line target position =>
    refine h.bind (ih.eval (hchild le_rfl target (by simp [Expr.children]))) fun w₁ v hle₁ hv => ?_
    have he₁ := h.expr_mono hle₁ he
    refine h.bind (h.elementary (.requireIndexable he₁ hv)) fun w₂ _ hle₂ _ => ?_
    have hle := hle₁.trans hle₂
    refine h.bind (ih.eval (hchild hle position (by simp [Expr.children]))) fun w₃ i hle₃ hi => ?_
    exact h.elementary (.element (h.expr_mono (hle₂.trans hle₃) he₁)
      (h.value_mono (hle₂.trans hle₃) hv) hi)
  | property line target name =>
    refine h.bind (ih.eval (hchild le_rfl target (by simp [Expr.children]))) fun w₁ v hle₁ hv => ?_
    have he₁ := h.expr_mono hle₁ he
    refine h.bind (h.elementary (.typeOf he₁ hv)) fun w₂ type hle₂ _ => ?_
    exact h.elementary (.noProperty (h.expr_mono hle₂ he₁) type)
  | list line es =>
    refine h.bind (h.evals ih (hchild le_rfl)) fun w₁ vs hle hvs => ?_
    exact h.elementary (.newList (h.expr_mono hle he) fun v hv => hvs v (by simpa using hv))
  | misplaced line form => exact h.elementary (.misplacedExpr he)

variable [LawfulMonad M] [LawfulMonad N]

/-- The signal of statements in order is that of the one that ended them. -/
theorem execs {w : W} {scope : ScopeId} {ss : List Stmt} (hss : ∀ s ∈ ss, A.stmt w scope s) :
    rel w (A.signals ss) (sequence (r.exec scope) ss)
      (sequence (r'.exec scope) (Stmt.rewrittenAll ρ ss)) := by
  induction ss generalizing w with
  | nil => exact h.pure (.inl rfl)
  | cons s ss ihs =>
    rw [List.forall_mem_cons] at hss
    refine h.bind (ih.exec hss.1) fun w₁ signal hle hsignal => ?_
    cases signal with
    | normal =>
      refine h.mono (ihs fun s hs => h.stmt_mono hle (hss.2 s hs)) fun w₂ signal _ hsignal => ?_
      exact hsignal.imp_right fun ⟨t, ht, htsignal⟩ => ⟨t, List.mem_cons_of_mem s ht, htsignal⟩
    | stop | skip | giveBack _ => exact h.pure (.inr ⟨s, List.mem_cons_self, hsignal⟩)

/-- Each form of statement keeps the relation, given that what is inside of it does. -/
theorem execStep {w : W} {scope : ScopeId} {s : Stmt} (hs : A.stmt w scope s) :
    rel w (A.signal s) (E.execStep r scope s) (F.execStep r' scope (s.rewritten ρ)) := by
  have hexpr := h.exprs hs
  have hnormal {w' : W} : rel w' (A.signal s) (Pure.pure .normal) (Pure.pure .normal) :=
    h.pure (h.normal s w')
  -- what is run inside of the statement passes its signal on
  have hchild {w' : W} (hle : w ≤ w') (hcompound : s.isCompound = true) {c : Stmt}
      (hc : c ∈ s.children) (hpasses : ∀ signal, s.Passes c signal) :
      rel w' (A.signal s) (r.exec scope c) (r'.exec scope (c.rewritten ρ)) :=
    h.mono (ih.exec (h.stmt_mono hle (h.children hs hcompound c hc)))
      fun _ signal _ hsignal => h.passed (hpasses signal) hsignal
  cases s with
  | declare line name e =>
    refine h.bind (h.value? ih hexpr) fun w₁ v hle hv => ?_
    exact h.bind (h.define (h.stmt_mono hle hs) rfl hv) fun _ _ _ _ => hnormal
  | assign line name e =>
    refine h.bind (ih.eval (hexpr e (by simp [Stmt.exprs]))) fun w₁ v hle hv => ?_
    exact h.bind (h.assign (h.stmt_mono hle hs) hv) fun _ _ _ _ => hnormal
  | print line es =>
    refine h.bind (h.evals ih hexpr) fun w₁ vs hle₁ hvs => ?_
    have hs₁ := h.stmt_mono hle₁ hs
    refine h.bind (h.texts hs₁ hvs) fun w₂ texts hle₂ _ => ?_
    exact h.bind (h.elementary (.write (h.stmt_mono hle₂ hs₁) _)) fun _ _ _ _ => hnormal
  | block b =>
    show rel w (A.signal (.block b)) (sequence (r.exec scope) b.statements)
      (sequence (r'.exec scope) (b.rewritten ρ).statements)
    rw [Block.statements_rewritten]
    refine h.mono (h.execs ih (h.children hs rfl)) fun w₁ signal _ hsignal => ?_
    rcases hsignal with rfl | ⟨c, hc, hsignal⟩
    · exact h.normal _ w₁
    · exact h.passed (.block hc) hsignal
  | branch line e consequent alternate =>
    cases alternate with
    | none =>
      refine h.bind (ih.eval (hexpr e (by simp [Stmt.exprs]))) fun w₁ v hle₁ hv => ?_
      refine h.bind (h.elementary (.truth (h.stmt_mono hle₁ hs) hv)) fun w₂ t hle₂ _ => ?_
      cases t with
      | true =>
        exact hchild (hle₁.trans hle₂) rfl (by simp [Stmt.children]) fun _ => .consequent
      | false => exact hnormal
    | some a =>
      refine h.bind (ih.eval (hexpr e (by simp [Stmt.exprs]))) fun w₁ v hle₁ hv => ?_
      refine h.bind (h.elementary (.truth (h.stmt_mono hle₁ hs) hv)) fun w₂ t hle₂ _ => ?_
      cases t with
      | true =>
        exact hchild (hle₁.trans hle₂) rfl (by simp [Stmt.children]) fun _ => .consequent
      | false =>
        exact hchild (hle₁.trans hle₂) rfl (by simp [Stmt.children]) fun _ => .alternate
  | loop line e b => exact ih.loop hs
  | function line name ps b =>
    refine h.bind (h.newFunction hs) fun w₁ f hle hf => ?_
    exact h.bind (h.define (h.stmt_mono hle hs) rfl hf) fun _ _ _ _ => hnormal
  | giveBack line e =>
    exact h.bind (h.value? ih hexpr) fun w₁ v _ hv => h.pure (h.giveBack line e hv)
  | stop line => exact h.pure (h.stop line w)
  | skip line => exact h.pure (h.skip line w)
  | expression line e =>
    exact h.bind (ih.eval (hexpr e (by simp [Stmt.exprs]))) fun _ _ _ _ => hnormal
  | misplaced line form => exact h.elementary (.misplacedStmt hs)

/-- A round of a loop passes a value on that is given back, and catches the other jumps. -/
theorem loopStep {w : W} {scope : ScopeId} {line : Line} {e : Expr} {b : Block}
    (hs : A.stmt w scope (.loop line e b)) :
    rel w (A.signal (.loop line e b)) (E.loopStep r scope e b)
      (F.loopStep r' scope (e.rewritten ρ) (b.rewritten ρ)) := by
  refine h.bind (ih.eval (h.exprs hs e (by simp [Stmt.exprs]))) fun w₁ v hle₁ hv => ?_
  have hs₁ := h.stmt_mono hle₁ hs
  refine h.bind (h.elementary (.truth hs₁ hv)) fun w₂ t hle₂ _ => ?_
  have hs₂ := h.stmt_mono hle₂ hs₁
  cases t with
  | false => exact h.pure (h.normal _ w₂)
  | true =>
    simp only [if_true, Block.statements_rewritten]
    refine h.bind (h.execs ih (h.children hs₂ rfl)) fun w₃ signal hle₃ hsignal => ?_
    cases signal with
    | normal | skip => exact ih.loop (h.stmt_mono hle₃ hs₂)
    | stop => exact h.pure (h.normal _ w₃)
    | giveBack v =>
      rcases hsignal with hsignal | ⟨c, hc, hsignal⟩
      · cases hsignal
      · exact h.pure (h.passed (.loop hc) hsignal)

/-- A call runs in a world in which its scope is there. -/
theorem callStep {w : W} {c : Closure} {args : List Value} (hc : A.closure w c)
    (hargs : ∀ v ∈ args, A.value w v) :
    rel w A.value (E.callStep r c args) (F.callStep r' (c.rewritten ρ) args) := by
  refine h.bind (h.enter hc hargs) fun w₁ scope hle₁ hbody => ?_
  show rel w₁ A.value _ (sequence (r'.exec scope) (c.body.rewritten ρ).statements >>= _)
  rw [Block.statements_rewritten]
  refine h.bind (h.execs ih hbody) fun w₂ signal hle₂ hsignal => ?_
  exact h.elementary (.leave (h.closure_mono (hle₁.trans hle₂) hc) hsignal)

end Steps

variable [LawfulMonad M] [LawfulMonad N]

/-- What all parts keep holds between whole runs. -/
theorem run (fuel : Nat) : LinkedIn ρ @rel A (E.run coerce fuel) (F.run coerce' fuel) := by
  induction fuel with
  | zero =>
    constructor
    · exact fun _ => h.elementary .unfinishedValue
    · exact fun _ => h.elementary (.unfinishedSignal _)
    · exact fun _ => h.elementary (.unfinishedSignal _)
    · exact fun _ _ => h.elementary .unfinishedValue
  | succ fuel ih => exact ⟨h.evalStep ih, h.execStep ih, h.loopStep ih, h.callStep ih⟩

/-- The relation holds between runs of the statements of a program, if it holds between the ends of
those that ask for a jump. -/
theorem topLevel (fuel : Nat) (w : W) (scope : ScopeId) {ss : List Stmt}
    (hss : ∀ s ∈ ss, A.stmt w scope s)
    (hstray : ∀ s ∈ ss, ∀ {w' : W} {signal : Signal} {j : Jump}, w ≤ w' → A.signal s w' signal →
      signal.jump? = some j → rel w' (fun _ (_ : Unit) => True)
        (E.step (Action.fail (.stray j) s.line)) (F.step (Action.fail (.stray j) (ρ.line s.line)))) :
    rel w (fun _ _ => True) (E.topLevel ((E.run coerce fuel).exec scope) ss)
      (F.topLevel ((F.run coerce' fuel).exec scope) (Stmt.rewrittenAll ρ ss)) := by
  induction ss generalizing w with
  | nil => exact h.pure trivial
  | cons s ss ih =>
    rw [List.forall_mem_cons] at hss hstray
    refine h.bind ((h.run fuel).exec hss.1) fun w₁ signal hle hsignal => ?_
    rw [Stmt.line_rewritten]
    cases hj : signal.jump? with
    | some j => exact hstray.1 hle hsignal hj
    | none =>
      refine ih w₁ (fun t ht => h.stmt_mono hle (hss.2 t ht)) fun t ht w₂ signal j hle₂ => ?_
      exact hstray.2 t ht (hle.trans hle₂)

end LinksIn

end Worlds

end Engine

/-! ## Relations without worlds -/

/-- The steps that bind no name, make no function and add to no list. -/
inductive Action.Elementary : {α : Type} → Action α → Prop where
  | fail {α : Type} (cause : Cause) (line : Line) : Elementary (fail cause line : Action α)
  | unfinished {α : Type} : Elementary (throw .unfinished : Action α)
  | lookup (scope : ScopeId) (name : String) (line : Line) : Elementary (lookup scope name line)
  | binary (op : Op) (v w : Value) (line : Line) : Elementary (binary op v w line)
  | unary (op : Op) (v : Value) (line : Line) : Elementary (unary op v line)
  | requireIndexable (v : Value) (line : Line) : Elementary (requireIndexable v line)
  | element (v i : Value) (line : Line) : Elementary (element v i line)
  | typeOf (v : Value) : Elementary (typeOf v)
  | truth (v : Value) : Elementary (truth v)
  | display (v : Value) : Elementary (display v)
  | write (text : String) : Elementary (write text)
  | newList (vs : Array Value) : Elementary (newList vs)
  | leave (c : Closure) (signal : Signal) : Elementary (leave c signal)

namespace Engine

variable {M N : Type → Type} [Monad M] [Monad N] {E : Engine M} {F : Engine N}
  {rel : ∀ {α : Type}, (α → Prop) → M α → N α → Prop}
  {P : Expr → Prop} {Q : Stmt → Prop} {C : Closure → Prop}

/-- All parts of two engines keep a relation between actions.  The relation comes with a property of
the values.  The trees that are run are as described by `P` and `Q`, which extends to what stands
below them, and the functions are as described by `C`. -/
structure Links (E : Engine M) (F : Engine N)
    (rel : ∀ {α : Type}, (α → Prop) → M α → N α → Prop)
    (P : Expr → Prop) (Q : Stmt → Prop) (C : Closure → Prop) : Prop where
  pure : ∀ {α : Type} {V : α → Prop} {a : α}, V a → rel V (pure a) (pure a)
  bind : ∀ {α β : Type} {V : α → Prop} {W : β → Prop} {x : M α} {y : N α} {f : α → M β}
    {g : α → N β}, rel V x y → (∀ a, V a → rel W (f a) (g a)) → rel W (x >>= f) (y >>= g)
  elementary : ∀ {α : Type} {x : Action α}, x.Elementary → rel (fun _ => True) (E.step x) (F.step x)
  define : ∀ {s : Stmt} {name : String}, Q s → s.declared? = some name → ∀ scope v,
    rel (fun _ => True) (E.step (Action.define scope name v)) (F.step (Action.define scope name v))
  assign : ∀ {line : Line} {name : String} {e : Expr}, Q (.assign line name e) → ∀ scope v,
    rel (fun _ => True) (E.step (Action.assign scope name v line))
      (F.step (Action.assign scope name v line))
  closure : ∀ {line : Line} {name : String} {ps : List String} {b : Block},
    Q (.function line name ps b) → ∀ scope, C ⟨name, ps, b, scope⟩ := by intros; trivial
  newFunction : ∀ {c : Closure}, C c →
    rel (fun _ => True) (E.step (Action.newFunction c)) (F.step (Action.newFunction c))
  callee : ∀ {line : Line} {f : Ident} {args : List Expr}, P (.call line f args) → ∀ scope,
    rel (fun callee => ∀ c, callee = .function c → C c) (E.callee scope f.name line)
      (F.callee scope f.name line)
  builtin : ∀ b args line, rel (fun _ => True) (E.builtin b args line) (F.builtin b args line)
  enter : ∀ {c : Closure}, C c → ∀ args,
    rel (fun _ => True) (E.step (Action.enter c args)) (F.step (Action.enter c args))
  body : ∀ {c : Closure}, C c → ∀ s ∈ c.body.statements, Q s := by intros; trivial
  below : ∀ {e : Expr}, P e → ∀ c ∈ e.children, P c := by intros; trivial
  exprs : ∀ {s : Stmt}, Q s → ∀ e ∈ s.exprs, P e := by intros; trivial
  children : ∀ {s : Stmt}, Q s → ∀ c ∈ s.children, Q c := by intros; trivial

/-- The relation holds between what two runners do. -/
structure Linked (rel : ∀ {α : Type}, (α → Prop) → M α → N α → Prop) (P : Expr → Prop)
    (Q : Stmt → Prop) (C : Closure → Prop) (r : Runner M) (r' : Runner N) : Prop where
  eval : ∀ scope e, P e → rel (fun _ => True) (r.eval scope e) (r'.eval scope e)
  exec : ∀ scope s, Q s → rel (fun _ => True) (r.exec scope s) (r'.exec scope s)

namespace Links

variable (h : Links E F @rel P Q C)
include h

theorem each {α β : Type} {f : α → M β} {g : α → N β} {as : List α}
    (hf : ∀ a ∈ as, rel (fun _ => True) (f a) (g a)) :
    rel (fun _ => True) (Engine.each f as) (Engine.each g as) := by
  induction as with
  | nil => exact h.pure trivial
  | cons a as ih =>
    refine h.bind (hf a List.mem_cons_self) fun b _ => ?_
    refine h.bind (ih fun a' ha => hf a' (List.mem_cons_of_mem a ha)) fun bs _ => ?_
    exact h.pure trivial

variable [LawfulMonad M] [LawfulMonad N]

/-- The relation in a world that never changes, where nothing is said of values. -/
theorem linksIn (coerce : Bool) :
    LinksIn E F .identity coerce coerce (fun (_ : Unit) V => rel (V ()))
      { expr := fun _ _ => P, stmt := fun _ _ => Q, closure := fun _ => C } where
  keeps _ := rfl
  pure := h.pure
  bind hx hf := h.bind hx fun a ha => hf () a le_rfl ha
  elementary {α V w x y} hx := by
    cases hx with
    | arity _ expected => exact h.elementary (.fail _ _)
    | noProperty _ type => exact h.elementary (.fail _ _)
    | misplacedExpr | misplacedStmt => exact h.elementary (.fail _ _)
    | unfinishedValue | unfinishedSignal => exact h.elementary .unfinished
    | lookup => exact h.elementary (.lookup _ _ _)
    | binary => exact h.elementary (.binary _ _ _ _)
    | unary => exact h.elementary (.unary _ _ _)
    | requireIndexable => exact h.elementary (.requireIndexable _ _)
    | element => exact h.elementary (.element _ _ _)
    | typeOf => exact h.elementary (.typeOf _)
    | truth => exact h.elementary (.truth _)
    | display => exact h.elementary (.display _)
    | write _ text => exact h.elementary (.write text)
    | newList => exact h.elementary (.newList _)
    | leave =>
      rw [Closure.rewritten_identity]
      exact h.elementary (.leave _ _)
  define hs hname _ := h.define hs hname _ _
  assign hs _ := h.assign hs _ _
  newFunction {w scope line name ps b} hs := by
    rw [Block.rewritten_identity]
    exact h.newFunction (h.closure hs scope)
  callee {w scope line f args β U k k'} he hk := by
    refine h.bind (h.callee he scope) fun callee hcallee => ?_
    have hcalled : Account.callee { closure := fun _ => C } () callee := by
      cases callee with
      | builtin b => trivial
      | function c => exact hcallee c rfl
    have hrest := hk () callee le_rfl hcalled
    rwa [Callee.rewritten_identity] at hrest
  builtin _ _ _ := h.builtin _ _ _
  enter {w c args} hc _ := by
    have hbody := h.bind (h.enter hc args) fun scope _ => h.pure (a := scope) (h.body hc)
    rw [bind_pure, bind_pure] at hbody
    rwa [Closure.rewritten_identity]
  below := h.below
  exprs := h.exprs
  children hs _ := h.children hs

/-- What all parts keep holds between whole runs. -/
theorem run (coerce : Bool) (fuel : Nat) :
    Linked @rel P Q C (E.run coerce fuel) (F.run coerce fuel) := by
  have hlinked := (h.linksIn coerce).run fuel
  constructor
  · intro scope e he
    have heval : rel (fun _ => True) ((E.run coerce fuel).eval scope e)
        ((F.run coerce fuel).eval scope (e.rewritten .identity)) := hlinked.eval (w := ()) he
    rwa [Expr.rewritten_identity] at heval
  · intro scope s hs
    have hexec : rel (fun _ => True) ((E.run coerce fuel).exec scope s)
        ((F.run coerce fuel).exec scope (s.rewritten .identity)) := hlinked.exec (w := ()) hs
    rwa [Stmt.rewritten_identity] at hexec

/-- The statements of a program are linked without worlds, since a jump at the top level is a plain
fault. -/
theorem topLevel (coerce : Bool) (fuel : Nat) (scope : ScopeId) {ss : List Stmt}
    (hss : ∀ s ∈ ss, Q s) : rel (fun _ => True) (E.topLevel ((E.run coerce fuel).exec scope) ss)
      (F.topLevel ((F.run coerce fuel).exec scope) ss) := by
  have htop := (h.linksIn coerce).topLevel fuel () scope hss
    fun s _ _ _ _ _ _ _ => h.elementary (.fail _ _)
  rwa [Stmt.rewrittenAll_identity] at htop

end Links

/-! ## Single runs -/

section Single

variable {W : Type} [Preorder W] {A : Account W} {coerce : Bool}
  {holds : ∀ {α : Type}, W → (W → α → Prop) → Action α → Prop}

/-- All parts of a run keep a property of actions. -/
abbrev Sustains (coerce : Bool) (holds : ∀ {α : Type}, W → (W → α → Prop) → Action α → Prop)
    (A : Account W) : Prop :=
  LinksIn standard standard .identity coerce coerce (fun w V x _ => holds w V x) A

namespace Sustains

variable (h : Sustains coerce @holds A)
include h

/-- What all parts sustain holds of expressions. -/
theorem eval (fuel : Nat) (w : W) {scope : ScopeId} {e : Expr} (he : A.expr w scope e) :
    holds w A.value (Action.eval coerce fuel scope e) := by
  have hrun := (h.run fuel).eval he
  rwa [run_standard] at hrun

/-- What all parts sustain holds of statements. -/
theorem exec (fuel : Nat) (w : W) {scope : ScopeId} {s : Stmt} (hs : A.stmt w scope s) :
    holds w (A.signal s) (Action.exec coerce fuel scope s) := by
  have hrun := (h.run fuel).exec hs
  rwa [run_standard] at hrun

/-- What all parts sustain holds of programs, if it holds of the faults for their stray jumps. -/
theorem topLevel (fuel : Nat) (w : W) (scope : ScopeId) {ss : List Stmt}
    (hss : ∀ s ∈ ss, A.stmt w scope s)
    (hstray : ∀ s ∈ ss, ∀ {w' : W} {signal : Signal} {j : Jump}, w ≤ w' → A.signal s w' signal →
      signal.jump? = some j → holds w' (fun _ (_ : Unit) => True) (Action.fail (.stray j) s.line)) :
    holds w (fun _ _ => True) (Action.topLevel (Action.exec coerce fuel scope) ss) := by
  have hrun := LinksIn.topLevel h fuel w scope hss hstray
  rwa [run_standard, topLevel_standard] at hrun

end Sustains

end Single

end Engine

end Boli
