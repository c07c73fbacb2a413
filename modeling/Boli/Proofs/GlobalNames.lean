import Boli.Index.Basic
import Boli.Proofs.Declaration
import Boli.Proofs.Safety

/-!
# Global names and declarations

The index reads the declarations at the top level of a program off its tree.  A run of the program
binds global names.  The two agree as far as they can.

A statement gives its scope no other names than those declared in it outside of functions
(`Stmt.Declares`), since a call has a scope of its own.  So every global name is declared in the
program (`Action.declares_of_mem_names`), and one that the index does not have is declared inside a
block, a branch or a loop.  On the other hand a program that runs to its end has executed all
statements at its top level, and no name is ever lost.  So it has all the names in the index
(`Action.mem_names_of_topLevel`).

`Session.globals_declared` is the result.
-/

namespace Boli

/-! ## Declarations in statements -/

/-- What is declared in a statement is declared by it or inside of it. -/
theorem Stmt.Declares.of_ne {name : String} {s : Stmt} (h : s.Declares name)
    (hs : s.declared? ≠ some name) : s.isCompound = true ∧ ∃ c ∈ s.children, c.Declares name := by
  cases h with
  | here h => exact absurd h hs
  | inside hs hc h => exact ⟨hs, _, hc, h⟩

/-- A declaration in the index has the name that its statement declares. -/
theorem Declaration.map_name_ofStmt? (uri : String) (s : Stmt) :
    (ofStmt? uri s).map (·.name) = s.declared? := by
  cases s <;> rfl

/-- The index has the names that are declared at the top level. -/
theorem Declaration.exists_mem_ofProgram {uri : String} {p : Program} {name : String} :
    (∃ d ∈ ofProgram uri p, d.name = name) ↔ ∃ s ∈ p.statements, s.declared? = some name := by
  constructor
  · rintro ⟨d, hd, rfl⟩
    obtain ⟨s, hs, hsd⟩ := List.mem_filterMap.mp hd
    refine ⟨s, hs, ?_⟩
    rw [← map_name_ofStmt? uri, hsd]
    rfl
  · rintro ⟨s, hs, hname⟩
    rw [← map_name_ofStmt? uri] at hname
    obtain ⟨d, hd, rfl⟩ := Option.map_eq_some_iff.mp hname
    exact ⟨d, List.mem_filterMap.mpr ⟨s, hs, hd⟩, rfl⟩

namespace Action

open Store

variable {α β : Type} {scope : ScopeId} {coerce : Bool} {fuel : Nat}

/-! ## The names of a program -/

/-- The statements of a program add the names that they declare to the global scope. -/
theorem topLevel_retains {N : ScopeId → String → Prop} (coerce : Bool) (fuel : Nat) {ss : List Stmt}
    (h : ∀ s ∈ ss, ∀ name, s.Declares name → N globalScope name) :
    Retains N (topLevel (exec coerce fuel globalScope) ss) fun _ => True :=
  (sustains_retains N coerce).topLevel fuel () globalScope h fun _ _ _ _ _ _ _ _ => .throw _

/-- What the global scope gets is declared in the program. -/
theorem declares_of_mem_names {ss : List Stmt} {m : Machine} {name : String}
    (hm : m.store.Has (.scope globalScope))
    (h : name ∈ ((topLevel (exec coerce fuel globalScope) ss).after m).store.names globalScope) :
    name ∈ m.store.names globalScope ∨ ∃ s ∈ ss, s.Declares name := by
  -- any name may go to another scope
  have hretains : Retains (fun id name => id = globalScope → ∃ s ∈ ss, s.Declares name)
      (topLevel (exec coerce fuel globalScope) ss) fun _ => True :=
    topLevel_retains coerce fuel fun s hs name hname _ => ⟨s, hs, hname⟩
  have hadmits : m.store.Admits fun id name => id = globalScope → ∃ s ∈ ss, s.Declares name :=
    fun id hid name hglobal => absurd (hglobal ▸ hm) hid
  exact ((hretains m hadmits).1.gained globalScope hm name h).imp_right fun h => h rfl

/-! ## Programs that run to their end -/

/-- An action with a value has kept all names. -/
theorem Retains.keeps_of_ok {x : Action α} {V : α → Prop} (h : Retains (fun _ _ => True) x V)
    {m m' : Machine} {a : α} (hx : x m = .ok a m') : Keeps (fun _ _ => True) m.store m'.store := by
  have hkeeps := h.keeps m
  rwa [after, hx] at hkeeps

/-- A scope has the name that was bound in it. -/
theorem mem_names_of_define {m m' : Machine} {name : String} {v : Value} {signal : Signal}
    (hm : m.store.Has (.scope scope))
    (h : (do define scope name v; return Signal.normal : Action Signal) m = .ok signal m') :
    name ∈ m'.store.names scope := by
  cases h
  rw [names_define_self m.store scope name v hm, Bindings.mem_names_set]
  exact .inl rfl

/-- A declaration that comes to its end has bound its name. -/
theorem mem_names_of_exec {s : Stmt} {name : String} {m m' : Machine} {signal : Signal}
    (hs : s.declared? = some name) (hm : m.store.Has (.scope scope))
    (h : exec coerce fuel scope s m = .ok signal m') : name ∈ m'.store.names scope := by
  cases fuel with
  | zero => cases h
  | succ fuel =>
    cases s with
    | declare line n initial =>
      cases hs
      cases initial with
      | none => exact mem_names_of_define hm h
      | some e =>
        obtain ⟨v, m₁, hv, h⟩ := exists_of_bind_eq_ok h
        have hkeeps := (eval_retains coerce fuel scope e).keeps_of_ok hv
        exact mem_names_of_define (Nat.lt_of_lt_of_le hm hkeeps.has) h
    | function line n ps b =>
      cases hs
      obtain ⟨f, m₁, hf, h⟩ := exists_of_bind_eq_ok h
      have hkeeps := (newFunction_retains _).keeps_of_ok hf
      exact mem_names_of_define (Nat.lt_of_lt_of_le hm hkeeps.has) h
    | _ => cases hs

/-- All statements of a program that runs to its end are executed, and their names stay. -/
theorem mem_names_of_topLevel {ss : List Stmt} {m m' : Machine} {u : Unit}
    (hm : m.store.Has (.scope globalScope))
    (h : topLevel (exec coerce fuel globalScope) ss m = .ok u m') {s : Stmt} (hs : s ∈ ss)
    {name : String} (hname : s.declared? = some name) : name ∈ m'.store.names globalScope := by
  induction ss generalizing m with
  | nil => cases hs
  | cons t ss ih =>
    obtain ⟨signal, m₁, ht, hrest⟩ := exists_of_bind_eq_ok h
    cases hjump : signal.jump? with
    | some j =>
      simp only [hjump] at hrest
      cases hrest
    | none =>
      simp only [hjump] at hrest
      rcases List.mem_cons.mp hs with rfl | hs
      · have hkeeps := (topLevel_retains coerce fuel fun _ _ _ _ => trivial).keeps_of_ok hrest
        exact hkeeps.names_subset globalScope (mem_names_of_exec hname hm ht)
      · have hkeeps := (exec_retains coerce fuel fun _ _ => trivial).keeps_of_ok ht
        exact ih (Nat.lt_of_lt_of_le hm hkeeps.has) hrest hs

end Action

namespace Session

theorem mem_globals_iff {m : Machine} {name : String} :
    name ∈ (globals m).map Prod.fst ↔ name ∈ m.store.names globalScope := by
  simp only [globals, Store.names, Bindings.names, List.mem_map, List.mem_mergeSort]

/-- A program that runs to its end has bound all names that the index has of it.  However a run ends,
each global name is declared in the program outside of functions, and if the index does not have it,
inside a block, a branch or a loop at the top level. -/
theorem globals_declared {text uri : String} {p : Program} {ds : List Declaration}
    (hp : Program.ofText text = .ok p) (hds : Declaration.ofText uri text = .ok ds) (fuel : Nat)
    (settings : Settings) (input : InputSource) (sink : Sink) :
    ((runWithin fuel settings p (.fresh input sink)).1 = .completed →
      ∀ d ∈ ds, d.name ∈ (globals (runWithin fuel settings p (.fresh input sink)).2).map Prod.fst) ∧
    ∀ name ∈ (globals (runWithin fuel settings p (.fresh input sink)).2).map Prod.fst,
      (∃ s ∈ p.statements, s.Declares name) ∧
      ((∀ d ∈ ds, d.name ≠ name) →
        ∃ s ∈ p.statements, s.isCompound = true ∧ ∃ c ∈ s.children, c.Declares name) := by
  obtain rfl : Declaration.ofProgram uri p = ds := by
    rw [Declaration.ofText, hp] at hds
    exact Except.ok.inj hds
  have hglobal := Machine.has_globalScope input sink
  have hstore := store_runWithin fuel settings p (.fresh input sink)
  refine ⟨fun hcompleted d hd => ?_, fun name hname => ?_⟩
  · obtain ⟨s, hs, hname⟩ := Declaration.exists_mem_ofProgram.mp ⟨d, hd, rfl⟩
    rw [mem_globals_iff, hstore]
    unfold runWithin runBy at hcompleted
    cases hend : Action.topLevel (Action.exec settings.coerce fuel globalScope) p.statements
        (.fresh input sink) with
    | ok u m =>
      rw [Action.after, hend]
      exact Action.mem_names_of_topLevel hglobal hend hs hname
    | error e m =>
      rw [hend] at hcompleted
      cases e <;> cases hcompleted
  · rw [mem_globals_iff, hstore] at hname
    obtain ⟨s, hs, hdeclares⟩ :=
      (Action.declares_of_mem_names hglobal hname).resolve_left fun h => by cases h
    refine ⟨⟨s, hs, hdeclares⟩, fun hnone => ⟨s, hs, hdeclares.of_ne fun hname => ?_⟩⟩
    obtain ⟨d, hd, rfl⟩ := Declaration.exists_mem_ofProgram.mpr ⟨s, hs, hname⟩
    exact hnone d hd rfl

/-- A function with a local variable, and two global variables, one of them declared in a branch. -/
def nestedVariable : Program :=
  .mk (some 1) [
    .function (some 2) "f" [] (.mk (some 2) [.declare (some 2) "local" none]),
    .branch (some 3) (.literal (some 3) (.boolean true) "khara")
      (.block (.mk (some 3)
        [.declare (some 3) "inner" (some (.call (some 3) ⟨some 3, "f"⟩ []))])) none,
    .declare (some 4) "x" none]

theorem globals_declared_nestedVariable :
    (runWithin 9 {} nestedVariable (.fresh .unavailable {})).1 = .completed ∧
      (∀ d ∈ Declaration.ofProgram "a" nestedVariable, d.name ∈
        (globals (runWithin 9 {} nestedVariable (.fresh .unavailable {})).2).map Prod.fst) ∧
      "inner" ∈ (globals (runWithin 9 {} nestedVariable (.fresh .unavailable {})).2).map Prod.fst ∧
      ∃ s ∈ nestedVariable.statements, s.isCompound = true ∧ ∃ c ∈ s.children, c.Declares "inner" := by
  have hp : Program.ofText ("chala suru karu;\nkaamKar f() \x7b heAhe local; \x7d\n" ++
      "jar (khara) \x7b heAhe inner = f(); \x7d\nheAhe x;\nbas re ata;") = .ok nestedVariable := by
    cbv
  have hds : Declaration.ofText "a" ("chala suru karu;\nkaamKar f() \x7b heAhe local; \x7d\n" ++
      "jar (khara) \x7b heAhe inner = f(); \x7d\nheAhe x;\nbas re ata;") =
        .ok (Declaration.ofProgram "a" nestedVariable) := by
    rw [Declaration.ofText, hp]
    rfl
  obtain ⟨hindexed, hdeclared⟩ := globals_declared hp hds 9 {} .unavailable {}
  have hcompleted : (runWithin 9 {} nestedVariable (.fresh .unavailable {})).1 = .completed := by
    cbv
  have hnames : (globals (runWithin 9 {} nestedVariable (.fresh .unavailable {})).2).map Prod.fst =
      ["f", "inner", "x"] := by
    cbv
  have hinner : "inner" ∈
      (globals (runWithin 9 {} nestedVariable (.fresh .unavailable {})).2).map Prod.fst := by
    rw [hnames]
    decide
  exact ⟨hcompleted, hindexed hcompleted, hinner, (hdeclared "inner" hinner).2 (by decide)⟩

end Session

end Boli
