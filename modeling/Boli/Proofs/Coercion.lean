import Boli.Proofs.Rewriting

/-!
# Coercion as a change of the program

A session may take the numeric texts of a program for numbers.  It does not matter whether this is
done while the program runs or beforehand, in the tree: `Session.runWithin_numbered` compares the two
runs and finds the same end, the same output and log, and the same values in every scope and list.
Only the bodies of the functions differ, by the change that was made to the tree.

* `Rewriting.numbering` writes every numeric text as a number and keeps the lines.
* `Block.numbered` does so in a tree, inside functions as well, and `Machine.numbered` in the functions
  of a machine.
-/

namespace Boli

/-! ## Numeric texts as numbers -/

/-- The number that a text holds, in place of the text. -/
def Value.numbered : Value → Value
  | text s =>
    match Numeral.ofText? s with
    | some x => number x
    | none => text s
  | v => v

/-- Numeric texts become numbers, and lines stay. -/
def Rewriting.numbering : Rewriting := { Rewriting.identity with constant := Value.numbered }

/-- The block with its numeric texts as numbers. -/
def Block.numbered (b : Block) : Block := b.rewritten .numbering

/-- The function with the numeric texts of its body as numbers. -/
def Closure.numbered (c : Closure) : Closure := c.rewritten .numbering

/-- The machine whose functions have their numeric texts as numbers. -/
def Machine.numbered (m : Machine) : Machine := m.rewritten .numbering

theorem Value.coerced_true (v : Value) : v.coerced true = v.numbered := by
  cases v with
  | text s =>
    show ((Numeral.ofText? s).map number).getD (text s) = _
    rw [Value.numbered]
    cases Numeral.ofText? s <;> rfl
  | _ => rfl

theorem Value.coerced_false (v : Value) : v.coerced false = v := by
  cases v <;> rfl

/-- Written as a number, a numeric text means without coercion what it meant with coercion. -/
theorem Rewriting.keeps_numbering : numbering.Keeps true false := by
  intro v
  rw [v.coerced_true, Value.coerced_false]
  rfl

namespace Session

/-- The program with coercion and the changed program without end in the same way, on machines that
differ by the same change. -/
theorem runWithin_eq_numbered (fuel : Nat) (file : String) (p : Program) (m : Machine) :
    runWithin fuel ⟨false, file⟩ p.numbered m.numbered =
      ((runWithin fuel ⟨true, file⟩ p m).1, (runWithin fuel ⟨true, file⟩ p m).2.numbered) := by
  have hrun := Action.topLevel_mirrors Rewriting.keeps_numbering fuel p m
  unfold runWithin runBy Block.numbered Machine.numbered
  rw [hrun]
  cases Action.topLevel (Action.exec true fuel globalScope) p.statements m with
  | ok u m' => rfl
  | error e m' => cases e <;> rfl

/-- Two runs that nobody can tell apart, except that the functions left by the second one have their
numeric texts as numbers. -/
structure SameButNumbered (on off : Completion × Machine) : Prop where
  completion : off.1 = on.1
  output : off.2.output = on.2.output
  log : off.2.log = on.2.log
  input : off.2.input = on.2.input
  globals : globals off.2 = globals on.2
  lists : off.2.store.lists = on.2.store.lists
  functions : ∀ id, off.2.store.closure? id = (on.2.store.closure? id).map Closure.numbered

/-- With coercion a program does what the changed program does without, on any machine. -/
theorem sameButNumbered (fuel : Nat) (file : String) (p : Program) (m : Machine) :
    SameButNumbered (runWithin fuel ⟨true, file⟩ p m)
      (runWithin fuel ⟨false, file⟩ p.numbered m.numbered) := by
  rw [runWithin_eq_numbered]
  exact ⟨rfl, rfl, rfl, rfl, rfl, rfl, fun id => Machine.closure?_rewritten _ id⟩

/-- Coercion is a change of the program: a session with coercion does what a session without does on
the changed program.  Where functions are there already, as when the program holds them as values,
they are changed too. -/
theorem runWithin_numbered (fuel : Nat) (file : String) (p : Program) :
    (∀ input sink, SameButNumbered (runWithin fuel ⟨true, file⟩ p (.fresh input sink))
      (runWithin fuel ⟨false, file⟩ p.numbered (.fresh input sink))) ∧
    ∀ m, SameButNumbered (runWithin fuel ⟨true, file⟩ p m)
      (runWithin fuel ⟨false, file⟩ p.numbered m.numbered) := by
  refine ⟨fun input sink => ?_, sameButNumbered fuel file p⟩
  have h := sameButNumbered fuel file p (.fresh input sink)
  rwa [Machine.numbered, Machine.rewritten_fresh] at h

end Session

end Boli
