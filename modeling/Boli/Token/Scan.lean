import Boli.Token.Basic
import Boli.Token.Lexeme

/-!
# The tokens of a text

`Token.ofText` splits a source text into tokens, the last of which marks the end of the text, or
reports the first character that no token starts with.

The scan walks over the characters one by one.  It reads a lexeme where one starts and then steps
over the rest of it, so the position of each token is the position of the walk.
-/

namespace Boli

/-- A text that cannot be split into tokens. -/
structure LexError where
  /-- What is wrong. -/
  cause : LexFault
  /-- Where it is. -/
  position : Position
deriving DecidableEq, Repr

/-- The wording of an error with its place. -/
def LexError.message (e : LexError) : String :=
  e.cause.message ++ " at line " ++ toString e.position.line ++ ", column " ++
    toString e.position.column

namespace Token

/-- The token that marks the end of a text. -/
def endAt (p : Position) : Token := ⟨.eof, "", p⟩

/-- The tokens of a text whose first `inside` characters belong to a lexeme already read.  The
character `before` stands in front of it, and `p` is where it starts. -/
def scan (inside : Nat) (before : Option Char) (p : Position) :
    List Char → Except LexError (List Token)
  | [] => .ok [endAt p]
  | c :: cs =>
    match inside with
    | inside + 1 => scan inside (some c) (p.after c) cs
    | 0 =>
      match Lexeme.read before c cs with
      | ⟨.fault cause, _⟩ => .error ⟨cause, p⟩
      | ⟨.gap, more⟩ => scan more (some c) (p.after c) cs
      | ⟨.token kind value, more⟩ =>
        (scan more (some c) (p.after c) cs).map (⟨kind, String.ofList value, p⟩ :: ·)
termination_by structural cs => cs

/-- The tokens of a source text. -/
def ofText (text : String) : Except LexError (List Token) :=
  scan 0 none .first text.toList

/-- The characters inside a lexeme are stepped over. -/
theorem scan_inside (xs : List Char) (before : Option Char) (p : Position) (cs : List Char) :
    scan xs.length before p (xs ++ cs) =
      scan 0 (xs.getLast?.or before) (p.afterAll xs) cs := by
  induction xs generalizing before p with
  | nil => simp [Position.afterAll]
  | cons x xs ih =>
    rw [List.length_cons, List.cons_append, scan, ih, List.getLast?_cons]
    cases xs with
    | nil => rfl
    | cons y ys => rw [List.getLast?_cons]; rfl

/-- The tokens of a text end with the mark of its end. -/
theorem getLast?_of_scan {inside : Nat} {before : Option Char} {p : Position} {cs : List Char}
    {tokens : List Token} (h : scan inside before p cs = .ok tokens) :
    ∃ q, tokens.getLast? = some (endAt q) := by
  induction cs generalizing inside before p tokens with
  | nil => cases h; exact ⟨p, rfl⟩
  | cons c cs ih =>
    cases inside with
    | succ inside => exact ih h
    | zero =>
      rw [scan] at h
      split at h
      · cases h
      · exact ih h
      · rename_i kind value more _
        cases hrest : scan more (some c) (p.after c) cs with
        | error e => rw [hrest] at h; cases h
        | ok rest =>
          rw [hrest] at h
          cases h
          obtain ⟨q, hq⟩ := ih hrest
          refine ⟨q, ?_⟩
          cases rest with
          | nil => cases hq
          | cons t ts => simpa using hq

end Token

end Boli
