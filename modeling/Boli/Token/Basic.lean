import Boli.Token.Kind
import Boli.Text.Quoted

/-!
# Tokens and positions

A position counts lines and columns from one.  `Position.after` moves it past one character, so the
position of any place in a text is fixed by the characters before it.  A token built by hand may
stand anywhere, so lines and columns are integers.
-/

namespace Boli

/-- A place in a source text. -/
structure Position where
  /-- The line, counted from one. -/
  line : Int
  /-- The column, counted from one in characters. -/
  column : Int
deriving DecidableEq, Repr

namespace Position

/-- The position of the first character. -/
def first : Position := ⟨1, 1⟩

/-- The position behind a character. -/
def after (p : Position) (c : Char) : Position :=
  if c = '\n' then ⟨p.line + 1, 1⟩ else ⟨p.line, p.column + 1⟩

/-- The position behind a run of characters. -/
def afterAll (p : Position) (cs : List Char) : Position :=
  cs.foldl after p

/-- The line grows by the number of line feeds. -/
theorem line_afterAll (p : Position) (cs : List Char) :
    (p.afterAll cs).line = p.line + cs.count '\n' := by
  induction cs generalizing p with
  | nil => simp [afterAll]
  | cons c cs ih =>
    simp only [afterAll, List.foldl_cons] at ih ⊢
    rw [ih, List.count_cons]
    by_cases h : c = '\n'
    · simp [after, h]
      omega
    · simp [after, h]

end Position

/-- A token: its kind, the text it stands for and where it starts. -/
structure Token where
  /-- The kind. -/
  kind : Kind
  /-- The source characters, or for a quoted text what it means. -/
  value : String
  /-- The place of the first character. -/
  position : Position
deriving DecidableEq, Repr

namespace Token

/-- The line where a token starts. -/
def line (t : Token) : Int := t.position.line

/-- The entry of a token in a token listing. -/
def listing (t : Token) : String :=
  "Token(" ++ t.kind.code ++ ", " ++ Text.quoted t.value ++ ", line=" ++ toString t.position.line ++
    ", column=" ++ toString t.position.column ++ ")"

/-- What a token is called in a message: its own text, or the spelling of its kind. -/
def shown (t : Token) : String :=
  if t.value = "" then t.kind.spelling?.getD "" else t.value

end Token

end Boli
