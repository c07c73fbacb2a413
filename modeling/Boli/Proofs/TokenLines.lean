import Boli.Proofs.Tiling
import Boli.Proofs.Seams

/-!
# Tokens on lines of their own

The tokens of a text can be written one to a line, and the new text has the same tokens.  Alone on
its line, a token is read as what it was: nothing beside it can join it, and a line feed keeps it
from the next.

* `Word.lined` writes words on lines of their own.
* `Token.Rereads` says of a token that it is read as what it is.
* `Token.ofText_lined` is the result.
-/

namespace Boli

open Boli.Text

/-- The characters of some words with a line feed between them. -/
def Word.lined : List Word → List Char
  | [] => []
  | [w] => w.chars
  | w :: ws => w.chars ++ '\n' :: lined ws

namespace Lexeme

/-! ## A token alone -/

/-- A marker that is all of its text is found there. -/
theorem marker?_alone {words : List (List Char)} {before : Option Char} {value : List Char}
    (h : afterWords? words value = some []) (hbefore : before.any isWordCharacter = false) :
    marker? words before value = some value.length := by
  have hafter : afterWords? words (value ++ []) = some [] := by rwa [List.append_nil]
  have hmarker := marker?_of_afterWords? hbefore (.inl rfl) hafter
  rwa [List.append_nil] at hmarker

/-- The first marker is read however its words are spaced. -/
theorem read_start_alone {value : List Char} {before : Option Char}
    (h : afterWords? startWords value = some []) (hbefore : before.any isWordCharacter = false) :
    ∃ c cs, value = c :: cs ∧ read before c cs = ⟨.token .start value, cs.length⟩ := by
  have hmarker := marker?_alone h hbefore
  cases value with
  | nil => exact absurd h (by decide)
  | cons c cs =>
    refine ⟨c, cs, rfl, ?_⟩
    rw [read, hmarker]
    simp only [List.take_length]
    rfl

theorem read_finish_alone {value : List Char} {before : Option Char}
    (h : afterWords? finishWords value = some []) (hbefore : before.any isWordCharacter = false) :
    ∃ c cs, value = c :: cs ∧ read before c cs = ⟨.token .finish value, cs.length⟩ := by
  have hmarker := marker?_alone h hbefore
  cases value with
  | nil => exact absurd h (by decide)
  | cons c cs =>
    refine ⟨c, cs, rfl, ?_⟩
    -- the first letter tells the markers apart
    have hletter : isLetter 'c' c = false := by
      by_cases hb : isLetter 'b' c
      · have hlower : c.toLower = 'b' := by simpa [isLetter] using hb
        simp [isLetter, hlower]
      · rw [finishWords_eq, afterWords?_head (by simpa using hb)] at h
        cases h
    have hnone : marker? startWords before (c :: cs) = none := by
      rw [startWords_eq]
      exact marker?_none (afterWords?_head hletter)
    rw [read, hnone, hmarker]
    simp only [List.take_length]
    rfl

end Lexeme

namespace Token

/-- Alone, and not right behind a word, the token is read as what it is. -/
def Rereads (t : Token) : Prop :=
  ∀ before : Option Char, before.any isWordCharacter = false →
    ∃ c cs, t.word.chars = c :: cs ∧
      Lexeme.read before c cs = ⟨.token t.kind t.value.toList, cs.length⟩

/-- What can be written is read again. -/
theorem rereads_of_writable {t : Token} (h : t.word.Writable) : t.Rereads := by
  intro before hbefore
  obtain ⟨c, cs, hchars, hread⟩ :=
    Lexeme.read_word h hbefore (.inl rfl) fun _ _ hrest => nomatch hrest
  rw [List.append_nil] at hread
  exact ⟨c, cs, hchars, hread⟩

/-- A token is read again from the characters that its value is written with. -/
theorem rereads_of_writes {t : Token} {lexeme : List Char} (hfits : t.Fits)
    (hwrites : t.kind.Writes t.value.toList lexeme) : t.Rereads := by
  obtain ⟨kind, value, p⟩ := t
  cases kind with
  | start =>
    obtain ⟨rfl, hwords⟩ := hwrites
    exact fun before hbefore => Lexeme.read_start_alone hwords hbefore
  | finish =>
    obtain ⟨rfl, hwords⟩ := hwrites
    exact fun before hbefore => Lexeme.read_finish_alone hwords hbefore
  | _ => exact rereads_of_writable hfits

/-- The tokens of a text are read again. -/
theorem rereads_of_tiles {before cs rest : List Char} {ts : List Token}
    (h : Tiles before ts cs rest) : ∀ t ∈ ts, t.Rereads := by
  induction h with
  | gap => exact fun t ht => absurd ht List.not_mem_nil
  | token _ _ hfits hwrites _ ih =>
    intro t ht
    rcases List.mem_cons.1 ht with rfl | ht
    · exact rereads_of_writes hfits hwrites
    · exact ih t ht

/-! ## Lines of tokens -/

/-- A token alone on its line is the only one there. -/
theorem scan_alone {t : Token} (h : t.Rereads) {before : Option Char}
    (hbefore : before.any isWordCharacter = false) (p : Position) :
    scan 0 before p t.word.chars =
      .ok ([⟨t.kind, t.value, p⟩] ++ [endAt (p.afterAll t.word.chars)]) := by
  obtain ⟨c, cs, hchars, hread⟩ := h before hbefore
  have hinside := scan_inside cs (some c) (p.after c) []
  rw [List.append_nil] at hinside
  rw [hchars, scan_of_token hread, hinside, String.ofList_toList]
  rfl

/-- Each line has its own token, so the lines have the tokens they were written for. -/
theorem scan_lined {ts : List Token} (h : ∀ t ∈ ts, t.Rereads) {before : Option Char}
    (hbefore : before.any isWordCharacter = false) (p : Position) :
    ∃ us q, scan 0 before p (Word.lined (ts.map word)) = .ok (us ++ [endAt q]) ∧
      us.map word = ts.map word := by
  induction ts generalizing before p with
  | nil => exact ⟨[], p, rfl, rfl⟩
  | cons t ts ih =>
    have halone := scan_alone (h t List.mem_cons_self) hbefore p
    cases ts with
    | nil => exact ⟨[⟨t.kind, t.value, p⟩], _, halone, rfl⟩
    | cons u us =>
      have hfeed : (some '\n').any isWordCharacter = false := by decide
      obtain ⟨vs, q, hvs, hwords⟩ :=
        ih (fun v hv => h v (.tail _ hv)) hfeed ((p.afterAll t.word.chars).after '\n')
      refine ⟨⟨t.kind, t.value, p⟩ :: vs, q, ?_, by rw [List.map_cons, hwords]; rfl⟩
      show scan 0 before p (t.word.chars ++ '\n' :: Word.lined ((u :: us).map word)) = _
      rw [scan_append_feed_of_ok halone, hvs]
      rfl

/-- Tokens that are written on lines of their own are read again: the kinds and the texts are the
same.  The last line may be ended or not.  And every text is written in some way. -/
theorem ofText_lined :
    (∀ text tokens, ofText text = .ok tokens → ∀ ending ∈ ["", "\n"],
      ∃ tokens', ofText (String.ofList (Word.lined (tokens.dropLast.map word)) ++ ending) =
          .ok tokens' ∧ tokens'.map word = tokens.map word) ∧
    ∀ s : String, ∃ q, ofText (String.ofList (Word.chars ⟨.text, s⟩)) =
      .ok [⟨.text, s, .first⟩, endAt q] := by
  have hfirst : (none : Option Char).any isWordCharacter = false := rfl
  constructor
  · intro text tokens h ending hending
    have htiled := tiled_scan Position.behind_nil none text.toList
    rw [show scan 0 none .first text.toList = _ from h] at htiled
    obtain ⟨ts, p, rfl, htiles, _⟩ := htiled
    obtain ⟨us, q, hus, hwords⟩ := scan_lined (rereads_of_tiles htiles) hfirst .first
    have hmarked : ∀ q', (us ++ [endAt q']).map word = (ts ++ [endAt p]).map word := by
      intro q'
      rw [List.map_append, List.map_append, hwords]
      rfl
    rw [List.dropLast_concat, ofText, String.toList_append, String.toList_ofList]
    rcases List.mem_pair.1 hending with rfl | rfl
    · rw [String.toList_empty, List.append_nil]
      exact ⟨_, hus, hmarked q⟩
    · exact ⟨_, scan_append_feed_of_ok hus [], hmarked _⟩
  · intro s
    have hrereads : Rereads ⟨.text, s, .first⟩ := rereads_of_writable rfl
    have halone := scan_alone hrereads hfirst .first
    rw [ofText, String.toList_ofList]
    exact ⟨_, halone⟩

/-- A text where much would run together without the blanks between. -/
def crowded : String := "1x= =/ *\"a\\\"\\\\\"chala\nsuru BaS \t re ATA"

/-- The tokens of that text, with their places. -/
def crowdedTokens : List Token :=
  [⟨.number, "1", ⟨1, 1⟩⟩, ⟨.identifier, "x", ⟨1, 2⟩⟩, ⟨.symbol .assign, "=", ⟨1, 3⟩⟩,
    ⟨.symbol .assign, "=", ⟨1, 5⟩⟩, ⟨.symbol .divide, "/", ⟨1, 6⟩⟩, ⟨.symbol .times, "*", ⟨1, 8⟩⟩,
    ⟨.text, "a\"\\", ⟨1, 9⟩⟩, ⟨.identifier, "chala", ⟨1, 16⟩⟩, ⟨.identifier, "suru", ⟨2, 1⟩⟩,
    ⟨.finish, "BaS \t re ATA", ⟨2, 6⟩⟩, endAt ⟨2, 18⟩]

theorem ofText_lined_crowded :
    ofText crowded = .ok crowdedTokens ∧
      ∃ tokens', ofText (String.ofList (Word.lined (crowdedTokens.dropLast.map word)) ++ "") =
        .ok tokens' ∧ tokens'.map word = crowdedTokens.map word := by
  have htokens : ofText crowded = .ok crowdedTokens := by decide +kernel
  exact ⟨htokens, ofText_lined.1 _ _ htokens _ (by decide)⟩

end Token

end Boli
