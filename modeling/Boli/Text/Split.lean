/-!
# Pieces of texts

* `split` cuts a text at a mark.
* `after?` cuts off the start of a text.
* `charAt?` is a single character.  It walks to its place and does not take the text apart.

`intercalate_split` says that nothing is lost but the marks, and `charAt?_eq` that the character is
the one among all characters of the text.
-/

namespace Boli.Text

/-- The pieces of a text between the marks in it.  There is one piece more than there are marks. -/
def split (mark : Char) : List Char → List (List Char)
  | [] => [[]]
  | c :: cs =>
    if c = mark then [] :: split mark cs
    else
      match split mark cs with
      | [] => [[c]]
      | piece :: rest => (c :: piece) :: rest
termination_by structural cs => cs

/-- What is left of a text after a given start. -/
def after? : List Char → List Char → Option (List Char)
  | [], cs => some cs
  | _ :: _, [] => none
  | s :: start, c :: cs => if s = c then after? start cs else none
termination_by structural start => start

/-- The character of a text at a place, counted from zero. -/
def charAt? (text : String) (place : Nat) : Option Char :=
  (text.startPos.nextn place).get?

theorem split_ne_nil (mark : Char) (cs : List Char) : split mark cs ≠ [] := by
  cases cs with
  | nil => simp [split]
  | cons c cs =>
    unfold split
    split
    · simp
    · split <;> simp

/-- The pieces, with a mark between any two of them, make up the text. -/
theorem intercalate_split (mark : Char) (cs : List Char) :
    List.intercalate [mark] (split mark cs) = cs := by
  induction cs with
  | nil => rfl
  | cons c cs ih =>
    obtain ⟨piece, rest, h⟩ := List.exists_cons_of_ne_nil (split_ne_nil mark cs)
    rw [h] at ih
    by_cases hc : c = mark
    · subst hc
      rw [split, if_pos rfl, h, List.intercalate_cons_cons, ih]
      rfl
    · simp only [split, if_neg hc, h]
      cases rest with
      | nil => simp only [List.intercalate_singleton] at ih ⊢; rw [ih]
      | cons next rest =>
        rw [List.intercalate_cons_cons] at ih ⊢
        rw [List.cons_append, List.cons_append, ih]

/-- Walking to a place finds the character there. -/
theorem charAt?_eq (text : String) (place : Nat) : charAt? text place = text.toList[place]? := by
  have hsplit := text.splits_nextn_startPos place
  have hdrop : text.toList[place]? = (text.toList.drop place)[0]? := by
    rw [List.getElem?_drop, Nat.add_zero]
  rw [charAt?, hdrop]
  by_cases hend : text.startPos.nextn place = text.endPos
  · have hnil := congrArg String.toList (hsplit.eq_endPos_iff.1 hend)
    rw [String.toList_ofList] at hnil
    rw [String.Pos.get?_eq_none hend, hnil]
    rfl
  · obtain ⟨rest, hrest⟩ := hsplit.exists_eq_singleton_append hend
    have hcons := congrArg String.toList hrest
    rw [String.toList_ofList, String.toList_append, String.toList_singleton] at hcons
    rw [String.Pos.get?_eq_some_get hend, hcons]
    rfl

end Boli.Text
