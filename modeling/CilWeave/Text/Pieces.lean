/-
Texts taken apart at a separator.

`Pieces.split` gives the pieces between the separators, one more of them than there
are separators. The lemmas say how it goes along a text: up to the first separator
there is one piece, and behind it the rest of the text is split by itself.
-/

namespace CilWeave.Pieces

/-- The pieces of a text between the separators in it. -/
def split (separator : Char) : List Char → List (List Char)
  | [] => [[]]
  | c :: cs =>
    if c = separator then [] :: split separator cs
    else
      match split separator cs with
      | [] => [[c]]
      | piece :: rest => (c :: piece) :: rest

theorem split_ne_nil (separator : Char) (cs : List Char) : split separator cs ≠ [] := by
  cases cs with
  | nil => simp [split]
  | cons c cs =>
    unfold split
    split
    · simp
    · split <;> simp

theorem split_of_not_mem {separator : Char} {cs : List Char} (h : separator ∉ cs) :
    split separator cs = [cs] := by
  induction cs with
  | nil => rfl
  | cons c cs ih =>
    have hc : c ≠ separator := fun e => h (by simp [e])
    rw [split, if_neg hc, ih fun m => h (by simp [m])]

theorem split_append_cons {separator : Char} {piece : List Char} (h : separator ∉ piece)
    (rest : List Char) :
    split separator (piece ++ separator :: rest) = piece :: split separator rest := by
  induction piece with
  | nil => simp [split]
  | cons c cs ih =>
    have hc : c ≠ separator := fun e => h (by simp [e])
    rw [List.cons_append, split, if_neg hc, ih fun m => h (by simp [m])]

end CilWeave.Pieces
