/-!
# Parts of a text

`splitAt` takes a text apart at every occurrence of a character.  Joining the
parts with that character gives the text back (`intercalate_splitAt`).
-/

namespace PathMeter.Text

/-- A text taken apart at every `mark`; there is always one part more than
there are marks. -/
def splitAt (mark : Char) : List Char → List (List Char)
  | [] => [[]]
  | c :: s =>
    if c = mark then [] :: splitAt mark s
    else match splitAt mark s with
      | [] => [[c]]
      | part :: parts => (c :: part) :: parts

theorem splitAt_ne_nil (mark : Char) (s : List Char) : splitAt mark s ≠ [] := by
  cases s with
  | nil => simp [splitAt]
  | cons c s =>
    rw [splitAt]
    split
    · simp
    · split <;> simp

/-- Joining the parts gives the text back. -/
theorem intercalate_splitAt (mark : Char) (s : List Char) :
    [mark].intercalate (splitAt mark s) = s := by
  induction s with
  | nil => rfl
  | cons c s ih =>
    rw [splitAt]
    cases hs : splitAt mark s with
    | nil => exact absurd hs (splitAt_ne_nil mark s)
    | cons part parts =>
      rw [hs] at ih
      split
      · subst c
        rw [← ih]
        simp [List.intercalate, List.intersperse]
      · rw [← ih]
        cases parts <;> simp [List.intercalate, List.intersperse]

end PathMeter.Text
