namespace Workflow.Text

/-- The pieces between separators; there is always at least one. -/
def splitAt (separator : Char) : List Char → List (List Char)
  | [] => [[]]
  | c :: r =>
    if c = separator then [] :: splitAt separator r
    else
      match splitAt separator r with
      | [] => [[c]]
      | piece :: pieces => (c :: piece) :: pieces

def dropFinalReturn : List Char → List Char
  | [] => []
  | ['\r'] => []
  | c :: r => c :: dropFinalReturn r

/-- Turns the pieces between line feeds into lines: a piece that a line feed closes loses a final
carriage return, and an empty last piece is no line. -/
def closePieces : List (List Char) → List (List Char)
  | [] => []
  | [[]] => []
  | [piece] => [piece]
  | piece :: pieces => dropFinalReturn piece :: closePieces pieces

/-- The lines of a text. A line ends with a line feed, or a carriage return and a line feed; the
last line may lack its end. -/
def lines (s : List Char) : List (List Char) :=
  closePieces (splitAt '\n' s)

def joinWith (separator : List Char) : List (List Char) → List Char
  | [] => []
  | [piece] => piece
  | piece :: pieces => piece ++ separator ++ joinWith separator pieces

theorem splitAt_ne_nil (separator : Char) (s : List Char) : splitAt separator s ≠ [] := by
  cases s with
  | nil => simp [splitAt]
  | cons c r =>
    unfold splitAt
    split
    · simp
    · split <;> simp

/-- The pieces hold the whole text: joined by the separator they give it back. -/
theorem joinWith_splitAt (separator : Char) (s : List Char) :
    joinWith [separator] (splitAt separator s) = s := by
  induction s with
  | nil => rfl
  | cons c r ih =>
    unfold splitAt
    split
    · rename_i h
      subst h
      cases hs : splitAt c r with
      | nil => exact absurd hs (splitAt_ne_nil c r)
      | cons p ps => simp [joinWith, ← hs, ih]
    · cases hs : splitAt separator r with
      | nil => exact absurd hs (splitAt_ne_nil separator r)
      | cons p ps =>
        rw [hs] at ih
        cases ps with
        | nil => simpa [joinWith] using ih
        | cons q qs => simpa [joinWith] using ih

end Workflow.Text
