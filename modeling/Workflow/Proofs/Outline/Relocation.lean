import Workflow.Document
/-!
Lines that are moved: they get other numbers, and all of them stand further in by as many columns.
The readers compare columns only with one another, so that moved lines are read in the same way.
-/

namespace Workflow.Outline

/-- A line with another number that stands `k` columns further in. -/
def Line.moved (renumber : Nat → Nat) (k : Nat) (l : Line) : Line :=
  ⟨renumber l.number, l.indent + k, l.text⟩

def Fault.renumbered (renumber : Nat → Nat) (f : Fault) : Fault :=
  ⟨renumber f.line, f.problem⟩

def Result.moved {α : Type} (renumber : Nat → Nat) (k : Nat) : Result α → Result α
  | .ok (a, rest) => .ok (a, rest.map (Line.moved renumber k))
  | .error f => .error (f.renumbered renumber)

section fault

variable {α ε δ : Type}

@[simp]
theorem mapError_ok (f : ε → δ) (a : α) : (Except.ok a : Except ε α).mapError f = .ok a :=
  rfl

@[simp]
theorem mapError_error (f : ε → δ) (e : ε) :
    (Except.error e : Except ε α).mapError f = .error (f e) :=
  rfl

end fault

section moved

variable {α : Type} {renumber : Nat → Nat} {k : Nat}

@[simp]
theorem Line.moved_text (l : Line) : (l.moved renumber k).text = l.text :=
  rfl

@[simp]
theorem Line.moved_indent (l : Line) : (l.moved renumber k).indent = l.indent + k :=
  rfl

@[simp]
theorem Line.moved_itemText (l : Line) : (l.moved renumber k).itemText = l.itemText :=
  rfl

@[simp]
theorem Line.moved_fault (l : Line) (problem : Problem) :
    (l.moved renumber k).fault problem = (l.fault problem).renumbered renumber :=
  rfl

@[simp]
theorem Line.moved_lift (l : Line) (x : Except Problem α) :
    (l.moved renumber k).lift x = (l.lift x).mapError (Fault.renumbered renumber) := by
  cases x <;> rfl

/-- The hyphen of an item may be taken off before the item is moved. -/
theorem Line.moved_unfold (l : Line) : (l.moved renumber k).unfold = l.unfold.moved renumber k := by
  have hindent : l.indent + k + (l.text.length - l.itemText.length) =
      l.indent + (l.text.length - l.itemText.length) + k := Nat.add_right_comm _ _ _
  calc (l.moved renumber k).unfold
      = ⟨renumber l.number, l.indent + k + (l.text.length - l.itemText.length), l.itemText⟩ := rfl
    _ = l.unfold.moved renumber k := by rw [hindent]; rfl

end moved

-- By recursion on the fuel, which is the same for both. Where a reader takes a column from a line,
-- the column of the moved line is `k` more, and every comparison is between two columns of one run.
mutual

theorem mapping_moved (renumber : Nat → Nat) (k fuel c : Nat) (read : List (Tree × Tree))
    (lines : List Line) :
    mapping fuel (c + k) read (lines.map (Line.moved renumber k)) =
      (mapping fuel c read lines).moved renumber k := by
  match fuel, lines with
  | 0, lines => simp only [mapping, Result.moved]
  | fuel + 1, [] => simp only [mapping, List.map_nil, Result.moved]
  | fuel + 1, line :: rest =>
    -- Columns are compared with one another only, and further in the comparisons are the same.
    simp only [List.map_cons, mapping, Line.moved_indent, Line.moved_text, Line.moved_fault,
      Line.moved_lift, gt_iff_lt, Nat.add_lt_add_iff_right]
    split
    · rfl
    split
    · rfl
    split
    · rfl
    cases line.lift (readEntry line.text) with
    | error f => rfl
    | ok entry =>
      have hvalue := value_moved renumber k fuel c line entry.rest rest
      simp only [mapError_ok, hvalue]
      cases value fuel c line entry.rest rest with
      | error f => rfl
      | ok result =>
        simp only [Result.moved]
        split
        · rfl
        · exact mapping_moved renumber k fuel c _ result.2

theorem value_moved (renumber : Nat → Nat) (k fuel c : Nat) (line : Line) (text : List Char)
    (lines : List Line) :
    value fuel (c + k) (line.moved renumber k) text (lines.map (Line.moved renumber k)) =
      (value fuel c line text lines).moved renumber k := by
  match fuel with
  | 0 => simp only [value, Result.moved]
  | fuel + 1 =>
    simp only [value, Line.moved_lift]
    split
    · exact nested_moved renumber k fuel c lines
    · cases line.lift (scalar text) <;> rfl

theorem nested_moved (renumber : Nat → Nat) (k fuel c : Nat) (lines : List Line) :
    nested fuel (c + k) (lines.map (Line.moved renumber k)) =
      (nested fuel c lines).moved renumber k := by
  match fuel, lines with
  | 0, lines => simp only [nested, Result.moved]
  | fuel + 1, [] => simp only [nested, List.map_nil, Result.moved]
  | fuel + 1, line :: rest =>
    simp only [List.map_cons, nested, Line.moved_indent, Line.moved_text, gt_iff_lt,
      Nat.add_lt_add_iff_right, Nat.add_right_cancel_iff]
    split
    · exact block_moved renumber k fuel line.indent (line :: rest)
    split
    · have hsequence := sequence_moved renumber k fuel c [] (line :: rest)
      rw [List.map_cons] at hsequence
      rw [hsequence]
      cases sequence fuel c [] (line :: rest) <;> rfl
    · rfl

theorem block_moved (renumber : Nat → Nat) (k fuel c : Nat) (lines : List Line) :
    block fuel (c + k) (lines.map (Line.moved renumber k)) =
      (block fuel c lines).moved renumber k := by
  match fuel, lines with
  | 0, lines => simp only [block, Result.moved]
  | fuel + 1, [] => simp only [block, List.map_nil, Result.moved]
  | fuel + 1, line :: rest =>
    have hsequence := sequence_moved renumber k fuel c [] (line :: rest)
    have hmapping := mapping_moved renumber k fuel c [] (line :: rest)
    rw [List.map_cons] at hsequence hmapping
    simp only [List.map_cons, block, Line.moved_text, hsequence, hmapping]
    split
    · cases sequence fuel c [] (line :: rest) <;> rfl
    · cases mapping fuel c [] (line :: rest) <;> rfl

theorem sequence_moved (renumber : Nat → Nat) (k fuel c : Nat) (read : List Tree)
    (lines : List Line) :
    sequence fuel (c + k) read (lines.map (Line.moved renumber k)) =
      (sequence fuel c read lines).moved renumber k := by
  match fuel, lines with
  | 0, lines => simp only [sequence, Result.moved]
  | fuel + 1, [] => simp only [sequence, List.map_nil, Result.moved]
  | fuel + 1, line :: rest =>
    simp only [List.map_cons, sequence, Line.moved_indent, Line.moved_text,
      Nat.add_right_cancel_iff, item_moved renumber k fuel line rest]
    split
    · cases item fuel line rest with
      | error f => rfl
      | ok result => exact sequence_moved renumber k fuel c _ result.2
    · rfl

/-- An item that is written again without its hyphen moves like any other line. -/
theorem item_moved (renumber : Nat → Nat) (k fuel : Nat) (line : Line) (lines : List Line) :
    item fuel (line.moved renumber k) (lines.map (Line.moved renumber k)) =
      (item fuel line lines).moved renumber k := by
  match fuel with
  | 0 => simp only [item, Result.moved]
  | fuel + 1 =>
    unfold item
    simp only [Line.moved_itemText, Line.moved_indent, Line.moved_lift, Line.moved_unfold]
    split
    · cases lines with
      | nil => rfl
      | cons next rest =>
        simp only [List.map_cons, Line.moved_indent, gt_iff_lt, Nat.add_lt_add_iff_right]
        split
        · exact block_moved renumber k fuel next.indent (next :: rest)
        · rfl
    split
    · -- The line that is written again moves with the item.
      have hmapping := mapping_moved renumber k fuel line.unfold.indent [] (line.unfold :: lines)
      rw [List.map_cons] at hmapping
      rw [hmapping]
      cases mapping fuel line.unfold.indent [] (line.unfold :: lines) <;> rfl
    · cases line.lift (scalar line.itemText) <;> rfl

end

/-- Moved lines hold the same value, or the same fault at the line with the other number. -/
theorem readBlock_moved (renumber : Nat → Nat) (k : Nat) (lines : List Line) :
    readBlock (lines.map (Line.moved renumber k)) =
      (readBlock lines).mapError (Fault.renumbered renumber) := by
  cases lines with
  | nil => simp [readBlock, fuelFor, mapping]
  | cons line rest =>
    have hmapping := mapping_moved renumber k (fuelFor (line :: rest)) line.indent [] (line :: rest)
    have hfuel : fuelFor ((line :: rest).map (Line.moved renumber k)) = fuelFor (line :: rest) := by
      rw [fuelFor, fuelFor, List.length_map]
    rw [List.map_cons] at hmapping hfuel
    simp only [readBlock, List.map_cons, Line.moved_indent, hfuel, hmapping]
    cases mapping (fuelFor (line :: rest)) line.indent [] (line :: rest) with
    | error f => rfl
    | ok result =>
      obtain ⟨entries, left⟩ := result
      cases left <;> rfl

end Workflow.Outline
