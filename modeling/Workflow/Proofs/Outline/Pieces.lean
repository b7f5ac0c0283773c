import Workflow.Proofs.Outline.Reading
import Workflow.Proofs.Tree

namespace Workflow.Outline

inductive Piece
  | item
  | key (key : Tree)
  | leaf (value : Tree)
  /-- A text that is no scalar. No value shows it. -/
  | unread (text : List Char)

/-- Whether a piece is a null value, which need not be written. -/
def Piece.isNull : Piece → Bool
  | leaf .null => true
  | _ => false

def shown (pieces : List Piece) : List Piece :=
  pieces.filter fun p => !p.isNull

def scalarPiece (make : Tree → Piece) (text : List Char) : Piece :=
  match scalar text with
  | .ok value => make value
  | .error _ => .unread text

def valuePieces (text : List Char) : List Piece :=
  if text = [] then [] else [scalarPiece .leaf text]

/-- The key in a text, if there is one, and the scalar behind it. -/
def textPieces (text : List Char) : List Piece :=
  match cutKey text with
  | some (key, rest) => scalarPiece .key (Text.trim key) :: valuePieces (Text.trim rest)
  | none => valuePieces text

def Line.pieces (l : Line) : List Piece :=
  if isItem l.text then .item :: textPieces l.itemText else textPieces l.text

mutual

/-- The pieces of a value in document order. An empty collection is a leaf, as it is written on one
line. -/
def treePieces : Tree → List Piece
  | .sequence items => if items.isEmpty then [.leaf (.sequence [])] else itemPieces items
  | .mapping entries => if entries.isEmpty then [.leaf (.mapping [])] else entryPieces entries
  | value => [.leaf value]

def itemPieces : List Tree → List Piece
  | [] => []
  | v :: vs => .item :: (treePieces v ++ itemPieces vs)

def entryPieces : List (Tree × Tree) → List Piece
  | [] => []
  | (k, v) :: es => .key k :: (treePieces v ++ entryPieces es)

end

theorem shown_append (ps qs : List Piece) : shown (ps ++ qs) = shown ps ++ shown qs :=
  List.filter_append ps qs

theorem shown_cons {p : Piece} (ps : List Piece) (h : p.isNull = false) :
    shown (p :: ps) = p :: shown ps :=
  List.filter_cons_of_pos (by simpa using h)

theorem treePieces_sequence {vs : List Tree} (filled : vs ≠ []) :
    treePieces (.sequence vs) = itemPieces vs := by
  rw [treePieces, List.isEmpty_eq_false_iff.2 filled, if_neg Bool.false_ne_true]

theorem treePieces_mapping {es : List (Tree × Tree)} (filled : es ≠ []) :
    treePieces (.mapping es) = entryPieces es := by
  rw [treePieces, List.isEmpty_eq_false_iff.2 filled, if_neg Bool.false_ne_true]

/-- The value of a scalar is a single leaf. -/
theorem treePieces_of_scalar {text : List Char} {v : Tree} (h : scalar text = .ok v) :
    treePieces v = [.leaf v] := by
  -- Two texts stand for the empty collections, and every other collection is refused.
  have hleaf : v = .sequence [] ∨ v = .mapping [] ∨ treePieces v = [.leaf v] := by
    rw [scalar] at h
    split at h
    · exact Or.inl (Except.ok.inj h).symm
    · split at h
      · exact Or.inr (Or.inl (Except.ok.inj h).symm)
      · refine Or.inr (Or.inr ?_)
        split at h
        · obtain rfl := Except.ok.inj h
          rfl
        · split at h
          · simp at h
          · split at h
            · simp at h
            · simp at h
            · simp at h
            · simp at h
            · rename_i value hsequence hmapping htagged hread
              obtain rfl := Except.ok.inj h
              cases value with
              | sequence items => exact absurd rfl (hsequence items)
              | mapping entries => exact absurd rfl (hmapping entries)
              | _ => rfl
  rcases hleaf with rfl | rfl | hv
  · rfl
  · rfl
  · exact hv

theorem valuePieces_of_scalar {text : List Char} {v : Tree} (filled : text ≠ [])
    (h : scalar text = .ok v) :
    valuePieces text = treePieces v := by
  rw [valuePieces, if_neg filled, scalarPiece, h, treePieces_of_scalar h]

/-- A line with a key shows it, and what stands behind its colon. -/
theorem textPieces_of_readEntry {text : List Char} {e : Entry} (h : readEntry text = .ok e) :
    textPieces text = .key e.key :: valuePieces e.rest := by
  obtain ⟨key, rest, hcut, -, hscalar, hrest⟩ := readEntry_eq_ok h
  rw [textPieces, hcut, hrest]
  dsimp only
  rw [scalarPiece, hscalar]

mutual

/-- The lines of some entries show what the entries show. By the way in which the lines are built:
no line is left out and none is counted twice, as each stands in one place of the construction. -/
theorem EntryLines.shown_eq {c : Nat} {es : List (Tree × Tree)} {ls : List Line}
    (h : EntryLines c es ls) :
    shown (ls.flatMap Line.pieces) = shown (entryPieces es) := by
  match h with
  | .nil => rfl
  | @EntryLines.cons _ l e v below rest es column plain entry value others =>
    have hline : l.pieces = .key e.key :: valuePieces e.rest := by
      rw [Line.pieces, plain, if_neg Bool.false_ne_true, textPieces_of_readEntry entry]
    have hvalue := value.shown_eq
    have hothers := others.shown_eq
    rw [shown_append] at hvalue
    calc shown ((l :: (below ++ rest)).flatMap Line.pieces)
        = shown (.key e.key :: (valuePieces e.rest ++ (below.flatMap Line.pieces ++
            rest.flatMap Line.pieces))) := by simp [hline]
      _ = .key e.key :: (shown (treePieces v) ++ shown (entryPieces es)) := by
          rw [shown_cons _ rfl, shown_append, shown_append, ← List.append_assoc, hvalue, hothers]
      _ = shown (entryPieces ((e.key, v) :: es)) := by
          rw [entryPieces, shown_cons _ rfl, shown_append]

theorem ValueLines.shown_eq {c : Nat} {text : List Char} {v : Tree} {below : List Line}
    (h : ValueLines c text v below) :
    shown (valuePieces text ++ below.flatMap Line.pieces) = shown (treePieces v) := by
  match h with
  | .scalar filled read =>
    rw [valuePieces_of_scalar filled read, List.flatMap_nil, List.append_nil]
  | .null => rfl
  | .deeper _ block => exact block.shown_eq
  | .level items filled =>
    rw [treePieces_sequence filled]
    exact items.shown_eq

/-- The lines of a block show what its value shows. -/
theorem BlockLines.shown_eq {c : Nat} {v : Tree} {ls : List Line} (h : BlockLines c v ls) :
    shown (ls.flatMap Line.pieces) = shown (treePieces v) := by
  match h with
  | .mapping entries filled _ =>
    rw [treePieces_mapping filled]
    exact entries.shown_eq
  | .sequence items filled =>
    rw [treePieces_sequence filled]
    exact items.shown_eq

theorem ItemLines.shown_eq {c : Nat} {vs : List Tree} {ls : List Line} (h : ItemLines c vs ls) :
    shown (ls.flatMap Line.pieces) = shown (itemPieces vs) := by
  match h with
  | .nil => rfl
  | @ItemLines.cons _ l v below rest vs column hyphen item others =>
    have hline : l.pieces = .item :: textPieces l.itemText := by rw [Line.pieces, if_pos hyphen]
    have hitem := item.shown_eq
    have hothers := others.shown_eq
    rw [shown_append] at hitem
    calc shown ((l :: (below ++ rest)).flatMap Line.pieces)
        = shown (.item :: (textPieces l.itemText ++ (below.flatMap Line.pieces ++
            rest.flatMap Line.pieces))) := by simp [hline]
      _ = .item :: (shown (treePieces v) ++ shown (itemPieces vs)) := by
          rw [shown_cons _ rfl, shown_append, shown_append, ← List.append_assoc, hitem, hothers]
      _ = shown (itemPieces (v :: vs)) := by rw [itemPieces, shown_cons _ rfl, shown_append]

theorem ItemLine.shown_eq {l : Line} {v : Tree} {below : List Line} (h : ItemLine l v below) :
    shown (textPieces l.itemText ++ below.flatMap Line.pieces) = shown (treePieces v) := by
  match h with
  | .null bare =>
    rw [bare]
    rfl
  | .deeper bare _ block =>
    rw [bare]
    exact block.shown_eq
  | @ItemLine.mapping l es below colon entries distinct =>
    -- The line behind the hyphen is the first line of the mapping, and it is no item itself.
    obtain ⟨hfilled, hplain⟩ : es ≠ [] ∧ isItem l.unfold.text = false := by
      cases entries with
      | cons _ plain _ _ _ => exact ⟨List.cons_ne_nil _ _, plain⟩
    have hline : l.unfold.pieces = textPieces l.itemText := by
      rw [Line.pieces, hplain, if_neg Bool.false_ne_true]
      rfl
    have hentries := entries.shown_eq
    rw [List.flatMap_cons, hline] at hentries
    rw [treePieces_mapping hfilled, hentries]
  | .scalar filled plain read =>
    have htext : textPieces l.itemText = valuePieces l.itemText := by rw [textPieces, plain]
    rw [htext, valuePieces_of_scalar filled read, List.flatMap_nil, List.append_nil]

end

def Line.Begins (l : Line) : Prop :=
  isItem l.text = true ∨ ∃ e, readEntry l.text = .ok e

theorem Line.Begins.shown_ne_nil {l : Line} (h : l.Begins) : shown l.pieces ≠ [] := by
  rw [Line.pieces]
  by_cases hitem : isItem l.text = true
  · rw [if_pos hitem, shown_cons _ rfl]
    exact List.cons_ne_nil _ _
  · obtain ⟨e, entry⟩ := h.resolve_left hitem
    rw [if_neg hitem, textPieces_of_readEntry entry, shown_cons _ rfl]
    exact List.cons_ne_nil _ _

mutual

/-- Every line of a mapping begins an entry or an item, so none is without pieces. -/
theorem EntryLines.begins {c : Nat} {es : List (Tree × Tree)} {ls : List Line}
    (h : EntryLines c es ls) :
    ∀ l ∈ ls, l.Begins := by
  match h with
  | .nil => simp
  | @EntryLines.cons _ first e _ below rest _ _ _ entry value others =>
    intro l hl
    rcases List.mem_cons.1 hl with rfl | hl
    · exact Or.inr ⟨e, entry⟩
    · rcases List.mem_append.1 hl with hl | hl
      · exact value.begins l hl
      · exact others.begins l hl

theorem ValueLines.begins {c : Nat} {text : List Char} {v : Tree} {below : List Line}
    (h : ValueLines c text v below) : ∀ l ∈ below, l.Begins := by
  match h with
  | .scalar _ _ => simp
  | .null => simp
  | .deeper _ block => exact block.begins
  | .level items _ => exact items.begins

theorem BlockLines.begins {c : Nat} {v : Tree} {ls : List Line} (h : BlockLines c v ls) :
    ∀ l ∈ ls, l.Begins := by
  match h with
  | .mapping entries _ _ => exact entries.begins
  | .sequence items _ => exact items.begins

theorem ItemLines.begins {c : Nat} {vs : List Tree} {ls : List Line} (h : ItemLines c vs ls) :
    ∀ l ∈ ls, l.Begins := by
  match h with
  | .nil => simp
  | @ItemLines.cons _ first _ below rest _ _ hyphen item others =>
    intro l hl
    rcases List.mem_cons.1 hl with rfl | hl
    · exact Or.inl hyphen
    · rcases List.mem_append.1 hl with hl | hl
      · exact item.begins l hl
      · exact others.begins l hl

theorem ItemLine.begins {l : Line} {v : Tree} {below : List Line} (h : ItemLine l v below) :
    ∀ l ∈ below, l.Begins := by
  match h with
  | .null _ => simp
  | .deeper _ _ block => exact block.begins
  | .mapping _ entries _ => exact fun l hl => entries.begins l (List.mem_cons_of_mem _ hl)
  | .scalar _ _ _ => simp

end

theorem loadTree_minimal_eq_ok {text : String} {v : Tree} (h : loadTree .minimal text = .ok v) :
    ∃ ls c, significantLines text.toList = .ok ls ∧ BlockLines c v ls := by
  simp only [loadTree] at h
  split at h
  · exact readTree_eq_ok h
  · simp at h

end Outline

open Outline

/-- The minimal reader loses no content, doubles none and changes no order: the significant lines
show what the value tree shows, but for null values. Every significant line shows something, so none
is left out. -/
theorem loadTree_minimal_keeps_pieces {text : String} {v : Tree}
    (h : loadTree .minimal text = .ok v) :
    ∃ ls, significantLines text.toList = .ok ls ∧
      shown (ls.flatMap Line.pieces) = shown (treePieces v) ∧ ∀ l ∈ ls, shown l.pieces ≠ [] := by
  obtain ⟨ls, c, hls, block⟩ := loadTree_minimal_eq_ok h
  refine ⟨ls, hls, block.shown_eq, ?_⟩
  intro l hl
  exact (block.begins l hl).shown_ne_nil

/-- A mapping behind a hyphen, items at the column of their key, uneven columns, null values that
are written and others that are not, and an empty collection. -/
theorem loadTree_minimal_keeps_pieces_items :
    let text := "steps: # all\n-   id: a\n    next:\n     b:  x:y\n-\n- null\n- []\nlast:\n"
    let v := Tree.mapping [(.string "steps", .sequence
      [.mapping [(.string "id", .string "a"),
        (.string "next", .mapping [(.string "b", .string "x:y")])],
        .null, .null, .sequence []]), (.string "last", .null)]
    loadTree .minimal text = .ok v ∧
      ∃ ls, significantLines text.toList = .ok ls ∧
        shown (ls.flatMap Line.pieces) = shown (treePieces v) ∧ ∀ l ∈ ls, shown l.pieces ≠ [] := by
  intro text v
  have hread : loadTree .minimal text = .ok v := by decide +kernel
  exact ⟨hread, loadTree_minimal_keeps_pieces hread⟩

end Workflow
