import Workflow.Proofs.Outline.Reading
/-!
Reading goes from the first line to the last, so that lines which are cut off at the end do not
change a fault before them. A reader that has the cut lines and one that has not them stay at the
same line until the lines before the cut are used up.
-/

namespace Workflow.Outline

def Fault.On (f : Fault) (lines : List Line) : Prop :=
  f.line ∈ lines.map Line.number

theorem Fault.On.of_suffix {f : Fault} {xs ys : List Line} (h : f.On xs) (hs : xs <:+ ys) :
    f.On ys :=
  (hs.map Line.number).subset h

theorem Fault.On.cons {f : Fault} {l : Line} {lines : List Line} (h : f.On lines) :
    f.On (l :: lines) :=
  List.mem_cons_of_mem _ h

theorem Line.fault_on (l : Line) (problem : Problem) (lines : List Line) :
    (l.fault problem).On (l :: lines) :=
  List.mem_cons_self

theorem Line.lift_on {α : Type} {l : Line} {lines : List Line} {x : Except Problem α} {f : Fault}
    (h : l.lift x = .error f) : f.On (l :: lines) := by
  cases x with
  | ok a => cases h
  | error problem =>
    cases h
    exact l.fault_on problem lines

theorem suffix_of_value {fuel c : Nat} {line : Line} {text : List Char} {v : Tree}
    {lines rest : List Line} (hf : 6 * lines.length + 6 ≤ fuel)
    (h : value fuel c line text lines = .ok (v, rest)) : rest <:+ lines := by
  obtain ⟨used, rfl, -⟩ := valueLines_of_value hf h
  exact List.suffix_append used rest

theorem suffix_of_item {fuel : Nat} {line : Line} {v : Tree} {lines rest : List Line}
    (hf : 6 * lines.length + 8 ≤ fuel) (h : item fuel line lines = .ok (v, rest)) :
    rest <:+ lines := by
  obtain ⟨used, rfl, -⟩ := itemLine_of_item hf h
  exact List.suffix_append used rest

mutual

/-- A fault of a reader is at one of its lines. -/
theorem mapping_fault_on {fuel c : Nat} {read : List (Tree × Tree)} {lines : List Line} {f : Fault}
    (hf : 6 * lines.length + 1 ≤ fuel) (h : mapping fuel c read lines = .error f) : f.On lines := by
  match fuel, lines with
  | fuel + 1, [] => simp [mapping] at h
  | fuel + 1, line :: below =>
    simp only [List.length_cons] at hf
    simp only [mapping] at h
    -- The fault is at the line at hand, in its value, or in what is read behind that.
    split at h
    · cases h
    split at h
    · cases h
      exact line.fault_on _ below
    split at h
    · cases h
      exact line.fault_on _ below
    split at h
    · cases h
      exact Line.lift_on ‹_›
    · split at h
      · rename_i hvalue
        cases h
        exact value_fault_on (by omega) hvalue
      · rename_i rest hvalue
        have hrest := suffix_of_value (by omega) hvalue
        have hlen := hrest.length_le
        split at h
        · cases h
          exact line.fault_on _ below
        · exact ((mapping_fault_on (by omega) h).of_suffix hrest).cons

theorem value_fault_on {fuel c : Nat} {line : Line} {text : List Char}
    {lines : List Line} {f : Fault} (hf : 6 * lines.length + 6 ≤ fuel)
    (h : value fuel c line text lines = .error f) : f.On (line :: lines) := by
  match fuel with
  | fuel + 1 =>
    simp only [value] at h
    split at h
    · exact (nested_fault_on (by omega) h).cons
    · split at h
      · cases h
      · cases h
        exact Line.lift_on ‹_›

theorem nested_fault_on {fuel c : Nat} {lines : List Line} {f : Fault}
    (hf : 6 * lines.length + 5 ≤ fuel) (h : nested fuel c lines = .error f) : f.On lines := by
  match fuel, lines with
  | fuel + 1, [] => simp [nested] at h
  | fuel + 1, line :: below =>
    simp only [nested] at h
    split at h
    · exact block_fault_on (by omega) h
    split at h
    · split at h
      · cases h
      · rename_i hseq
        cases h
        exact sequence_fault_on (by omega) hseq
    · cases h

theorem block_fault_on {fuel c : Nat} {lines : List Line} {f : Fault}
    (hf : 6 * lines.length + 4 ≤ fuel) (h : block fuel c lines = .error f) : f.On lines := by
  match fuel, lines with
  | fuel + 1, [] => simp [block] at h
  | fuel + 1, line :: below =>
    simp only [block] at h
    split at h
    · split at h
      · cases h
      · rename_i hseq
        cases h
        exact sequence_fault_on (by omega) hseq
    · split at h
      · cases h
      · rename_i hmap
        cases h
        exact mapping_fault_on (by omega) hmap

theorem sequence_fault_on {fuel c : Nat} {read : List Tree} {lines : List Line} {f : Fault}
    (hf : 6 * lines.length + 3 ≤ fuel) (h : sequence fuel c read lines = .error f) :
    f.On lines := by
  match fuel, lines with
  | fuel + 1, [] => simp [sequence] at h
  | fuel + 1, line :: below =>
    simp only [List.length_cons] at hf
    simp only [sequence] at h
    split at h
    · split at h
      · rename_i hitem
        have hrest := suffix_of_item (by omega) hitem
        have hlen := hrest.length_le
        exact ((sequence_fault_on (by omega) h).of_suffix hrest).cons
      · rename_i hitem
        cases h
        exact item_fault_on (by omega) hitem
    · cases h

theorem item_fault_on {fuel : Nat} {line : Line} {lines : List Line} {f : Fault}
    (hf : 6 * lines.length + 8 ≤ fuel) (h : item fuel line lines = .error f) :
    f.On (line :: lines) := by
  match fuel with
  | fuel + 1 =>
    unfold item at h
    split at h
    · split at h
      · cases h
      · split at h
        · exact (block_fault_on (by omega) h).cons
        · cases h
    split at h
    · split at h
      · cases h
      · rename_i hmap
        cases h
        -- The line that is written again keeps its number.
        have hentries : f.On (line.unfold :: lines) :=
          mapping_fault_on (by simp only [List.length_cons]; omega) hmap
        exact hentries
    · split at h
      · cases h
      · cases h
        exact Line.lift_on ‹_›

end

/-- How what is read from some lines, with the lines `cut` after them, compares with what is read
from them alone. Either both readers stop in front of the cut, or the first went on into it where
the second had nothing left. They have the same fault, unless that of the first is at a line of the
cut. -/
inductive Cut {α : Type} (cut : List Line) : Result α → Result α → Prop
  | within {a b : α} (rest : List Line) : Cut cut (.ok (a, rest ++ cut)) (.ok (b, rest))
  | across {a b : α} {rest : List Line} (left : rest <:+ cut) :
      Cut cut (.ok (a, rest)) (.ok (b, []))
  | same {f : Fault} : Cut cut (.error f) (.error f)
  | beyond {f : Fault} {r : Result α} (on : f.On cut) : Cut cut (.error f) r

/-- A reader that has nothing but the lines of the cut, and one that has no line. -/
theorem Cut.of_empty {α : Type} {cut : List Line} {x : Result α} {b : α}
    (hok : ∀ a rest, x = .ok (a, rest) → rest <:+ cut) (hfault : ∀ f, x = .error f → f.On cut) :
    Cut cut x (.ok (b, [])) := by
  cases x with
  | error f => exact .beyond (hfault f rfl)
  | ok result => exact .across (hok result.1 result.2 rfl)

theorem Cut.map {α β : Type} {cut : List Line} {x y : Result α} (h : Cut cut x y) (g : α → β) :
    Cut cut (x.map (Prod.map g id)) (y.map (Prod.map g id)) := by
  cases h with
  | within rest => exact .within rest
  | across left => exact .across left
  | same => exact .same
  | beyond on => exact .beyond on

theorem hasKey_congr {read read' : List (Tree × Tree)} (h : read.map Prod.fst = read'.map Prod.fst)
    (key : Tree) :
    Tree.hasKey read key = Tree.hasKey read' key := by
  have hany (entries : List (Tree × Tree)) :
      Tree.hasKey entries key = (entries.map Prod.fst).any fun k => k.same key := by
    rw [Tree.hasKey, List.any_map]
    rfl
  rw [hany, hany, h]

/-- A mapping whose lines are cut here ends here, or its next fault is on a line that was cut. -/
theorem mapping_cut_empty {fuel fuel' c : Nat} {read read' : List (Tree × Tree)}
    {left cut : List Line} (hf : 6 * left.length + 1 ≤ fuel) (hf' : 1 ≤ fuel')
    (hleft : left <:+ cut) (distinct : DistinctKeys read) :
    Cut cut (mapping fuel c read left) (mapping fuel' c read' []) := by
  obtain ⟨fuel', rfl⟩ : ∃ n, fuel' = n + 1 := ⟨fuel' - 1, by omega⟩
  have hnone : mapping (fuel' + 1) c read' [] = .ok (read', []) := by simp [mapping]
  rw [hnone]
  apply Cut.of_empty
  · intro es rest h
    obtain ⟨-, used, -, rfl, -⟩ := entryLines_of_mapping hf distinct h
    exact (List.suffix_append used rest).trans hleft
  · intro f h
    exact (mapping_fault_on hf h).of_suffix hleft

theorem sequence_cut_empty {fuel fuel' c : Nat} {read read' : List Tree} {left cut : List Line}
    (hf : 6 * left.length + 3 ≤ fuel) (hf' : 1 ≤ fuel') (hleft : left <:+ cut) :
    Cut cut (sequence fuel c read left) (sequence fuel' c read' []) := by
  obtain ⟨fuel', rfl⟩ : ∃ n, fuel' = n + 1 := ⟨fuel' - 1, by omega⟩
  have hnone : sequence (fuel' + 1) c read' [] = .ok (read', []) := by simp [sequence]
  rw [hnone]
  apply Cut.of_empty
  · intro vs rest h
    obtain ⟨-, used, -, rfl, -⟩ := itemLines_of_sequence hf h
    exact (List.suffix_append used rest).trans hleft
  · intro f h
    exact (sequence_fault_on hf h).of_suffix hleft

-- Each reader has fuel enough for its own lines, and a call takes one from both.
mutual

/-- Without the lines of the cut, the entries before it are read in the same way. -/
theorem mapping_cut {fuel fuel' c : Nat} {read read' : List (Tree × Tree)} (before : List Line)
    {cut : List Line} (hf : 6 * (before ++ cut).length + 1 ≤ fuel)
    (hf' : 6 * before.length + 1 ≤ fuel') (hkeys : read.map Prod.fst = read'.map Prod.fst)
    (distinct : DistinctKeys read) :
    Cut cut (mapping fuel c read (before ++ cut)) (mapping fuel' c read' before) := by
  match fuel, fuel', before with
  | _, _, [] => exact mapping_cut_empty hf hf' (List.suffix_refl cut) distinct
  | fuel + 1, fuel' + 1, line :: below =>
    simp only [List.cons_append, List.length_cons] at hf hf'
    simp only [List.cons_append, mapping]
    split
    · exact .within (line :: below)
    split
    · exact .same
    split
    · exact .same
    cases hentry : line.lift (readEntry line.text) with
    | error f => exact .same
    | ok entry =>
      have hcut : Cut cut (value fuel c line entry.rest (below ++ cut))
          (value fuel' c line entry.rest below) :=
        value_cut below (by omega) (by omega)
      dsimp only
      -- The two values may differ, but the keys that were read do not, and only they decide what
      -- follows.
      generalize hfull : value fuel c line entry.rest (below ++ cut) = full at hcut
      generalize hshort : value fuel' c line entry.rest below = short at hcut
      cases hcut with
      | same => exact .same
      | beyond on => exact .beyond on
      | within rest =>
        have hlen := (suffix_of_value (by omega) hshort).length_le
        rw [← hasKey_congr hkeys]
        dsimp only
        split
        · exact .same
        · rename_i hnew
          refine mapping_cut rest ?_ ?_ ?_ ?_
          · simp only [List.length_append] at hf ⊢
            omega
          · omega
          · simp [hkeys]
          · exact distinctKeys_append_singleton.2 ⟨distinct, by simpa using hnew⟩
      | @across _ _ rest left =>
        -- The value took the last line before the cut, so that only the first reader goes on.
        have hlen := left.length_le
        rw [← hasKey_congr hkeys]
        dsimp only
        split
        · exact .same
        · rename_i hnew
          refine mapping_cut_empty ?_ (by omega) left ?_
          · simp only [List.length_append] at hf
            omega
          · exact distinctKeys_append_singleton.2 ⟨distinct, by simpa using hnew⟩

theorem value_cut {fuel fuel' c : Nat} {line : Line} {text : List Char} (before : List Line)
    {cut : List Line} (hf : 6 * (before ++ cut).length + 6 ≤ fuel)
    (hf' : 6 * before.length + 6 ≤ fuel') :
    Cut cut (value fuel c line text (before ++ cut)) (value fuel' c line text before) := by
  match fuel, fuel' with
  | fuel + 1, fuel' + 1 =>
    simp only [value]
    split
    · exact nested_cut before (by omega) (by omega)
    · cases line.lift (scalar text) with
      | ok v => exact .within before
      | error f => exact .same

theorem nested_cut {fuel fuel' c : Nat} (before : List Line) {cut : List Line}
    (hf : 6 * (before ++ cut).length + 5 ≤ fuel) (hf' : 6 * before.length + 5 ≤ fuel') :
    Cut cut (nested fuel c (before ++ cut)) (nested fuel' c before) := by
  match fuel, fuel', before with
  | fuel, fuel' + 1, [] =>
    rw [List.nil_append] at hf ⊢
    have hnone : nested (fuel' + 1) c [] = .ok (.null, []) := by simp [nested]
    rw [hnone]
    -- With nothing in front of the cut the value is null without it, and what the cut holds with
    -- it.
    apply Cut.of_empty
    · intro v rest h
      obtain ⟨used, rfl, -⟩ := valueLines_of_nested hf h
      exact List.suffix_append used rest
    · intro f h
      exact nested_fault_on hf h
  | fuel + 1, fuel' + 1, line :: below =>
    rw [List.cons_append] at hf ⊢
    by_cases hdeeper : line.indent > c
    · simp only [nested, hdeeper, if_true]
      exact block_cut line below (by omega) (by omega)
    by_cases hlevel : line.indent = c ∧ isItem line.text = true
    · rw [nested_of_level hlevel.1 hlevel.2, nested_of_level hlevel.1 hlevel.2]
      exact (sequence_cut (line :: below) (by rw [List.cons_append]; omega) (by omega)).map
        Tree.sequence
    · simp only [nested, hdeeper, hlevel, if_false]
      exact .within (line :: below)

/-- A block whose first line was not cut off is read alike up to the cut. -/
theorem block_cut {fuel fuel' c : Nat} (line : Line) (below : List Line) {cut : List Line}
    (hf : 6 * (line :: (below ++ cut)).length + 4 ≤ fuel)
    (hf' : 6 * (line :: below).length + 4 ≤ fuel') :
    Cut cut (block fuel c (line :: (below ++ cut))) (block fuel' c (line :: below)) := by
  match fuel, fuel' with
  | fuel + 1, fuel' + 1 =>
    cases hitem : isItem line.text with
    | true =>
      rw [block_of_item hitem, block_of_item hitem]
      exact (sequence_cut (line :: below) (by rw [List.cons_append]; omega) (by omega)).map
        Tree.sequence
    | false =>
      rw [block_of_plain hitem, block_of_plain hitem]
      exact (mapping_cut (line :: below) (by rw [List.cons_append]; omega) (by omega) rfl .nil).map
        Tree.mapping

theorem sequence_cut {fuel fuel' c : Nat} {read read' : List Tree} (before : List Line)
    {cut : List Line} (hf : 6 * (before ++ cut).length + 3 ≤ fuel)
    (hf' : 6 * before.length + 3 ≤ fuel') :
    Cut cut (sequence fuel c read (before ++ cut)) (sequence fuel' c read' before) := by
  match fuel, fuel', before with
  | _, _, [] => exact sequence_cut_empty hf (by omega) (List.suffix_refl cut)
  | fuel + 1, fuel' + 1, line :: below =>
    simp only [List.cons_append, List.length_cons] at hf hf'
    simp only [List.cons_append, sequence]
    split
    · have hcut : Cut cut (item fuel line (below ++ cut)) (item fuel' line below) :=
        item_cut below (by omega) (by omega)
      generalize hfull : item fuel line (below ++ cut) = full at hcut
      generalize hshort : item fuel' line below = short at hcut
      -- What the item leaves decides if the next one stands before the cut or behind it.
      cases hcut with
      | same => exact .same
      | beyond on => exact .beyond on
      | within rest =>
        have hlen := (suffix_of_item (by omega) hshort).length_le
        refine sequence_cut rest ?_ (by omega)
        simp only [List.length_append] at hf ⊢
        omega
      | @across _ _ rest left =>
        have hlen := left.length_le
        refine sequence_cut_empty ?_ (by omega) left
        simp only [List.length_append] at hf
        omega
    · exact .within (line :: below)

theorem item_cut {fuel fuel' : Nat} {line : Line} (before : List Line) {cut : List Line}
    (hf : 6 * (before ++ cut).length + 8 ≤ fuel) (hf' : 6 * before.length + 8 ≤ fuel') :
    Cut cut (item fuel line (before ++ cut)) (item fuel' line before) := by
  match fuel, fuel' with
  | fuel + 1, fuel' + 1 =>
    cases hbare : line.itemText.isEmpty with
    | true =>
      unfold item
      simp only [hbare, if_true]
      -- A bare hyphen looks at the line below it, which may be the first one behind the cut.
      match before, cut with
      | [], [] => exact .within []
      | [], next :: rest =>
        rw [List.nil_append] at hf
        dsimp only [List.nil_append]
        split
        · apply Cut.of_empty
          · intro v left h
            obtain ⟨used, hused, -⟩ := blockLines_of_block rfl (by omega) h
            exact hused ▸ List.suffix_append used left
          · intro f h
            exact block_fault_on (by omega) h
        · exact .across (List.suffix_refl (next :: rest))
      | next :: rest, cut =>
        rw [List.cons_append] at hf
        dsimp only [List.cons_append]
        split
        · exact block_cut next rest (by omega) (by omega)
        · exact .within (next :: rest)
    | false =>
      cases hcolon : (cutKey line.itemText).isSome with
      | true =>
        rw [item_of_colon hbare hcolon, item_of_colon hbare hcolon]
        have hentries : Cut cut (mapping fuel line.unfold.indent [] (line.unfold :: before ++ cut))
            (mapping fuel' line.unfold.indent [] (line.unfold :: before)) := by
          refine mapping_cut (line.unfold :: before) ?_ ?_ rfl .nil
          · simp only [List.cons_append, List.length_cons]
            omega
          · simp only [List.length_cons]
            omega
        exact hentries.map Tree.mapping
      | false =>
        unfold item
        simp only [hbare, hcolon, Bool.false_eq_true, if_false]
        cases line.lift (scalar line.itemText) with
        | ok v => exact .within before
        | error f => exact .same

end

/-- A fault is at a line that was read. -/
theorem readBlock_fault_on {lines : List Line} {f : Fault} (h : readBlock lines = .error f) :
    f.On lines := by
  unfold readBlock at h
  dsimp only at h
  split at h
  · rename_i hmap
    cases h
    exact mapping_fault_on (by simp [fuelFor]) hmap
  · cases h
  · rename_i hmap
    cases h
    obtain ⟨-, used, -, rfl, -⟩ := entryLines_of_mapping (by simp [fuelFor]) .nil hmap
    exact (Line.fault_on _ _ _).of_suffix (List.suffix_append used _)

/-- A fault before the cut stands without the lines behind it. -/
theorem readBlock_of_append {before cut : List Line} {f : Fault}
    (h : readBlock (before ++ cut) = .error f) (hf : ¬f.On cut) : readBlock before = .error f := by
  cases before with
  | nil => exact absurd (readBlock_fault_on h) hf
  | cons line below =>
    have hcut :
        Cut cut (mapping (fuelFor (line :: below ++ cut)) line.indent [] (line :: below ++ cut))
        (mapping (fuelFor (line :: below)) line.indent [] (line :: below)) :=
      mapping_cut (line :: below) (by simp [fuelFor]) (by simp [fuelFor]) rfl .nil
    unfold readBlock at h ⊢
    dsimp only [List.cons_append] at h hcut ⊢
    generalize mapping (fuelFor (line :: (below ++ cut))) line.indent [] (line :: (below ++ cut)) =
      full at h hcut
    generalize mapping (fuelFor (line :: below)) line.indent [] (line :: below) = short at hcut ⊢
    -- Where the mapping is read, the fault is that lines are left, and it is at the first of them.
    cases hcut with
    | same => exact h
    | beyond on =>
      cases h
      exact absurd on hf
    | within rest =>
      cases rest with
      | cons l rest => exact h
      | nil =>
        cases cut with
        | nil => cases h
        | cons l cut =>
          cases h
          exact absurd (l.fault_on _ cut) hf
    | @across _ _ rest left =>
      cases rest with
      | nil => cases h
      | cons l rest =>
        cases h
        exact absurd ((l.fault_on _ rest).of_suffix left) hf

end Workflow.Outline
