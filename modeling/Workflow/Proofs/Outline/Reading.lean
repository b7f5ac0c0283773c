import Workflow.Document
import Workflow.Proofs.Outline.Structure
/-!
The reader of blocks takes exactly the lines that are built as blocks. One direction follows the way
the lines are built, with fuel for each of them, and the other follows the reader, fuel by fuel.
-/

namespace Workflow.Outline

section collections

variable {fuel c : Nat} {line : Line} {lines : List Line}

theorem block_of_item (h : isItem line.text = true) :
    block (fuel + 1) c (line :: lines) =
      (sequence fuel c [] (line :: lines)).map (Prod.map Tree.sequence id) := by
  simp only [block, h, if_true]
  cases sequence fuel c [] (line :: lines) <;> rfl

theorem block_of_plain (h : isItem line.text = false) :
    block (fuel + 1) c (line :: lines) = (mapping fuel c [] (line :: lines)).map
    (Prod.map Tree.mapping id) := by
  simp only [block, h, Bool.false_eq_true, if_false]
  cases mapping fuel c [] (line :: lines) <;> rfl

theorem nested_of_level (hc : line.indent = c) (h : isItem line.text = true) :
    nested (fuel + 1) c (line :: lines) =
      (sequence fuel c [] (line :: lines)).map (Prod.map Tree.sequence id) := by
  simp only [nested, hc, h, gt_iff_lt, Nat.lt_irrefl, if_false, and_self, if_true]
  cases sequence fuel c [] (line :: lines) <;> rfl

theorem item_of_colon (hfilled : line.itemText.isEmpty = false)
    (h : (cutKey line.itemText).isSome = true) :
    item (fuel + 1) line lines =
      (mapping fuel line.unfold.indent [] (line.unfold :: lines)).map
      (Prod.map Tree.mapping id) := by
  unfold item
  simp only [hfilled, h, Bool.false_eq_true, if_false, if_true]
  cases mapping fuel line.unfold.indent [] (line.unfold :: lines) <;> rfl

end collections

/-- A reader of a collection takes the lines that the reader of its parts takes. -/
theorem exists_of_map_eq_ok {α β : Type} {x : Result α} {g : α → β} {v : β} {rest : List Line}
    (h : x.map (Prod.map g id) = .ok (v, rest)) : ∃ u, x = .ok (u, rest) ∧ v = g u := by
  cases x with
  | error fault => cases h
  | ok result =>
    obtain ⟨rfl, rfl⟩ := Prod.mk.inj (Except.ok.inj h)
    exact ⟨result.1, rfl, rfl⟩

mutual

/-- Entries are read back up to where the mapping ends. -/
theorem EntryLines.mapping_eq {c : Nat} {es : List (Tree × Tree)} {ls rest : List Line}
    (h : EntryLines c es ls) (fuel : Nat) (read : List (Tree × Tree))
    (hf : 6 * ls.length + 1 ≤ fuel) (distinct : DistinctKeys (read ++ es))
    (ends : EndsMapping c rest) :
    mapping fuel c read (ls ++ rest) = .ok (read ++ es, rest) := by
  obtain ⟨fuel, rfl⟩ : ∃ n, fuel = n + 1 := ⟨fuel - 1, by omega⟩
  match h with
  | .nil =>
    cases rest with
    | nil => simp [mapping]
    | cons l r =>
      have hl : l.indent < c := ends l (by simp)
      simp [mapping, hl]
  | @EntryLines.cons _ l e v below others' es column plain entry value others =>
    simp only [List.length_cons, List.length_append] at hf
    have hends : EndsSequence c (others' ++ rest) := others.endsSequence ends
    have hv := value.value_eq l fuel (by omega) hends
    have hsplit : read ++ (e.key, v) :: es = (read ++ [(e.key, v)]) ++ es := by simp
    rw [hsplit] at distinct
    -- The key is not among those that were read, and joins them for the entries that follow.
    have hnew := (distinctKeys_append_singleton.1 distinct.of_append_left).2
    have hrest := others.mapping_eq fuel _ (by omega) distinct ends
    simp only [List.cons_append, List.append_assoc, mapping, column, Nat.lt_irrefl, gt_iff_lt,
      if_false, plain, Bool.false_eq_true, Line.lift, entry, hv, hnew, hrest, List.nil_append]

theorem ValueLines.value_eq {c : Nat} {text : List Char} {v : Tree} {ls rest : List Line}
    (h : ValueLines c text v ls) (line : Line) (fuel : Nat) (hf : 6 * ls.length + 6 ≤ fuel)
    (ends : EndsSequence c rest) :
    value fuel c line text (ls ++ rest) = .ok (v, rest) := by
  obtain ⟨fuel, rfl⟩ : ∃ n, fuel = n + 2 := ⟨fuel - 2, by omega⟩
  match h with
  | .scalar filled read =>
    simp [value, List.isEmpty_eq_false_iff.2 filled, Line.lift, read]
  | .null =>
    cases rest with
    | nil => simp [value, nested]
    | cons l r =>
      -- The next line stands further out or is no item, so that it is not the value.
      rcases ends l (by simp) with hl | ⟨heq, hplain⟩
      · simp [value, nested, Nat.not_lt.2 (Nat.le_of_lt hl), Nat.ne_of_lt hl]
      · simp [value, nested, heq, hplain]
  | .deeper (d := d) column block =>
    have hb := block.block_eq fuel (by omega) (ends.endsMapping column)
    obtain ⟨l, below, rfl, hl⟩ := block.exists_cons
    simp only [List.cons_append] at hb ⊢
    simp [value, nested, hl, column, hb]
  | .level items filled =>
    have hs := items.sequence_eq fuel [] (by omega) ends
    obtain ⟨l, below, rfl, hl, hitem⟩ := items.exists_cons filled
    simp only [List.cons_append] at hs ⊢
    simp [value, nested, hl, hitem, hs]

/-- A block that is built from lines is read from them, and what follows is left. -/
theorem BlockLines.block_eq {c : Nat} {v : Tree} {ls rest : List Line} (h : BlockLines c v ls)
    (fuel : Nat) (hf : 6 * ls.length + 4 ≤ fuel) (ends : EndsMapping c rest) :
    block fuel c (ls ++ rest) = .ok (v, rest) := by
  obtain ⟨fuel, rfl⟩ : ∃ n, fuel = n + 1 := ⟨fuel - 1, by omega⟩
  match h with
  | .mapping entries filled distinct =>
    have hm := entries.mapping_eq fuel [] (by omega) distinct ends
    obtain ⟨l, below, rfl, -, hplain⟩ := entries.exists_cons filled
    simp only [List.cons_append, List.nil_append] at hm ⊢
    simp [block, hplain, hm]
  | .sequence items filled =>
    have hs := items.sequence_eq fuel [] (by omega) ends.endsSequence
    obtain ⟨l, below, rfl, -, hitem⟩ := items.exists_cons filled
    simp only [List.cons_append, List.nil_append] at hs ⊢
    simp [block, hitem, hs]

/-- Items are read back up to where the sequence ends. -/
theorem ItemLines.sequence_eq {c : Nat} {vs : List Tree} {ls rest : List Line}
    (h : ItemLines c vs ls) (fuel : Nat) (read : List Tree) (hf : 6 * ls.length + 3 ≤ fuel)
    (ends : EndsSequence c rest) :
    sequence fuel c read (ls ++ rest) = .ok (read ++ vs, rest) := by
  obtain ⟨fuel, rfl⟩ : ∃ n, fuel = n + 1 := ⟨fuel - 1, by omega⟩
  match h with
  | .nil =>
    cases rest with
    | nil => simp [sequence]
    | cons l r =>
      rcases ends l (by simp) with hl | ⟨-, hplain⟩
      · simp [sequence, Nat.ne_of_lt hl]
      · simp [sequence, hplain]
  | @ItemLines.cons _ l v below others' vs column hyphen item others =>
    simp only [List.length_cons, List.length_append] at hf
    have hends : EndsMapping (l.indent + 1) (others' ++ rest) :=
      others.endsMapping (by omega) (ends.endsMapping (by omega))
    have hi := item.item_eq hyphen fuel (by omega) hends
    have hrest := others.sequence_eq fuel (read ++ [v]) (by omega) ends
    simp only [List.cons_append, List.append_assoc] at hrest ⊢
    simp [sequence, column, hyphen, hi, hrest]

theorem ItemLine.item_eq {l : Line} {v : Tree} {ls rest : List Line} (h : ItemLine l v ls)
    (hyphen : isItem l.text = true) (fuel : Nat) (hf : 6 * ls.length + 8 ≤ fuel)
    (ends : EndsMapping (l.indent + 1) rest) : item fuel l (ls ++ rest) = .ok (v, rest) := by
  obtain ⟨fuel, rfl⟩ : ∃ n, fuel = n + 1 := ⟨fuel - 1, by omega⟩
  match h with
  | .null bare =>
    cases rest with
    | nil => simp [item, bare]
    | cons next r =>
      have hnext : ¬l.indent < next.indent := by
        have := ends next (by simp)
        omega
      simp [item, bare, hnext]
  | .deeper bare column block =>
    have hb := block.block_eq fuel (by omega) (ends.mono column)
    obtain ⟨next, below, rfl, hnext⟩ := block.exists_cons
    simp only [List.cons_append] at hb ⊢
    simp [item, bare, hnext, column, hb]
  | .mapping colon entries distinct =>
    -- The first entry is read from the line of the hyphen, rewritten with the hyphen taken off.
    have hm := entries.mapping_eq fuel []
      (by simp only [List.length_cons]; omega) distinct (ends.mono (Line.unfold_indent_lt hyphen))
    have hfilled : l.itemText.isEmpty = false := by
      apply List.isEmpty_eq_false_iff.2
      intro hnil
      rw [hnil] at colon
      exact absurd colon (by decide)
    simp only [List.cons_append, List.nil_append] at hm
    unfold item
    simp [hfilled, colon, hm]
  | .scalar filled plain read =>
    unfold item
    simp [List.isEmpty_eq_false_iff.2 filled, plain, Line.lift, read]

end

mutual

/-- What is read as a mapping is built as entries, and goes on until the mapping ends. -/
theorem entryLines_of_mapping {fuel c : Nat} {read es' : List (Tree × Tree)} {ls rest : List Line}
    (hf : 6 * ls.length + 1 ≤ fuel) (distinct : DistinctKeys read)
    (h : mapping fuel c read ls = .ok (es', rest)) :
    ∃ es used, es' = read ++ es ∧ ls = used ++ rest ∧ EntryLines c es used ∧ DistinctKeys es' ∧
      EndsMapping c rest := by
  match fuel, ls with
  | fuel + 1, [] =>
    simp only [mapping, Except.ok.injEq, Prod.mk.injEq] at h
    obtain ⟨rfl, rfl⟩ := h
    exact ⟨[], [], by simp, rfl, .nil, distinct, by simp [EndsMapping]⟩
  | fuel + 1, line :: below =>
    simp only [List.length_cons] at hf
    simp only [mapping] at h
    split at h
    · rename_i hlt
      simp only [Except.ok.injEq, Prod.mk.injEq] at h
      obtain ⟨rfl, rfl⟩ := h
      exact ⟨[], [], by simp, rfl, .nil, distinct, by simp [EndsMapping, hlt]⟩
    · split at h
      · simp at h
      · split at h
        · simp at h
        · rename_i hle hge hplain
          cases hentry : readEntry line.text with
          | error problem => simp [hentry, Line.lift] at h
          | ok entry =>
            simp only [hentry, Line.lift] at h
            cases hvalue : value fuel c line entry.rest below with
            | error fault => simp [hvalue] at h
            | ok result =>
              obtain ⟨v, others⟩ := result
              simp only [hvalue] at h
              split at h
              · simp at h
              · rename_i hnew
                obtain ⟨used, hused, hlines⟩ := valueLines_of_value (by omega) hvalue
                have hdistinct : DistinctKeys (read ++ [(entry.key, v)]) :=
                  distinctKeys_append_singleton.2 ⟨distinct, by simpa using hnew⟩
                -- The recursion is on what the value leaves, for which there is fuel enough.
                have hlen : others.length ≤ below.length := by simp [hused]
                obtain ⟨es, usedAfter, hes, hafter, hentries, hkeys, hends⟩ :=
                  entryLines_of_mapping (by omega) hdistinct h
                refine ⟨(entry.key, v) :: es, line :: (used ++ usedAfter), by simp [hes],
                  by simp [hused, hafter], ?_, hkeys, hends⟩
                exact .cons (by omega) (by simpa using hplain) hentry hlines hentries

theorem valueLines_of_value {fuel c : Nat} {line : Line} {text : List Char} {v : Tree}
    {ls rest : List Line} (hf : 6 * ls.length + 6 ≤ fuel)
    (h : value fuel c line text ls = .ok (v, rest)) :
    ∃ used, ls = used ++ rest ∧ ValueLines c text v used := by
  match fuel with
  | fuel + 1 =>
    simp only [value] at h
    split at h
    · rename_i hempty
      rw [List.isEmpty_iff.1 hempty]
      exact valueLines_of_nested (by omega) h
    · rename_i hfilled
      cases hscalar : scalar text with
      | error problem => simp [hscalar, Line.lift] at h
      | ok v' =>
        simp only [hscalar, Line.lift, Except.ok.injEq, Prod.mk.injEq] at h
        obtain ⟨rfl, rfl⟩ := h
        exact ⟨[], rfl, .scalar (by simpa using hfilled) hscalar⟩

theorem valueLines_of_nested {fuel c : Nat} {v : Tree} {ls rest : List Line}
    (hf : 6 * ls.length + 5 ≤ fuel) (h : nested fuel c ls = .ok (v, rest)) :
    ∃ used, ls = used ++ rest ∧ ValueLines c [] v used := by
  match fuel, ls with
  | fuel + 1, [] =>
    simp only [nested, Except.ok.injEq, Prod.mk.injEq] at h
    obtain ⟨rfl, rfl⟩ := h
    exact ⟨[], rfl, .null⟩
  | fuel + 1, line :: below =>
    by_cases hdeeper : line.indent > c
    · simp only [nested, if_pos hdeeper] at h
      obtain ⟨used, hused, hblock⟩ := blockLines_of_block rfl (by omega) h
      exact ⟨used, hused, .deeper hdeeper hblock⟩
    -- Only items may stand at the column of their key.
    by_cases hlevel : line.indent = c ∧ isItem line.text = true
    · rw [nested_of_level hlevel.1 hlevel.2] at h
      obtain ⟨vs, hseq, rfl⟩ := exists_of_map_eq_ok h
      obtain ⟨_, used, rfl, hused, hitems, hends⟩ := itemLines_of_sequence (by omega) hseq
      exact ⟨used, hused, .level hitems (hitems.filled_of_ends hused hlevel hends)⟩
    · simp only [nested, if_neg hdeeper, if_neg hlevel, Except.ok.injEq, Prod.mk.injEq] at h
      obtain ⟨rfl, rfl⟩ := h
      exact ⟨[], rfl, .null⟩

/-- What is read as a block at the column of its first line is built as one. -/
theorem blockLines_of_block {fuel c : Nat} {v : Tree} {line : Line} {below rest : List Line}
    (hc : line.indent = c) (hf : 6 * (line :: below).length + 4 ≤ fuel)
    (h : block fuel c (line :: below) = .ok (v, rest)) :
    ∃ used, line :: below = used ++ rest ∧ BlockLines c v used := by
  match fuel with
  | fuel + 1 =>
    cases hitem : isItem line.text with
    | true =>
      rw [block_of_item hitem] at h
      obtain ⟨vs, hseq, rfl⟩ := exists_of_map_eq_ok h
      obtain ⟨_, used, rfl, hused, hitems, hends⟩ := itemLines_of_sequence (by omega) hseq
      exact ⟨used, hused, .sequence hitems (hitems.filled_of_ends hused ⟨hc, hitem⟩ hends)⟩
    | false =>
      rw [block_of_plain hitem] at h
      obtain ⟨es, hmap, rfl⟩ := exists_of_map_eq_ok h
      obtain ⟨_, used, rfl, hused, hentries, hdistinct, hends⟩ :=
        entryLines_of_mapping (by omega) .nil hmap
      exact ⟨used, hused, .mapping hentries (hentries.filled_of_ends hused (by omega) hends)
        hdistinct⟩

/-- What is read as a sequence is built as items, and goes on until no further item follows. -/
theorem itemLines_of_sequence {fuel c : Nat} {read vs' : List Tree} {ls rest : List Line}
    (hf : 6 * ls.length + 3 ≤ fuel) (h : sequence fuel c read ls = .ok (vs', rest)) :
    ∃ vs used, vs' = read ++ vs ∧ ls = used ++ rest ∧ ItemLines c vs used ∧
      ∀ l ∈ rest.head?, ¬(l.indent = c ∧ isItem l.text = true) := by
  match fuel, ls with
  | fuel + 1, [] =>
    simp only [sequence, Except.ok.injEq, Prod.mk.injEq] at h
    obtain ⟨rfl, rfl⟩ := h
    exact ⟨[], [], by simp, rfl, .nil, by simp⟩
  | fuel + 1, line :: below =>
    simp only [List.length_cons] at hf
    simp only [sequence] at h
    split at h
    · rename_i here
      cases hitem : item fuel line below with
      | error fault => simp [hitem] at h
      | ok result =>
        obtain ⟨v, others⟩ := result
        simp only [hitem] at h
        -- An item leaves no more lines than there were, so that the fuel lasts for the other items.
        obtain ⟨used, hused, hline⟩ := itemLine_of_item (by omega) hitem
        have hlen : others.length ≤ below.length := by simp [hused]
        obtain ⟨vs, usedAfter, hvs, hafter, hitems, hends⟩ := itemLines_of_sequence (by omega) h
        refine ⟨v :: vs, line :: (used ++ usedAfter), by simp [hvs],
          by simp [hused, hafter], ?_, hends⟩
        exact .cons here.1 here.2 hline hitems
    · rename_i hends
      simp only [Except.ok.injEq, Prod.mk.injEq] at h
      obtain ⟨rfl, rfl⟩ := h
      exact ⟨[], [], by simp, rfl, .nil, by simpa using hends⟩

/-- What is read as an item is built as one. -/
theorem itemLine_of_item {fuel : Nat} {line : Line} {v : Tree} {ls rest : List Line}
    (hf : 6 * ls.length + 8 ≤ fuel)
    (h : item fuel line ls = .ok (v, rest)) : ∃ used, ls = used ++ rest ∧ ItemLine line v used := by
  match fuel with
  | fuel + 1 =>
    by_cases hbare : line.itemText = []
    · unfold item at h
      rw [if_pos (List.isEmpty_iff.2 hbare)] at h
      match ls with
      | [] =>
        simp only [Except.ok.injEq, Prod.mk.injEq] at h
        obtain ⟨rfl, rfl⟩ := h
        exact ⟨[], rfl, .null hbare⟩
      | next :: below =>
        dsimp only at h
        split at h
        · rename_i hdeeper
          obtain ⟨used, hused, hblock⟩ := blockLines_of_block rfl (by omega) h
          exact ⟨used, hused, .deeper hbare hdeeper hblock⟩
        · simp only [Except.ok.injEq, Prod.mk.injEq] at h
          obtain ⟨rfl, rfl⟩ := h
          exact ⟨[], rfl, .null hbare⟩
    cases hcut : cutKey line.itemText with
    | some cut =>
      have hcolon : (cutKey line.itemText).isSome = true := by rw [hcut]; rfl
      rw [item_of_colon (List.isEmpty_eq_false_iff.2 hbare) hcolon] at h
      obtain ⟨es, hmap, rfl⟩ := exists_of_map_eq_ok h
      obtain ⟨_, used, rfl, hused, hentries, hdistinct, hends⟩ :=
        entryLines_of_mapping (by simp only [List.length_cons]; omega) .nil hmap
      -- The mapping does not end before the line at its own column, so it has taken that line.
      have hone := hentries.filled_of_ends hused (Nat.le_refl _) hends
      obtain ⟨first, below, rfl, -, -⟩ := hentries.exists_cons hone
      obtain ⟨rfl, rfl⟩ := List.cons.inj hused
      exact ⟨below, rfl, .mapping hcolon hentries hdistinct⟩
    | none =>
      unfold item at h
      rw [if_neg (by simpa using hbare), hcut] at h
      cases hscalar : scalar line.itemText with
      | error problem => simp [hscalar, Line.lift] at h
      | ok v' =>
        simp only [hscalar, Line.lift, Option.isSome_none, Bool.false_eq_true, if_false,
          Except.ok.injEq, Prod.mk.injEq] at h
        obtain ⟨rfl, rfl⟩ := h
        exact ⟨[], rfl, .scalar hbare hcut hscalar⟩

end

/-- Lines are read as a block exactly if they are built as the entries of a mapping. -/
theorem readBlock_eq_ok_iff {lines : List Line} {v : Tree} :
    readBlock lines = .ok v ↔
      ∃ c es, v = .mapping es ∧ EntryLines c es lines ∧ DistinctKeys es := by
  constructor
  · intro h
    unfold readBlock at h
    dsimp only at h
    split at h
    · simp at h
    · rename_i c es hmap
      obtain ⟨es', used, hes, hused, hentries, hdistinct, -⟩ :=
        entryLines_of_mapping (by simp [fuelFor]) .nil hmap
      rw [List.nil_append] at hes
      rw [List.append_nil] at hused
      subst hes hused
      exact ⟨_, es, (Except.ok.inj h).symm, hentries, hdistinct⟩
    · simp at h
  · rintro ⟨c, es, rfl, hentries, hdistinct⟩
    -- No line is left that could go on with the mapping.
    have ends : EndsMapping c [] := by simp [EndsMapping]
    have hmap := hentries.mapping_eq (fuelFor lines) [] (by simp [fuelFor]) hdistinct ends
    rw [List.append_nil, List.nil_append] at hmap
    cases hentries with
    | nil => simp [readBlock, mapping, fuelFor]
    | cons column plain entry value others =>
      simp only [readBlock, column, hmap]

/-- A text is accepted only if its significant lines make a block. -/
theorem readTree_eq_ok {text : List Char} {v : Tree} (h : readTree text = .ok v) :
    ∃ ls c, significantLines text = .ok ls ∧ BlockLines c v ls := by
  rw [readTree] at h
  split at h
  · simp at h
  · simp at h
  · rename_i ls hne hls
    split at h
    · simp at h
    · rename_i tree hread
      obtain rfl := Except.ok.inj h
      obtain ⟨c, es, rfl, hentries, hdistinct⟩ := readBlock_eq_ok_iff.1 hread
      refine ⟨ls, c, hls, .mapping hentries ?_ hdistinct⟩
      rintro rfl
      cases hentries
      exact hne rfl

end Workflow.Outline
