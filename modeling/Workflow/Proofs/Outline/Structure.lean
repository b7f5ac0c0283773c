import Workflow.Outline.Block
/-!
Which lines make which block of an outline, apart from the reading of them. The reader takes exactly
the lines that are so built: from the relation follows what it returns, and from what it returns the
relation.
-/

namespace Workflow.Outline

def DistinctKeys (entries : List (Tree × Tree)) : Prop :=
  entries.Pairwise fun a b => a.1.same b.1 = false

instance : DecidablePred DistinctKeys := fun entries =>
  inferInstanceAs (Decidable (entries.Pairwise fun a b => a.1.same b.1 = false))

mutual

inductive EntryLines : (c : Nat) → List (Tree × Tree) → List Line → Prop
  | nil {c : Nat} : EntryLines c [] []
  | cons {c : Nat} {l : Line} {e : Entry} {v : Tree} {below rest : List Line}
      {es : List (Tree × Tree)} (column : l.indent = c) (plain : isItem l.text = false)
      (entry : readEntry l.text = .ok e) (value : ValueLines c e.rest v below)
      (others : EntryLines c es rest) :
      EntryLines c ((e.key, v) :: es) (l :: (below ++ rest))

/-- The value of a key at column `c` with `text` behind its colon, and the lines below the key that
belong to it. -/
inductive ValueLines : (c : Nat) → (text : List Char) → Tree → List Line → Prop
  | scalar {c : Nat} {text : List Char} {v : Tree} (filled : text ≠ [])
      (read : scalar text = .ok v) :
      ValueLines c text v []
  | null {c : Nat} : ValueLines c [] .null []
  | deeper {c d : Nat} {v : Tree} {below : List Line} (column : c < d)
      (block : BlockLines d v below) :
      ValueLines c [] v below
  | level {c : Nat} {vs : List Tree} {below : List Line} (items : ItemLines c vs below)
      (filled : vs ≠ []) : ValueLines c [] (.sequence vs) below

inductive BlockLines : (c : Nat) → Tree → List Line → Prop
  | mapping {c : Nat} {es : List (Tree × Tree)} {ls : List Line} (entries : EntryLines c es ls)
      (filled : es ≠ []) (distinct : DistinctKeys es) : BlockLines c (.mapping es) ls
  | sequence {c : Nat} {vs : List Tree} {ls : List Line} (items : ItemLines c vs ls)
      (filled : vs ≠ []) : BlockLines c (.sequence vs) ls

inductive ItemLines : (c : Nat) → List Tree → List Line → Prop
  | nil {c : Nat} : ItemLines c [] []
  | cons {c : Nat} {l : Line} {v : Tree} {below rest : List Line} {vs : List Tree}
      (column : l.indent = c) (hyphen : isItem l.text = true) (item : ItemLine l v below)
      (others : ItemLines c vs rest) : ItemLines c (v :: vs) (l :: (below ++ rest))

/-- An item that begins with the line `l`, and the lines below `l` that belong to it. -/
inductive ItemLine : (l : Line) → Tree → List Line → Prop
  | null {l : Line} (bare : l.itemText = []) : ItemLine l .null []
  | deeper {l : Line} {d : Nat} {v : Tree} {below : List Line} (bare : l.itemText = [])
      (column : l.indent < d) (block : BlockLines d v below) : ItemLine l v below
  | mapping {l : Line} {es : List (Tree × Tree)} {below : List Line}
      (colon : (cutKey l.itemText).isSome = true)
      (entries : EntryLines l.unfold.indent es (l.unfold :: below)) (distinct : DistinctKeys es) :
      ItemLine l (.mapping es) below
  | scalar {l : Line} {v : Tree} (filled : l.itemText ≠ []) (plain : cutKey l.itemText = none)
      (read : scalar l.itemText = .ok v) : ItemLine l v []

end

/-- The lines `rest` do not go on with a mapping at column `c`. -/
def EndsMapping (c : Nat) (rest : List Line) : Prop :=
  ∀ l ∈ rest.head?, l.indent < c

/-- The lines `rest` do not go on with a sequence at column `c`, nor with anything deeper. -/
def EndsSequence (c : Nat) (rest : List Line) : Prop :=
  ∀ l ∈ rest.head?, l.indent < c ∨ l.indent = c ∧ isItem l.text = false

theorem EndsMapping.endsSequence {c : Nat} {rest : List Line} (h : EndsMapping c rest) :
    EndsSequence c rest :=
  fun l hl => Or.inl (h l hl)

theorem EndsSequence.endsMapping {c d : Nat} {rest : List Line} (h : EndsSequence c rest)
    (hd : c < d) :
    EndsMapping d rest := by
  intro l hl
  rcases h l hl with hlt | ⟨heq, -⟩ <;> omega

/-- After an entry comes another one at the same column, or the mapping ends. -/
theorem EntryLines.endsSequence {c : Nat} {es : List (Tree × Tree)} {ls rest : List Line}
    (h : EntryLines c es ls) (hr : EndsMapping c rest) : EndsSequence c (ls ++ rest) := by
  cases h with
  | nil => exact hr.endsSequence
  | cons column plain _ _ _ =>
    intro l hl
    simp only [List.cons_append, List.head?_cons, Option.mem_def, Option.some.injEq] at hl
    exact Or.inr (hl ▸ ⟨column, plain⟩)

theorem EndsMapping.append {d : Nat} {ls rest : List Line} (h : EndsMapping d ls)
    (hr : EndsMapping d rest) : EndsMapping d (ls ++ rest) := by
  cases ls with
  | nil => exact hr
  | cons l below => exact h

/-- Entries do not go on with a mapping further in, unless what follows them does. The same holds of
items. -/
theorem EntryLines.endsMapping {c d : Nat} {es : List (Tree × Tree)} {ls rest : List Line}
    (h : EntryLines c es ls) (hd : c < d) (hr : EndsMapping d rest) :
    EndsMapping d (ls ++ rest) := by
  refine EndsMapping.append (fun l hl => ?_) hr
  cases h with
  | nil => simp at hl
  | cons column _ _ _ _ =>
    obtain rfl := Option.some.inj hl
    exact column ▸ hd

theorem ItemLines.endsMapping {c d : Nat} {vs : List Tree} {ls rest : List Line}
    (h : ItemLines c vs ls) (hd : c < d) (hr : EndsMapping d rest) :
    EndsMapping d (ls ++ rest) := by
  refine EndsMapping.append (fun l hl => ?_) hr
  cases h with
  | nil => simp at hl
  | cons column _ _ _ =>
    obtain rfl := Option.some.inj hl
    exact column ▸ hd

theorem EndsMapping.mono {c d : Nat} {rest : List Line} (h : EndsMapping c rest) (hcd : c ≤ d) :
    EndsMapping d rest :=
  fun l hl => Nat.lt_of_lt_of_le (h l hl) hcd

theorem EntryLines.exists_cons {c : Nat} {es : List (Tree × Tree)} {ls : List Line}
    (h : EntryLines c es ls) (filled : es ≠ []) :
    ∃ l below, ls = l :: below ∧ l.indent = c ∧ isItem l.text = false := by
  cases h with
  | nil => exact absurd rfl filled
  | cons column plain _ _ _ => exact ⟨_, _, rfl, column, plain⟩

theorem ItemLines.exists_cons {c : Nat} {vs : List Tree} {ls : List Line} (h : ItemLines c vs ls)
    (filled : vs ≠ []) : ∃ l below, ls = l :: below ∧ l.indent = c ∧ isItem l.text = true := by
  cases h with
  | nil => exact absurd rfl filled
  | cons column hyphen _ _ => exact ⟨_, _, rfl, column, hyphen⟩

/-- A block has a first line, at its column. -/
theorem BlockLines.exists_cons {c : Nat} {v : Tree} {ls : List Line} (h : BlockLines c v ls) :
    ∃ l below, ls = l :: below ∧ l.indent = c := by
  cases h with
  | mapping entries filled _ =>
    obtain ⟨l, below, hls, hl, -⟩ := entries.exists_cons filled
    exact ⟨l, below, hls, hl⟩
  | sequence items filled =>
    obtain ⟨l, below, hls, hl, -⟩ := items.exists_cons filled
    exact ⟨l, below, hls, hl⟩

/-- If a line that does not end the mapping stands first, there is an entry. -/
theorem EntryLines.filled_of_ends {c : Nat} {es : List (Tree × Tree)} {l : Line}
    {ls used rest : List Line} (h : EntryLines c es used) (hls : l :: ls = used ++ rest)
    (hl : c ≤ l.indent) (ends : EndsMapping c rest) : es ≠ [] := by
  rintro rfl
  cases h with
  | nil =>
    have hlt : l.indent < c := ends l (by rw [← List.nil_append rest, ← hls]; rfl)
    omega

theorem ItemLines.filled_of_ends {c : Nat} {vs : List Tree} {l : Line} {ls used rest : List Line}
    (h : ItemLines c vs used) (hls : l :: ls = used ++ rest)
    (hl : l.indent = c ∧ isItem l.text = true)
    (ends : ∀ l ∈ rest.head?, ¬(l.indent = c ∧ isItem l.text = true)) : vs ≠ [] := by
  rintro rfl
  cases h with
  | nil => exact ends l (by rw [← List.nil_append rest, ← hls]; rfl) hl

/-- A line is read as an entry only if there is a key in front of its colon. -/
theorem readEntry_eq_ok {text : List Char} {e : Entry} (h : readEntry text = .ok e) :
    ∃ key rest, cutKey text = some (key, rest) ∧ Text.trim key ≠ [] ∧
      scalar (Text.trim key) = .ok e.key ∧
      e.rest = Text.trim rest := by
  rw [readEntry] at h
  split at h
  · simp at h
  · rename_i key rest hcut
    dsimp only at h
    split at h
    · simp at h
    · rename_i hfilled
      split at h
      · rename_i k hscalar
        obtain rfl := Except.ok.inj h
        exact ⟨key, rest, hcut, by simpa using hfilled, hscalar, rfl⟩
      · simp at h

theorem hasKey_eq_false_iff {entries : List (Tree × Tree)} {key : Tree} :
    Tree.hasKey entries key = false ↔ ∀ e ∈ entries, e.1.same key = false := by
  simp [Tree.hasKey]

theorem distinctKeys_append_singleton {read : List (Tree × Tree)} {e : Tree × Tree} :
    DistinctKeys (read ++ [e]) ↔ DistinctKeys read ∧ Tree.hasKey read e.1 = false := by
  simp only [DistinctKeys, List.pairwise_append, List.pairwise_singleton, true_and,
    List.mem_singleton, forall_eq, hasKey_eq_false_iff]

theorem DistinctKeys.of_append_left {xs ys : List (Tree × Tree)} (h : DistinctKeys (xs ++ ys)) :
    DistinctKeys xs :=
  (List.pairwise_append.1 h).1

/-- Without its hyphen an item stands further in. -/
theorem Line.unfold_indent_lt {l : Line} (h : isItem l.text = true) :
    l.indent < l.unfold.indent := by
  have hlen : l.itemText.length < l.text.length := by
    have hdrop : l.itemText.length ≤ (l.text.drop 1).length :=
      (List.dropWhile_suffix _).length_le
    have hpos : 0 < l.text.length := by
      cases ht : l.text with
      | nil => simp [ht, isItem] at h
      | cons => simp
    rw [List.length_drop] at hdrop
    omega
  simp only [Line.unfold]
  omega

end Workflow.Outline
