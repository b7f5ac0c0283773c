import Workflow.Yaml.Scan

namespace Workflow.Yaml

theorem unifyBreaks_of_ne {c : Char} {r : List Char} (h : c ≠ '\r') :
    unifyBreaks (c :: r) = (if c = '\u0085' then '\n' else c) :: unifyBreaks r := by
  rw [unifyBreaks.eq_def]
  split
  · contradiction
  · simp_all
  · simp_all

/-- Where no other break than a line feed is, there is nothing to make alike. -/
theorem unifyBreaks_eq_self {s : List Char} (h : ∀ c ∈ s, c ≠ '\r' ∧ c ≠ '\u0085') :
    unifyBreaks s = s := by
  induction s with
  | nil => rfl
  | cons c r ih =>
    obtain ⟨hreturn, hnext⟩ := h c List.mem_cons_self
    rw [unifyBreaks_of_ne hreturn, if_neg hnext, ih fun x hx => h x (List.mem_cons_of_mem _ hx)]

theorem octetCount_foldl (s : List Char) (n : Nat) :
    s.foldl (fun n c => n + c.utf8Size) n = n + octetCount s := by
  induction s generalizing n with
  | nil => rfl
  | cons c r ih =>
    have hr : octetCount (c :: r) = c.utf8Size + octetCount r := by
      rw [octetCount, List.foldl_cons, Nat.zero_add, ih]
    rw [List.foldl_cons, ih, hr, Nat.add_assoc]

@[simp]
theorem octetCount_nil : octetCount [] = 0 := rfl

theorem octetCount_cons (c : Char) (r : List Char) :
    octetCount (c :: r) = c.utf8Size + octetCount r := by
  rw [octetCount, List.foldl_cons, Nat.zero_add, octetCount_foldl]

theorem octetCount_append (s t : List Char) :
    octetCount (s ++ t) = octetCount s + octetCount t := by
  rw [octetCount, List.foldl_append, octetCount_foldl, octetCount_foldl]
  simp

theorem octetCount_blanks {s : List Char} (h : ∀ c ∈ s, isBlank c = true) :
    octetCount s = s.length := by
  induction s with
  | nil => rfl
  | cons c s ih =>
    have hs := ih fun x hx => h x (List.mem_cons_of_mem _ hx)
    have hc : c = ' ' ∨ c = '\t' := by simpa [isBlank] using h c List.mem_cons_self
    have hsize : c.utf8Size = 1 := by rcases hc with rfl | rfl <;> decide
    rw [octetCount_cons, hs, hsize, List.length_cons, Nat.add_comm]

theorem octetCount_replicate (n : Nat) : octetCount (List.replicate n ' ') = n := by
  rw [octetCount_blanks, List.length_replicate]
  intro c hc
  rw [List.eq_of_mem_replicate hc]
  decide

namespace Cursor

@[simp]
theorem skip_rest (c : Cursor) (n : Nat) : (c.skip n).rest = c.rest.drop n := rfl

@[simp]
theorem skip_line (c : Cursor) (n : Nat) : (c.skip n).line = c.line := rfl

@[simp]
theorem skip_column (c : Cursor) (n : Nat) : (c.skip n).column = c.column + n := rfl

@[simp]
theorem skip_zero (c : Cursor) : c.skip 0 = c := rfl

theorem skip_skip (c : Cursor) (m n : Nat) : (c.skip m).skip n = c.skip (m + n) := by
  have htake : c.rest.take (m + n) = c.rest.take m ++ (c.rest.drop m).take n := List.take_add
  simp only [skip, List.drop_drop, htake, octetCount_append, Nat.add_assoc]

/-- The offset grows by the octets that are skipped. -/
theorem skip_offset {c : Cursor} {s t : List Char} (h : c.rest = s ++ t) :
    (c.skip s.length).offset = c.offset + octetCount s := by
  simp only [skip, h, List.take_left]

theorem skip_rest_of_append {c : Cursor} {s t : List Char} (h : c.rest = s ++ t) :
    (c.skip s.length).rest = t := by
  rw [skip_rest, h, List.drop_left]

/-- No marker of documents stands behind the first column. -/
theorem atMarker_of_column {c : Cursor} (h : 0 < c.column) : c.atMarker = false := by
  have hcolumn : (c.column == 0) = false := by
    rw [beq_eq_false_iff_ne]
    omega
  rw [atMarker, hcolumn, Bool.false_and]

/-- A mark of documents is three hyphens or three dots at the start of a line. -/
theorem atMarker_iff {c : Cursor} :
    c.atMarker = true ↔
      c.column = 0 ∧ ∃ x r, (x = '-' ∨ x = '.') ∧ c.rest = x :: x :: x :: r ∧ atGap r = true := by
  rw [atMarker, Bool.and_eq_true, beq_iff_eq]
  refine and_congr_right fun _ => ⟨fun h => ?_, ?_⟩
  · split at h
    · exact ⟨'-', _, Or.inl rfl, ‹_›, h⟩
    · exact ⟨'.', _, Or.inr rfl, ‹_›, h⟩
    · simp at h
  · rintro ⟨x, r, rfl | rfl, hrest, hgap⟩
    · rw [hrest]
      exact hgap
    · rw [hrest]
      exact hgap

end Cursor

def OneLine (s : List Char) : Prop :=
  ∀ c ∈ s, isBreak c = false

instance : DecidablePred OneLine := fun s =>
  decidable_of_iff (s.all (fun c => !isBreak c) = true) (by simp [OneLine])

theorem OneLine.of_append_right {s t : List Char} (h : OneLine (s ++ t)) : OneLine t :=
  fun c hc => h c (List.mem_append_right s hc)

theorem OneLine.append {s t : List Char} (hs : OneLine s) (ht : OneLine t) : OneLine (s ++ t) := by
  intro c hc
  rcases List.mem_append.1 hc with h | h
  · exact hs c h
  · exact ht c h

def StartsToken (s : List Char) : Prop :=
  ∃ x r, s = x :: r ∧ isGap x = false ∧ x ≠ '#' ∧ x ≠ byteOrderMark

namespace Scan

variable {comment allowed : Bool} {line column offset : Nat} {r : List Char}

theorem skipToToken_space :
    skipToToken false false allowed line column offset (' ' :: r) =
      skipToToken false false allowed line (column + 1) (offset + 1) r := by
  have hsize : ' '.utf8Size = 1 := by decide
  rw [skipToToken, hsize]
  simp [isBreak]

theorem skipToToken_tab :
    skipToToken false false false line column offset ('\t' :: r) =
      skipToToken false false false line (column + 1) (offset + 1) r := by
  have hsize : '\t'.utf8Size = 1 := by decide
  rw [skipToToken, hsize]
  simp [isBreak]

/-- Spaces before a token are passed. -/
theorem skipToToken_spaces (n : Nat) :
    skipToToken false false allowed line column offset (List.replicate n ' ' ++ r) =
      skipToToken false false allowed line (column + n) (offset + n) r := by
  induction n generalizing column offset with
  | zero => rfl
  | succ n ih =>
    have hcolumn : column + 1 + n = column + (n + 1) := by omega
    have hoffset : offset + 1 + n = offset + (n + 1) := by omega
    rw [List.replicate_succ, List.cons_append, skipToToken_space, ih, hcolumn, hoffset]

/-- Blanks before a token are passed where no key may begin. -/
theorem skipToToken_blanks {s : List Char} (h : ∀ c ∈ s, isBlank c = true) :
    skipToToken false false false line column offset (s ++ r) =
      skipToToken false false false line (column + s.length) (offset + s.length) r := by
  induction s generalizing column offset with
  | nil => rfl
  | cons c s ih =>
    have hcolumn : column + 1 + s.length = column + (s.length + 1) := by omega
    have hoffset : offset + 1 + s.length = offset + (s.length + 1) := by omega
    have hs := @ih (column + 1) (offset + 1) fun x hx => h x (List.mem_cons_of_mem _ hx)
    have hc : c = ' ' ∨ c = '\t' := by simpa [isBlank] using h c List.mem_cons_self
    rcases hc with rfl | rfl
    · rw [List.cons_append, skipToToken_space, hs, List.length_cons, hcolumn, hoffset]
    · rw [List.cons_append, skipToToken_tab, hs, List.length_cons, hcolumn, hoffset]

/-- A comment is passed up to the end of its line. -/
theorem skipToToken_comment {note : List Char} (h : OneLine note) :
    ∃ column' offset', skipToToken false true allowed line column offset (note ++ r) =
      skipToToken false true allowed line column' offset' r := by
  induction note generalizing column offset with
  | nil => exact ⟨column, offset, rfl⟩
  | cons c s ih =>
    obtain ⟨column', offset', hs⟩ := @ih (column + 1) (offset + c.utf8Size)
      fun x hx => h x (List.mem_cons_of_mem _ hx)
    refine ⟨column', offset', ?_⟩
    rw [List.cons_append, skipToToken, h c List.mem_cons_self]
    simpa using hs

theorem skipToToken_hash :
    skipToToken false comment allowed line column offset ('#' :: r) =
      skipToToken false true allowed line (column + 1) (offset + 1) r := by
  have hsize : '#'.utf8Size = 1 := by decide
  rw [skipToToken, hsize]
  simp [isBreak]

/-- After a break a key may begin. -/
theorem skipToToken_break :
    skipToToken false comment allowed line column offset ('\n' :: r) =
      skipToToken false false true (line + 1) 0 0 r := by
  rw [skipToToken]
  simp [isBreak]

/-- A character that begins a token is not passed. -/
theorem skipToToken_of_token {x : Char} (hgap : isGap x = false) (hhash : x ≠ '#')
    (hmark : column = 0 → x ≠ byteOrderMark) :
    skipToToken false false allowed line column offset (x :: r) =
      (allowed, ⟨x :: r, line, column, offset⟩) := by
  have hmark' : (column == 0 && x == byteOrderMark) = false := by
    rw [← Bool.not_eq_true]
    simpa using hmark
  simp only [isGap, isBlank, Bool.or_eq_false_iff, beq_eq_false_iff_ne] at hgap
  obtain ⟨⟨hspace, htab⟩, hbreak⟩ := hgap
  rw [skipToToken, hbreak, hmark']
  simp [hspace, htab, hhash]

/-- Moving to a token takes characters away and adds none. -/
theorem skipToToken_length (inFlow comment allowed : Bool) (line column offset : Nat)
    (r : List Char) :
    (skipToToken inFlow comment allowed line column offset r).2.rest.length ≤ r.length := by
  induction r generalizing comment allowed line column offset with
  | nil => exact Nat.zero_le _
  | cons x r ih =>
    have hlater := Nat.le_succ r.length
    rw [skipToToken]
    split
    · exact Nat.le_trans (ih ..) hlater
    · split
      · exact Nat.le_trans (ih ..) hlater
      · split
        · exact Nat.le_trans (ih ..) hlater
        · exact Nat.le_refl _

/-- Within a line the scanner does not go back to the first column. -/
theorem skipToToken_column (inFlow comment allowed : Bool) (line column offset : Nat)
    {r : List Char} (h : OneLine r) :
    column ≤ (skipToToken inFlow comment allowed line column offset r).2.column := by
  induction r generalizing comment allowed line column offset with
  | nil => exact Nat.le_refl _
  | cons x r ih =>
    have hr : OneLine r := fun c hc => h c (List.mem_cons_of_mem _ hc)
    rw [skipToToken, h x List.mem_cons_self]
    simp only [Bool.false_eq_true, if_false]
    split
    · exact Nat.le_trans (Nat.le_succ _) (ih _ _ _ _ _ hr)
    · split
      · exact Nat.le_trans (Nat.le_succ _) (ih _ _ _ _ _ hr)
      · exact Nat.le_refl _

end Scan

/-- Where the scanner goes from a cursor outside flow collections: whether a key may begin there,
and the place. -/
def reach (allowed : Bool) (c : Cursor) : Bool × Cursor :=
  Scan.skipToToken false false allowed c.line c.column c.offset c.rest

theorem reach_length (allowed : Bool) (c : Cursor) :
    (reach allowed c).2.rest.length ≤ c.rest.length :=
  Scan.skipToToken_length ..

/-- Where a token begins the scanner stays. -/
theorem reach_of_token {allowed : Bool} {c : Cursor} {x : Char} {r : List Char}
    (hc : c.rest = x :: r) (hgap : isGap x = false) (hhash : x ≠ '#')
    (hmark : c.column = 0 → x ≠ byteOrderMark) :
    reach allowed c = (allowed, c) := by
  rw [reach, hc, Scan.skipToToken_of_token hgap hhash hmark, ← hc]

end Workflow.Yaml
