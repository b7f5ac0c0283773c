import Workflow.Proofs.Outline.Truncation
import Workflow.Proofs.Text.Trim
import Workflow.Proofs.Tree
import Mathlib.Data.List.Basic

namespace Workflow

namespace Text

theorem trimEnd_of_trim {s : List Char} (h : trim s = []) : trimEnd s = [] := by
  have hblank : ∀ c ∈ s, isBlank c = true := by
    intro c hc
    rw [← takeWhile_eq_self_of_trim h] at hc
    exact List.mem_takeWhile_imp hc
  have htrim := trimEnd_append_of_blank (s := []) hblank
  simpa [trimEnd, dropEndWhile] using htrim

/-- Trimming the end first changes nothing. -/
theorem trim_trimEnd (s : List Char) : trim (trimEnd s) = trim s := by
  have hsplit : trimEnd s ++ s.rtakeWhile isBlank = s := by
    rw [trimEnd, dropEndWhile_eq_rdropWhile, List.rdropWhile_append_rtakeWhile]
  have hblank : ∀ c ∈ s.rtakeWhile isBlank, isBlank c = true :=
    fun c hc => List.mem_rtakeWhile_imp hc
  -- Blanks at the end are in the way of trimming the start only if there is nothing else.
  have hstart : trimEnd (trimStart (trimEnd s ++ s.rtakeWhile isBlank)) =
      trimEnd (trimStart (trimEnd s)) := by
    rw [trimStart, trimStart, List.dropWhile_append]
    split
    · rename_i hnone
      rw [List.isEmpty_iff.1 hnone, List.dropWhile_eq_nil_iff.2 hblank]
    · exact trimEnd_append_of_blank hblank
  rw [hsplit] at hstart
  exact hstart.symm

end Text

namespace Outline

theorem trimStart_dropSpaces (s : List Char) :
    Text.trimStart (dropSpaces s) = Text.trimStart s := by
  induction s with
  | nil => rfl
  | cons c s ih =>
    by_cases hc : c = ' '
    · subst hc
      exact ih
    · rw [dropSpaces, List.dropWhile_cons_of_neg (by simpa using hc)]

/-- The body of a line is what the scanner sees on it, but for white space. -/
theorem trim_dropSpaces_content (line : List Char) :
    Text.trim (dropSpaces (content line)) = Text.trim (stripComment line) := by
  have hspaces : Text.trim (dropSpaces (content line)) = Text.trim (content line) := by
    rw [Text.trim, trimStart_dropSpaces, ← Text.trim]
  rw [hspaces, content, Text.trim_trimEnd]

/-- A line that is left out in the search for the head: nothing but a comment, white space or a
marker. -/
def Dropped (line : List Char) : Prop :=
  Text.trim (stripComment line) = [] ∨ Text.trim (stripComment line) = marker

instance : DecidablePred Dropped := fun line =>
  inferInstanceAs
  (Decidable (Text.trim (stripComment line) = [] ∨ Text.trim (stripComment line) = marker))

structure FirstRemaining (lines before : List (List Char)) (head : List Char) : Prop where
  dropped : ∀ line ∈ before, Dropped line
  remains : ¬Dropped head
  here : before ++ [head] <+: lines

/-- The number `k` is that of a line with something on it, where the lines are counted from
`first`. -/
def FilledAt (first : Nat) (lines : List (List Char)) (k : Nat) : Prop :=
  ∃ i line, lines[i]? = some line ∧ k = first + i ∧ Text.trim (stripComment line) ≠ []

theorem isVoid_iff {body : List Char} : isVoid body = true ↔ body = [] ∨ body = marker := by
  simp [isVoid]

theorem dropped_iff {line : List Char} :
    Dropped line ↔ isVoid (Text.trim (stripComment line)) = true :=
  isVoid_iff.symm

/-- All lines are left out, or there is a first one that is not. -/
theorem dropped_or_firstRemaining (lines : List (List Char)) :
    (∀ line ∈ lines, Dropped line) ∨ ∃ before head, FirstRemaining lines before head := by
  induction lines with
  | nil => exact Or.inl (by simp)
  | cons line lines ih =>
    by_cases hline : Dropped line
    · rcases ih with hall | ⟨before, head, h⟩
      · exact Or.inl (List.forall_mem_cons.2 ⟨hline, hall⟩)
      · exact Or.inr ⟨line :: before, head, List.forall_mem_cons.2 ⟨hline, h.dropped⟩, h.remains,
          List.cons_prefix_cons.2 ⟨rfl, h.here⟩⟩
    · exact Or.inr ⟨[], line, by simp, hline, ⟨lines, rfl⟩⟩

theorem hasMappingHead_of_dropped {text : List Char} (h : ∀ line ∈ Text.lines text, Dropped line) :
    hasMappingHead text = false := by
  have hnone : (bodies text).find? (fun body => !isVoid body) = none := by
    simp only [bodies, List.find?_map, Option.map_eq_none_iff, List.find?_eq_none,
      Function.comp_apply]
    intro line hline
    simp [dropped_iff.1 (h line hline)]
  rw [hasMappingHead, hnone]

theorem FirstRemaining.hasMappingHead_eq {text : List Char} {before : List (List Char)}
    {head : List Char} (h : FirstRemaining (Text.lines text) before head) :
    hasMappingHead text = ((Text.trim (stripComment head)).getLast? == some ':') := by
  obtain ⟨after, hlines⟩ := h.here
  have hbefore : (before.map fun line => Text.trim (stripComment line)).find?
      (fun body => !isVoid body) = none := by
    simp only [List.find?_map, Option.map_eq_none_iff, List.find?_eq_none, Function.comp_apply]
    intro line hline
    simp [dropped_iff.1 (h.dropped line hline)]
  have hhead : isVoid (Text.trim (stripComment head)) = false := by
    simpa using fun hvoid => h.remains (dropped_iff.2 hvoid)
  have hfind : (bodies text).find? (fun body => !isVoid body) =
      some (Text.trim (stripComment head)) := by
    rw [bodies, ← hlines, List.append_assoc, List.map_append, List.find?_append, hbefore,
      Option.none_or]
    simp [hhead]
  rw [hasMappingHead, hfind]

theorem hasMappingHead_eq_false_iff {text : List Char} :
    hasMappingHead text = false ↔ (∀ line ∈ Text.lines text, Dropped line) ∨
      ∃ before head, FirstRemaining (Text.lines text) before head ∧
        (Text.trim (stripComment head)).getLast? ≠ some ':' := by
  constructor
  · intro h
    rcases dropped_or_firstRemaining (Text.lines text) with hdropped | ⟨before, head, hfirst⟩
    · exact Or.inl hdropped
    · rw [hfirst.hasMappingHead_eq] at h
      exact Or.inr ⟨before, head, hfirst, by simpa using h⟩
  · rintro (hdropped | ⟨before, head, hfirst, hlast⟩)
    · exact hasMappingHead_of_dropped hdropped
    · rw [hfirst.hasMappingHead_eq]
      simpa using hlast

theorem exists_firstRemaining_of_head {text : List Char} (h : hasMappingHead text = true) :
    ∃ before head, FirstRemaining (Text.lines text) before head := by
  rcases dropped_or_firstRemaining (Text.lines text) with hdropped | hfirst
  · rw [hasMappingHead_of_dropped hdropped] at h
    cases h
  · exact hfirst

theorem FirstRemaining.take {lines before : List (List Char)} {head : List Char}
    (h : FirstRemaining lines before head) {m : Nat} (hm : before.length + 1 ≤ m) :
    FirstRemaining (lines.take m) before head :=
  ⟨h.dropped, h.remains, List.prefix_take_iff.2 ⟨h.here, by simpa using hm⟩⟩

theorem readLine_of_trim {line : List Char} (h : Text.trim (stripComment line) = []) (n : Nat) :
    readLine n line = .ok none := by
  have hcontent : content line = [] := Text.trimEnd_of_trim h
  simp [readLine, hcontent, dropSpaces, isVoid]

/-- Without a significant part, a line is left out in the search for the head as well. -/
theorem dropped_of_readLine {n : Nat} {line : List Char} (h : readLine n line = .ok none) :
    Dropped line := by
  have hvoid : isVoid (dropSpaces (content line)) = true := by
    unfold readLine at h
    dsimp only at h
    split at h
    · assumption
    · split at h <;> cases h
  rw [Dropped, ← trim_dropSpaces_content]
  rcases isVoid_iff.1 hvoid with hbody | hbody
  · rw [hbody]
    exact Or.inl rfl
  · rw [hbody]
    exact Or.inr (by decide)

theorem number_of_readLine {n : Nat} {line : List Char} {l : Line}
    (h : readLine n line = .ok (some l)) :
    l.number = n := by
  unfold readLine at h
  dsimp only at h
  split at h
  · cases h
  · split at h
    · cases h
    · cases h
      rfl

theorem line_of_readLine {n : Nat} {line : List Char} {f : Fault} (h : readLine n line = .error f) :
    f.line = n := by
  unfold readLine at h
  dsimp only at h
  split at h
  · cases h
  · split at h
    · cases h
      rfl
    · cases h

theorem FilledAt.here {n : Nat} {line : List Char} {lines : List (List Char)}
    (h : Text.trim (stripComment line) ≠ []) : FilledAt n (line :: lines) n :=
  ⟨0, line, rfl, rfl, h⟩

theorem FilledAt.below {n k : Nat} {line : List Char} {lines : List (List Char)}
    (h : FilledAt (n + 1) lines k) :
    FilledAt n (line :: lines) k := by
  obtain ⟨i, below, hi, rfl, hfilled⟩ := h
  exact ⟨i + 1, below, hi, by omega, hfilled⟩

/-- A line that cannot be read has something on it. -/
theorem filledAt_of_readLines_error {n : Nat} {lines : List (List Char)} {f : Fault}
    (h : readLines n lines = .error f) : FilledAt n lines f.line := by
  induction lines generalizing n with
  | nil => cases h
  | cons line lines ih =>
    rw [readLines] at h
    split at h
    · rename_i hline
      cases h
      rw [line_of_readLine hline]
      exact .here fun htrim => by simp [readLine_of_trim htrim] at hline
    · split at h
      · rename_i hlines
        cases h
        exact (ih hlines).below
      · cases h

theorem filledAt_of_mem {n : Nat} {lines : List (List Char)} {ls : List Line}
    (h : readLines n lines = .ok ls) :
    ∀ l ∈ ls, FilledAt n lines l.number := by
  induction lines generalizing n ls with
  | nil =>
    cases h
    simp
  | cons line lines ih =>
    rw [readLines] at h
    split at h
    · cases h
    · rename_i first hline
      split at h
      · cases h
      · rename_i others hlines
        cases h
        intro l hl
        -- The line comes from the first one here, or from one below.
        rcases List.mem_append.1 hl with hl | hl
        · rw [Option.mem_toList.1 hl] at hline
          rw [number_of_readLine hline]
          exact .here fun htrim => by simp [readLine_of_trim htrim] at hline
        · exact (ih hlines l hl).below

theorem readLines_append_of_error {n : Nat} {xs : List (List Char)} {f : Fault}
    (h : readLines n xs = .error f) (ys : List (List Char)) :
    readLines n (xs ++ ys) = .error f := by
  induction xs generalizing n with
  | nil => cases h
  | cons line xs ih =>
    rw [readLines] at h
    rw [List.cons_append, readLines]
    split at h
    · exact h
    · split at h
      · rename_i hxs
        rw [ih (hxs.trans h)]
      · cases h

theorem readLines_append_of_ok {n : Nat} {xs : List (List Char)} {a : List Line}
    (h : readLines n xs = .ok a) (ys : List (List Char)) :
    readLines n (xs ++ ys) = (readLines (n + xs.length) ys).map (a ++ ·) := by
  induction xs generalizing n a with
  | nil =>
    cases h
    cases hys : readLines n ys <;> simp [hys, Except.map]
  | cons line xs ih =>
    rw [readLines] at h
    split at h
    · cases h
    · rename_i first hline
      split at h
      · cases h
      · rename_i others hxs
        cases h
        rw [List.cons_append, readLines, hline, ih hxs, List.length_cons, Nat.add_right_comm]
        dsimp only
        cases readLines (n + xs.length + 1) ys <;> simp [Except.map]

theorem dropped_of_readLines_nil {n : Nat} {lines : List (List Char)}
    (h : readLines n lines = .ok []) :
    ∀ line ∈ lines, Dropped line := by
  induction lines generalizing n with
  | nil => simp
  | cons line lines ih =>
    rw [readLines] at h
    split at h
    · cases h
    · rename_i first hline
      split at h
      · cases h
      · rename_i others hlines
        obtain ⟨hfirst, rfl⟩ := List.append_eq_nil_iff.1 (Except.ok.inj h)
        rw [Option.toList_eq_nil_iff.1 hfirst] at hline
        exact List.forall_mem_cons.2 ⟨dropped_of_readLine hline, ih hlines⟩

/-- The head of a mapping is significant. -/
theorem FirstRemaining.significantLines_ne_nil {text : List Char} {before : List (List Char)}
    {head : List Char} (h : FirstRemaining (Text.lines text) before head) :
    significantLines text ≠ .ok [] := by
  intro hnil
  apply h.remains
  apply dropped_of_readLines_nil hnil head
  exact h.here.subset (List.mem_append_right before List.mem_cons_self)

/-- What makes a fault at a line: a tab, or a fault of the block. -/
theorem readTree_eq_line_iff {text : List Char} {f : Fault} :
    readTree text = .error (.line f) ↔ significantLines text = .error f ∨
      ∃ ls, significantLines text = .ok ls ∧ readBlock ls = .error f := by
  cases hls : significantLines text with
  | error g => simp [readTree, hls]
  | ok ls =>
    cases ls with
    | nil =>
      have hnone : readBlock [] ≠ .error f :=
        fun h => by simpa [Fault.On] using readBlock_fault_on h
      simp [readTree, hls, hnone]
    | cons l ls => cases hread : readBlock (l :: ls) <;> simp [readTree, hls, hread]

/-- A text with a head is read as a mapping with entries, or the fault is at a line. -/
theorem FirstRemaining.readTree_cases {text : List Char} {before : List (List Char)}
    {head : List Char} (h : FirstRemaining (Text.lines text) before head) :
    (∃ entries, entries ≠ [] ∧ readTree text = .ok (.mapping entries)) ∨
      ∃ f, readTree text = .error (.line f) ∧ FilledAt 1 (Text.lines text) f.line := by
  cases hls : significantLines text with
  | error f =>
    exact Or.inr ⟨f, readTree_eq_line_iff.2 (Or.inl hls), filledAt_of_readLines_error hls⟩
  | ok ls =>
    cases hread : readBlock ls with
    | error f =>
      obtain ⟨l, hl, hnumber⟩ := List.mem_map.1 (readBlock_fault_on hread)
      exact Or.inr ⟨f, readTree_eq_line_iff.2 (Or.inr ⟨ls, hls, hread⟩),
        hnumber ▸ filledAt_of_mem hls l hl⟩
    | ok v =>
      obtain ⟨c, entries, rfl, hlines, -⟩ := readBlock_eq_ok_iff.1 hread
      -- The line that remains is significant, so the mapping has an entry.
      have hne : ls ≠ [] := fun hnil => h.significantLines_ne_nil (hnil ▸ hls)
      refine Or.inl ⟨entries, ?_, ?_⟩
      · rintro rfl
        cases hlines
        exact hne rfl
      · obtain ⟨l, ls, rfl⟩ := List.exists_cons_of_ne_nil hne
        simp [readTree, hls, hread]

theorem FilledAt.lt_of_drop {lines : List (List Char)} {m k : Nat}
    (h : FilledAt (1 + (lines.take m).length) (lines.drop m) k) : m < k := by
  obtain ⟨i, line, hi, rfl, -⟩ := h
  have hlen : i < (lines.drop m).length := (List.getElem?_eq_some_iff.1 hi).1
  rw [List.length_drop] at hlen
  rw [List.length_take]
  omega

/-- A fault at a line stands in every text that has the same lines up to there. -/
theorem readTree_of_take {text other : List Char} {f : Fault} {m : Nat}
    (h : readTree text = .error (.line f)) (hm : f.line ≤ m)
    (hlines : Text.lines other = (Text.lines text).take m) :
    readTree other = .error (.line f) := by
  have hsplit := List.take_append_drop m (Text.lines text)
  have hbeyond (k : Nat) : FilledAt (1 + ((Text.lines text).take m).length)
      ((Text.lines text).drop m) k →
      k ≠ f.line := by
    intro hk heq
    have hlt := hk.lt_of_drop
    omega
  rw [readTree_eq_line_iff] at h ⊢
  simp only [significantLines, hlines] at h ⊢
  rw [← hsplit] at h
  cases hfirst : readLines 1 ((Text.lines text).take m) with
  | error g =>
    -- A tab among the first lines ends the reading of both texts.
    rw [readLines_append_of_error hfirst] at h
    simpa using h
  | ok before =>
    rw [readLines_append_of_ok hfirst] at h
    cases hcut : readLines (1 + ((Text.lines text).take m).length) ((Text.lines text).drop m) with
    | error g =>
      -- A tab behind them would be the fault of the whole text, at a line behind `m`.
      rw [hcut] at h
      have hg : g = f := by simpa [Except.map] using h
      exact absurd (hg ▸ rfl) (hbeyond g.line (filledAt_of_readLines_error hcut))
    | ok cut =>
      rw [hcut] at h
      have hread : readBlock (before ++ cut) = .error f := by simpa [Except.map] using h
      have hcutOff : ¬f.On cut := by
        intro hon
        obtain ⟨l, hl, hnumber⟩ := List.mem_map.1 hon
        exact hbeyond l.number (filledAt_of_mem hcut l hl) hnumber
      exact Or.inr ⟨before, rfl, readBlock_of_append hread hcutOff⟩

end Outline

open Outline

theorem loadTree_minimal_of_head {text : String} (h : hasMappingHead text.toList = true) :
    loadTree .minimal text = readTree text.toList := by
  simp [loadTree, h]

/-- A text is rejected as no mapping exactly if it lacks the head of one. -/
theorem loadTree_minimal_eq_rootNotMapping_iff {text : String} :
    loadTree .minimal text = .error .rootNotMapping ↔ hasMappingHead text.toList = false := by
  constructor
  · intro h
    by_contra hhead
    rw [Bool.not_eq_false] at hhead
    obtain ⟨before, head, hfirst⟩ := exists_firstRemaining_of_head hhead
    rw [loadTree_minimal_of_head hhead] at h
    rcases hfirst.readTree_cases with ⟨entries, -, hread⟩ | ⟨f, hread, -⟩
    · simp [hread] at h
    · simp [hread] at h
  · intro h
    simp [loadTree, h]

/-- A fault at a line is that of every text with the same lines up to there and to the head. -/
theorem loadTree_minimal_of_take {text other : String} {f : Fault} {before : List (List Char)}
    {head : List Char} (hhead : hasMappingHead text.toList = true)
    (hfirst : FirstRemaining (Text.lines text.toList) before head)
    (h : readTree text.toList = .error (.line f))
    (hlines : Text.lines other.toList = (Text.lines text.toList).take
      (max f.line (before.length + 1))) :
    loadTree .minimal other = .error (.line f) := by
  have hother : FirstRemaining (Text.lines other.toList) before head := by
    rw [hlines]
    exact hfirst.take (Nat.le_max_right _ _)
  have hotherHead : hasMappingHead other.toList = true := by
    rw [hother.hasMappingHead_eq, ← hfirst.hasMappingHead_eq, hhead]
  rw [loadTree_minimal_of_head hotherHead]
  exact readTree_of_take h (Nat.le_max_left _ _) hlines

/-- What the minimal reader rejects. It finds no mapping exactly where no line remains, or the first
that does is no head. Every other fault is at a line with something on it, and is that of every text
with the same lines up to there and to the head. What is accepted is a mapping with entries. -/
theorem loadTree_minimal_rejects (text : String) :
    (loadTree .minimal text = .error .rootNotMapping ↔
      (∀ line ∈ Text.lines text.toList, Dropped line) ∨
        ∃ before head, FirstRemaining (Text.lines text.toList) before head ∧
          (Text.trim (stripComment head)).getLast? ≠ some ':') ∧
    (∀ e, loadTree .minimal text = .error e → e ≠ .rootNotMapping →
      ∃ f line before head, e = .line f ∧ 1 ≤ f.line ∧
        (Text.lines text.toList)[f.line - 1]? = some line ∧
        Text.trim (stripComment line) ≠ [] ∧ FirstRemaining (Text.lines text.toList) before head ∧
        ∀ other : String, Text.lines other.toList =
            (Text.lines text.toList).take (max f.line (before.length + 1)) →
          loadTree .minimal other = .error (.line f)) ∧
    ∀ v, loadTree .minimal text = .ok v → ∃ entries, entries ≠ [] ∧ v = .mapping entries := by
  refine ⟨loadTree_minimal_eq_rootNotMapping_iff.trans hasMappingHead_eq_false_iff, ?_⟩
  -- Without a head there is one fault for the whole text. With a head the lines are read, and each
  -- fault is at one.
  cases hhead : hasMappingHead text.toList with
  | false =>
    rw [loadTree_minimal_eq_rootNotMapping_iff.2 hhead]
    constructor
    · intro e he hne
      exact absurd (Except.error.inj he).symm hne
    · intro v hv
      cases hv
  | true =>
    obtain ⟨before, head, hfirst⟩ := exists_firstRemaining_of_head hhead
    rw [loadTree_minimal_of_head hhead]
    rcases hfirst.readTree_cases with ⟨entries, hne, hread⟩ | ⟨f, hread, i, line, hi, hnumber,
      hfilled⟩
    · rw [hread]
      constructor
      · intro e he
        cases he
      · intro v hv
        exact ⟨entries, hne, (Except.ok.inj hv).symm⟩
    · rw [hread]
      constructor
      · intro e he _
        have hline : (Text.lines text.toList)[f.line - 1]? = some line := by
          rw [hnumber, Nat.add_sub_cancel_left, hi]
        exact ⟨f, line, before, head, (Except.error.inj he).symm, by omega, hline, hfilled, hfirst,
          fun other hlines => loadTree_minimal_of_take hhead hfirst hread hlines⟩
      · intro v hv
        cases hv

/-- The fault may stand before the head: a tab keeps a marker significant, and without the head
below it the text is no mapping. -/
example : loadTree .minimal "\t---\nroot:\n" = .error (.line ⟨1, .tabIndentation⟩) ∧
    loadTree .minimal "\t---\n" = .error .rootNotMapping := by
  decide +kernel

/-- The second `k` is a fault once the lines below it are read, and one without them. -/
theorem loadTree_minimal_rejects_repeated :
    let text := "root:\n  k: 1\n  k:\n    - x\nrest\n"
    let other := "root:\n  k: 1\n  k:\n"
    loadTree .minimal text = .error (.line ⟨3, .duplicateKey "k"⟩) ∧
      Text.lines other.toList = (Text.lines text.toList).take 3 ∧
      loadTree .minimal other = .error (.line ⟨3, .duplicateKey "k"⟩) ∧
      ∃ entries, entries ≠ [] ∧ loadTree .minimal "root:\n" = .ok (.mapping entries) := by
  intro text other
  have hread : loadTree .minimal text = .error (.line ⟨3, .duplicateKey "k"⟩) := by decide +kernel
  have hlines : Text.lines other.toList = (Text.lines text.toList).take 3 := by decide +kernel
  have hrejects := (loadTree_minimal_rejects text).2.1 _ hread (by decide)
  obtain ⟨f, line, before, head, hf, -, -, -, hfirst, hother⟩ := hrejects
  obtain rfl := Malformed.line.inj hf
  have hbefore : before = [] := by
    cases before with
    | nil => rfl
    | cons first rest =>
      have hall : Text.lines text.toList = "root:".toList :: (Text.lines text.toList).tail := by
        decide +kernel
      have hhere := hfirst.here
      rw [hall, List.cons_append, List.cons_prefix_cons] at hhere
      have hdropped := hfirst.dropped first List.mem_cons_self
      rw [hhere.1] at hdropped
      exact absurd hdropped (by decide)
  have hempty : loadTree .minimal "root:\n" = .ok (.mapping [(.string "root", .null)]) := by
    decide +kernel
  obtain ⟨entries, hne, hentries⟩ := (loadTree_minimal_rejects "root:\n").2.2 _ hempty
  exact ⟨hread, hlines, hother other (by simpa [hbefore] using hlines), entries, hne,
    hentries ▸ hempty⟩

end Workflow
