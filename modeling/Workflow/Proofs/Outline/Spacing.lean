import Workflow.Proofs.Outline.Rejection
import Workflow.Proofs.Outline.Relocation
import Workflow.Proofs.Outline.Rendering

namespace Workflow

namespace Text

/-- What stands in front of a text that is not blank stays. -/
theorem trimEnd_append_of_ne_nil {s t : List Char} (h : trimEnd t ≠ []) :
    trimEnd (s ++ t) = s ++ trimEnd t := by
  rw [trimEnd, dropEndWhile_eq_rdropWhile] at h ⊢
  rw [trimEnd, dropEndWhile_eq_rdropWhile, List.rdropWhile, List.reverse_append,
    List.dropWhile_append]
  split
  · rename_i hempty
    rw [List.rdropWhile, List.isEmpty_iff.1 hempty] at h
    exact absurd rfl h
  · rw [List.reverse_append, List.reverse_reverse, List.rdropWhile]

end Text

namespace Outline

/-- A space in front of a text is as good as the start of a line. -/
theorem cutComment_space (s : List Char) :
    cutComment none (some ' ') s = cutComment none none s := by
  cases s with
  | nil => rfl
  | cons c s => rfl

theorem stripComment_spaces_append (k : Nat) (line : List Char) :
    stripComment (spaces k ++ line) = spaces k ++ stripComment line := by
  induction k with
  | zero => rfl
  | succ k ih =>
    have hfirst : stripComment (spaces (k + 1) ++ line) =
        ' ' :: cutComment none (some ' ') (spaces k ++ line) := rfl
    rw [hfirst, cutComment_space, ← stripComment, ih]
    rfl

/-- White space is no quote and begins no comment, whether a quote is open or not. -/
theorem cutComment_blank {t : List Char} (blank : ∀ c ∈ t, Text.isBlank c = true)
    (quote previous : Option Char) :
    cutComment quote previous t = t := by
  induction t generalizing quote previous with
  | nil => rfl
  | cons c t ih =>
    obtain ⟨hquote, hhash⟩ := bare_of_blank blank c List.mem_cons_self
    have hrest := ih (List.forall_mem_cons.1 blank).2
    cases quote with
    | some q => rw [cutComment, hrest]
    | none => simp [cutComment, hquote, hhash, hrest]

/-- White space behind a line leaves white space at most. -/
theorem exists_cutComment_append {t : List Char} (blank : ∀ c ∈ t, Text.isBlank c = true)
    (quote previous : Option Char) (s : List Char) :
    ∃ u, cutComment quote previous (s ++ t) = cutComment quote previous s ++ u ∧
      ∀ c ∈ u, Text.isBlank c = true := by
  -- A comment in `s` takes the white space behind it along, so that `u` is either `t` or nothing.
  induction s generalizing quote previous with
  | nil => exact ⟨t, cutComment_blank blank quote previous, blank⟩
  | cons c s ih =>
    cases quote with
    | some q =>
      obtain ⟨u, hu, hblank⟩ := ih (if c == q then none else some q) (some c)
      exact ⟨u, by simp only [List.cons_append, cutComment, hu], hblank⟩
    | none =>
      simp only [List.cons_append, cutComment]
      split
      · obtain ⟨u, hu, hblank⟩ := ih (if opensQuote previous then some c else none) (some c)
        exact ⟨u, by rw [hu, List.cons_append], hblank⟩
      split
      · exact ⟨[], rfl, by simp⟩
      · obtain ⟨u, hu, hblank⟩ := ih none (some c)
        exact ⟨u, by rw [hu, List.cons_append], hblank⟩

section line

variable {t : List Char} (blank : ∀ c ∈ t, Text.isBlank c = true) (k : Nat) (line : List Char)
include blank

theorem exists_stripComment_relaid :
    ∃ u, stripComment (spaces k ++ line ++ t) = spaces k ++ stripComment line ++ u ∧
    ∀ c ∈ u, Text.isBlank c = true := by
  obtain ⟨u, hu, hblank⟩ := exists_cutComment_append blank none none (spaces k ++ line)
  refine ⟨u, ?_, hblank⟩
  rw [stripComment, hu, ← stripComment, stripComment_spaces_append]

theorem trim_stripComment_relaid :
    Text.trim (stripComment (spaces k ++ line ++ t)) = Text.trim (stripComment line) := by
  obtain ⟨u, hu, hblank⟩ := exists_stripComment_relaid blank k line
  have hspaces : ∀ c ∈ spaces k, Text.isBlank c = true := by
    intro c hc
    rw [List.eq_of_mem_replicate hc]
    decide
  have hend : Text.trimEnd (spaces k ++ stripComment line ++ u) =
      Text.trimEnd (spaces k ++ stripComment line) :=
    Text.trimEnd_append_of_blank hblank
  rw [hu, ← Text.trim_trimEnd, hend, Text.trim_trimEnd, Text.trim, Text.trimStart,
    List.dropWhile_append_of_pos hspaces, ← Text.trimStart, ← Text.trim]

/-- Spaces in front of a line and white space behind it change the column of what it holds, and
nothing else. -/
theorem content_relaid : content (spaces k ++ line ++ t) =
    if content line = [] then [] else spaces k ++ content line := by
  obtain ⟨u, hu, hblank⟩ := exists_stripComment_relaid blank k line
  rw [content, hu, Text.trimEnd_append_of_blank hblank]
  -- Of a line without content not even the spaces in front are left.
  split
  · rename_i hempty
    have htrim : Text.trim (spaces k ++ stripComment line) = [] := by
      have hbare := trim_stripComment_relaid (t := []) (by simp) k line
      rw [List.append_nil, stripComment_spaces_append] at hbare
      rw [hbare, ← Text.trim_trimEnd, ← content, hempty]
      rfl
    exact Text.trimEnd_of_trim htrim
  · rename_i hfilled
    exact Text.trimEnd_append_of_ne_nil hfilled

/-- A line is read as it is read with another layout. -/
theorem readLine_relaid (renumber : Nat → Nat) (n : Nat) :
    readLine (renumber n) (spaces k ++ line ++ t) =
      ((readLine n line).map (Option.map (Line.moved renumber k))).mapError
        (Fault.renumbered renumber) := by
  rw [readLine, readLine, content_relaid blank]
  by_cases hempty : content line = []
  · rw [if_pos hempty, hempty]
    rfl
  · have hspaces : dropSpaces (spaces k ++ content line) = dropSpaces (content line) :=
      List.dropWhile_append_of_pos (by simp [spaces])
    have hle : (dropSpaces (content line)).length ≤ (content line).length :=
      (List.dropWhile_suffix _).length_le
    have hindent : (spaces k ++ content line).length - (dropSpaces (content line)).length =
        (content line).length - (dropSpaces (content line)).length + k := by
      rw [List.length_append, spaces, List.length_replicate]
      omega
    simp only [if_neg hempty, hspaces, hindent]
    split
    · rfl
    split
    · rfl
    · rfl

end line

/-- Lines, counted from `n` on, in another layout, counted from `m` on: all of them stand `k`
columns further in, white space stands behind them, and lines that hold nothing stand between
them. -/
inductive Relaid (k : Nat) (renumber : Nat → Nat) :
    (n m : Nat) → (lines others : List (List Char)) → Prop
  | nil {n m : Nat} : Relaid k renumber n m [] []
  | line {n : Nat} {line t : List Char} {lines others : List (List Char)}
      (blank : ∀ c ∈ t, Text.isBlank c = true)
      (below : Relaid k renumber (n + 1) (renumber n + 1) lines others) :
      Relaid k renumber n (renumber n) (line :: lines) ((spaces k ++ line ++ t) :: others)
  | filler {n m : Nat} {line : List Char} {lines others : List (List Char)} (filler : Filler line)
      (below : Relaid k renumber n (m + 1) lines others) :
      Relaid k renumber n m lines (line :: others)

section relaid

variable {k : Nat} {renumber : Nat → Nat} {n m : Nat} {lines others : List (List Char)}

/-- Lines in another layout are the same lines, moved. -/
theorem Relaid.readLines_eq (h : Relaid k renumber n m lines others) : readLines m others =
    ((readLines n lines).map (List.map (Line.moved renumber k))).mapError
    (Fault.renumbered renumber) := by
  induction h with
  | nil => rfl
  | @line n line t lines others blank _ ih =>
    rw [readLines, readLines, readLine_relaid blank k line renumber n, ih]
    cases readLine n line with
    | error f => rfl
    | ok first =>
      cases readLines (n + 1) lines with
      | error f => rfl
      | ok rest => cases first <;> rfl
  | filler filler _ ih =>
    rw [readLines, filler.readLine_eq, ih]
    cases readLines _ _ <;> rfl

theorem Relaid.find?_body (h : Relaid k renumber n m lines others) :
    (others.map fun line => Text.trim (stripComment line)).find? (fun body => !isVoid body) =
      (lines.map fun line => Text.trim (stripComment line)).find? fun body => !isVoid body := by
  induction h with
  | nil => rfl
  | @line n line t lines others blank _ ih =>
    simp only [List.map_cons, List.find?_cons, trim_stripComment_relaid blank k line, ih]
  | filler filler _ ih =>
    simp only [List.map_cons, List.find?_cons, filler.isVoid_trim, Bool.not_true, ih]

end relaid

end Outline

def Malformed.renumbered (renumber : Nat → Nat) : Malformed → Malformed
  | line fault => .line (fault.renumbered renumber)
  | other => other

namespace Outline

theorem Relaid.readTree_eq {k : Nat} {renumber : Nat → Nat} {text other : List Char}
    (h : Relaid k renumber 1 1 (Text.lines text) (Text.lines other)) :
    readTree other = (readTree text).mapError (Malformed.renumbered renumber) := by
  have hlines : significantLines other = _ := h.readLines_eq
  rw [readTree, readTree, hlines, significantLines]
  cases readLines 1 (Text.lines text) with
  | error f => rfl
  | ok ls =>
    cases ls with
    | nil => rfl
    | cons l ls =>
      have hblock := readBlock_moved renumber k (l :: ls)
      rw [List.map_cons] at hblock
      simp only [Except.map, mapError_ok, List.map_cons, hblock]
      cases readBlock (l :: ls) <;> rfl

/-- The minimal reader makes the same of a text in another layout, with the other numbers of the
lines. -/
theorem Relaid.loadTree_eq {k : Nat} {renumber : Nat → Nat} {text other : String}
    (h : Relaid k renumber 1 1 (Text.lines text.toList) (Text.lines other.toList)) :
    loadTree .minimal other = (loadTree .minimal text).mapError
    (Malformed.renumbered renumber) := by
  have hhead : hasMappingHead other.toList = hasMappingHead text.toList := by
    rw [hasMappingHead, hasMappingHead, bodies, bodies, h.find?_body]
  simp only [loadTree, hhead, h.readTree_eq]
  split <;> rfl

theorem relaid_spaces (k n : Nat) (lines : List (List Char)) :
    Relaid k id n n lines (lines.map fun line => spaces k ++ line) := by
  induction lines generalizing n with
  | nil => exact .nil
  | cons line lines ih =>
    have hline : Relaid k id n n (line :: lines)
        ((spaces k ++ line ++ []) :: lines.map fun line => spaces k ++ line) :=
      .line (by simp) (ih (n + 1))
    rwa [List.append_nil] at hline

theorem relaid_blanks {lines others : List (List Char)} (n : Nat)
    (h : List.Forall₂ (fun line other => ∃ t, (∀ c ∈ t, Text.isBlank c = true) ∧ other = line ++ t)
      lines others) :
    Relaid 0 id n n lines others := by
  induction h generalizing n with
  | nil => exact .nil
  | cons hline _ ih =>
    obtain ⟨t, blank, rfl⟩ := hline
    exact .line blank (ih (n + 1))

theorem Relaid.fillers_append {k : Nat} {renumber : Nat → Nat} {n m : Nat}
    {lines others fillers : List (List Char)} (hfillers : ∀ line ∈ fillers, Filler line)
    (h : Relaid k renumber n (m + fillers.length) lines others) :
    Relaid k renumber n m lines (fillers ++ others) := by
  induction fillers generalizing m with
  | nil => exact h
  | cons line fillers ih =>
    have hcount : m + (fillers.length + 1) = m + 1 + fillers.length := by omega
    rw [List.length_cons, hcount] at h
    exact .filler (List.forall_mem_cons.1 hfillers).1 (ih (List.forall_mem_cons.1 hfillers).2 h)

abbrev interleave (parts : List (List (List Char) × List Char)) (last : List (List Char)) :
    List (List Char) :=
  parts.flatMap (fun p => p.1 ++ [p.2]) ++ last

def addedBefore (parts : List (List (List Char) × List Char)) (n : Nat) : Nat :=
  ((parts.take n).flatMap Prod.fst).length

theorem addedBefore_succ (p : List (List Char) × List Char)
    (parts : List (List (List Char) × List Char)) (n : Nat) :
    addedBefore (p :: parts) (n + 1) = p.1.length + addedBefore parts n := by
  simp [addedBefore]

/-- Lines that hold nothing can stand in front of any line, and behind the last one. -/
theorem relaid_interleave {parts : List (List (List Char) × List Char)} {last : List (List Char)}
    (hparts : ∀ p ∈ parts, ∀ line ∈ p.1, Filler line) (hlast : ∀ line ∈ last, Filler line)
    {renumber : Nat → Nat} {n m : Nat}
    (hrenumber : ∀ i < parts.length, renumber (n + i) = m + i + addedBefore parts (i + 1)) :
    Relaid 0 renumber n m (parts.map Prod.snd) (interleave parts last) := by
  -- `n` counts the lines without the others, `m` counts all of them.
  induction parts generalizing n m with
  | nil =>
    have hend : Relaid 0 renumber n (m + last.length) [] [] := .nil
    simpa [interleave] using hend.fillers_append hlast
  | cons p parts ih =>
    obtain ⟨hp, hparts⟩ := List.forall_mem_cons.1 hparts
    have hhere : renumber n = m + p.1.length := by
      have hfirst := hrenumber 0 (by simp)
      rw [addedBefore_succ] at hfirst
      simpa [addedBefore] using hfirst
    have hbelow : Relaid 0 renumber (n + 1) (renumber n + 1) (parts.map Prod.snd)
        (interleave parts last) := by
      apply ih hparts
      intro i hi
      have hnext := hrenumber (i + 1) (by simpa using hi)
      rw [addedBefore_succ] at hnext
      have hsum : n + 1 + i = n + (i + 1) := by omega
      rw [hsum, hnext, hhere]
      omega
    have hline : Relaid 0 renumber n (m + p.1.length) (p.2 :: parts.map Prod.snd)
        (p.2 :: interleave parts last) := by
      have hrow : Relaid 0 renumber n (renumber n) (p.2 :: parts.map Prod.snd)
        ((spaces 0 ++ p.2 ++ []) :: interleave parts last) := .line (by simp) hbelow
      rw [List.append_nil] at hrow
      rwa [hhere] at hrow
    simpa [interleave] using hline.fillers_append hp

theorem filler_spaces (k : Nat) : Filler (spaces k) :=
  .blank (.blank fun c hc => by rw [List.eq_of_mem_replicate hc]; decide)

theorem filler_comment (k : Nat) (note : List Char) : Filler (spaces k ++ '#' :: note) := by
  cases k with
  | zero => exact .comment
  | succ k =>
    have hsplit : spaces (k + 1) ++ '#' :: note = spaces k ++ ' ' :: '#' :: note := by
      rw [spaces, List.replicate_succ', List.append_assoc]
      rfl
    rw [hsplit]
    exact .blank (.comment fun c hc => by rw [List.eq_of_mem_replicate hc]; decide)

theorem mapError_renumbered_id (x : Except Malformed Tree) :
    x.mapError (Malformed.renumbered id) = x := by
  cases x with
  | ok v => rfl
  | error e => cases e <;> rfl

end Outline

open Outline

/-- The layout of a text does not matter to the minimal reader. It makes the same of the text with
as many spaces in front of all lines, and with white space behind its lines. With lines between its
lines that hold nothing it is the same value, or the same fault, whose number grows by that of the
lines inserted before. -/
theorem loadTree_minimal_ignores_layout (text : String) :
    (∀ (k : Nat) (other : String),
      Text.lines other.toList = (Text.lines text.toList).map (fun line => spaces k ++ line) →
        loadTree .minimal other = loadTree .minimal text) ∧
    (∀ (parts : List (List (List Char) × List Char)) (last : List (List Char)) (other : String),
      (∀ p ∈ parts, ∀ line ∈ p.1, Filler line) → (∀ line ∈ last, Filler line) →
      Text.lines text.toList = parts.map Prod.snd →
      Text.lines other.toList = interleave parts last →
        loadTree .minimal other = (loadTree .minimal text).mapError
          (Malformed.renumbered fun n => n + addedBefore parts n)) ∧
    ∀ other : String,
      List.Forall₂ (fun line longer => ∃ t, (∀ c ∈ t, Text.isBlank c = true) ∧ longer = line ++ t)
        (Text.lines text.toList) (Text.lines other.toList) →
      loadTree .minimal other = loadTree .minimal text := by
  refine ⟨?_, ?_, ?_⟩
  · intro k other hlines
    have hrelaid := relaid_spaces k 1 (Text.lines text.toList)
    rw [← hlines] at hrelaid
    rw [hrelaid.loadTree_eq, mapError_renumbered_id]
  · intro parts last other hparts hlast htext hother
    have hrelaid : Relaid 0 (fun n => n + addedBefore parts n) 1 1 (parts.map Prod.snd)
        (interleave parts last) :=
      relaid_interleave hparts hlast fun i _ => by rw [Nat.add_comm i 1]
    rw [← htext, ← hother] at hrelaid
    exact hrelaid.loadTree_eq
  · intro other hlines
    rw [(relaid_blanks 1 hlines).loadTree_eq, mapError_renumbered_id]

/-- The second `k` is a fault in every layout. Three lines come before it in the second one, so that
it stands in the sixth line instead of the third. -/
theorem loadTree_minimal_ignores_layout_repeated :
    let text := "root:\n- k: 1\n  k: 2"
    let further := "   root:\n   - k: 1\n     k: 2"
    let apart := "  # first\nroot:\n- k: 1\n\n    # again\n  k: 2\n  "
    let trailing := "root:  \n- k: 1\t\n  k: 2"
    loadTree .minimal further = loadTree .minimal text ∧
      loadTree .minimal text = .error (.line ⟨3, .duplicateKey "k"⟩) ∧
      loadTree .minimal apart = .error (.line ⟨6, .duplicateKey "k"⟩) ∧
      loadTree .minimal trailing = loadTree .minimal text := by
  intro text further apart trailing
  obtain ⟨hspaces, hbetween, hblanks⟩ := loadTree_minimal_ignores_layout text
  have hread : loadTree .minimal text = .error (.line ⟨3, .duplicateKey "k"⟩) := by decide +kernel
  refine ⟨hspaces 3 further (by decide +kernel), hread, ?_, hblanks trailing ?_⟩
  · let parts : List (List (List Char) × List Char) :=
      [([spaces 2 ++ "# first".toList], "root:".toList), ([], "- k: 1".toList),
        ([spaces 0, spaces 4 ++ "# again".toList], "  k: 2".toList)]
    have hfillers : ∀ p ∈ parts, ∀ line ∈ p.1, Filler line := by
      have hfirst := filler_comment 2 " first".toList
      have hagain := filler_comment 4 " again".toList
      simpa [parts] using ⟨hfirst, filler_spaces 0, hagain⟩
    have hlast : ∀ line ∈ [spaces 2], Filler line := by simpa using filler_spaces 2
    rw [hbetween parts [spaces 2] apart hfillers hlast (by decide +kernel) (by decide +kernel),
      hread]
    rfl
  · have hlines : Text.lines trailing.toList =
        ["root:  ".toList, "- k: 1\t".toList, "  k: 2".toList] := by
      decide +kernel
    have htext : Text.lines text.toList = ["root:".toList, "- k: 1".toList, "  k: 2".toList] := by
      decide +kernel
    rw [hlines, htext]
    have hspace : Text.isBlank ' ' = true := by decide
    have htab : Text.isBlank '\t' = true := by decide
    exact .cons ⟨[' ', ' '], by simpa using hspace, by decide⟩
      (.cons ⟨['\t'], by simpa using htab, by decide⟩ (.cons ⟨[], by simp, by decide⟩ .nil))

end Workflow
