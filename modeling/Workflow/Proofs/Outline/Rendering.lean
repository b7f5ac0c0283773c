import Workflow.Proofs.Outline.Layout
import Workflow.Proofs.Text.Trim

namespace Workflow.Outline

/-- Quotes and comments are the only things that stripping a comment reacts to. -/
def Bare (s : List Char) : Prop :=
  ∀ c ∈ s, isQuote c = false ∧ c ≠ '#'

instance : DecidablePred Bare := fun s =>
  decidable_of_iff (s.all (fun c => !isQuote c && c != '#') = true) (by simp [Bare])

structure IsBody (text : List Char) : Prop where
  filled : text ≠ []
  tight : Text.Tight text
  bare : Bare text

structure IsRowText (text : List Char) : Prop extends IsBody text where
  present : isVoid text = false

def Line.row (l : Line) : Row :=
  ⟨l.indent, l.text⟩

theorem Bare.append {s t : List Char} (hs : Bare s) (ht : Bare t) : Bare (s ++ t) := by
  intro c hc
  rcases List.mem_append.1 hc with h | h
  · exact hs c h
  · exact ht c h

theorem bare_spaces (n : Nat) : Bare (spaces n) := by
  intro c hc
  rw [List.eq_of_mem_replicate hc]
  decide

theorem bare_of_blank {s : List Char} (h : ∀ c ∈ s, Text.isBlank c = true) : Bare s := by
  intro c hc
  constructor
  · rw [← Bool.not_eq_true]
    intro hq
    simp only [isQuote, Bool.or_eq_true, beq_iff_eq] at hq
    rcases hq with rfl | rfl <;> exact absurd (h _ hc) (by decide)
  · rintro rfl
    exact absurd (h _ hc) (by decide)

/-- Where no quote is open, a bare text is kept and leaves no quote open. -/
theorem cutComment_append {s : List Char} (hs : Bare s) (t : List Char) (previous : Option Char) :
    ∃ previous', cutComment none previous (s ++ t) = s ++ cutComment none previous' t := by
  induction s generalizing previous with
  | nil => exact ⟨previous, rfl⟩
  | cons c r ih =>
    obtain ⟨hquote, hhash⟩ := hs c (by simp)
    obtain ⟨previous', h⟩ := ih (fun x hx => hs x (by simp [hx])) (some c)
    exact ⟨previous', by simp [cutComment, hquote, hhash, h]⟩

/-- A trailer is stripped to white space. -/
theorem Trailer.stripComment_append {s after : List Char} (hs : Bare s) (h : Trailer after) :
    ∃ blank, stripComment (s ++ after) = s ++ blank ∧ ∀ c ∈ blank, Text.isBlank c = true := by
  cases h with
  | blank hblank =>
    obtain ⟨p, hp⟩ := cutComment_append (hs.append (bare_of_blank hblank)) [] none
    refine ⟨after, ?_, hblank⟩
    simpa [stripComment, cutComment] using hp
  | @comment t note hblank =>
    obtain ⟨p, hp⟩ := cutComment_append (hs.append (bare_of_blank hblank)) (' ' :: '#' :: note) none
    refine ⟨t ++ [' '], ?_, ?_⟩
    · rw [stripComment, ← List.append_assoc, hp]
      simp [cutComment, isQuote, opensComment]
    · intro c hc
      rcases List.mem_append.1 hc with h | h
      · exact hblank c h
      · rw [List.mem_singleton.1 h]
        decide

theorem Trailer.content_append {s after : List Char} (hs : Bare s) (h : Trailer after) :
    content (s ++ after) = Text.trimEnd s := by
  obtain ⟨blank, hstrip, hblank⟩ := h.stripComment_append hs
  rw [content, hstrip, Text.trimEnd_append_of_blank hblank]

theorem dropSpaces_spaces_append {n : Nat} {s : List Char} (h : s.head? ≠ some ' ') :
    dropSpaces (spaces n ++ s) = s := by
  rw [dropSpaces, spaces, List.dropWhile_append_of_pos (by simp)]
  cases s with
  | nil => rfl
  | cons c r =>
    have hc : c ≠ ' ' := by simpa using h
    simp [hc]

namespace IsBody

variable {text : List Char} (h : IsBody text)
include h

theorem head_ne_space : text.head? ≠ some ' ' := fun hs => absurd (h.tight.first ' ' hs) (by decide)

theorem trimEnd_spaces_append (n : Nat) : Text.trimEnd (spaces n ++ text) = spaces n ++ text := by
  apply Text.trimEnd_eq_self
  rw [List.getLast?_append_of_ne_nil _ h.filled]
  exact h.tight.last

theorem content_eq {n : Nat} {after : List Char} (ha : Trailer after) :
    content (spaces n ++ text ++ after) = spaces n ++ text := by
  rw [ha.content_append ((bare_spaces n).append h.bare), h.trimEnd_spaces_append]

/-- What stands behind the text of a line does not belong to it. -/
theorem trim_stripComment_eq {n : Nat} {after : List Char} (ha : Trailer after) :
    Text.trim (stripComment (spaces n ++ text ++ after)) = text := by
  obtain ⟨blank, hstrip, hblank⟩ := ha.stripComment_append ((bare_spaces n).append h.bare)
  have hspaces : ∀ c ∈ spaces n, Text.isBlank c = true := by
    intro c hc
    rw [List.eq_of_mem_replicate hc]
    decide
  have hstart : Text.trimStart (spaces n ++ (text ++ blank)) = text ++ blank := by
    rw [Text.trimStart, List.dropWhile_append_of_pos hspaces]
    apply Text.trimStart_eq_self
    intro c hc
    rw [List.head?_append_of_ne_nil _ h.filled] at hc
    exact h.tight.first c hc
  rw [hstrip, List.append_assoc, Text.trim, hstart, Text.trimEnd_append_of_blank hblank,
    Text.trimEnd_eq_self h.tight.last]

end IsBody

theorem isBody_marker : IsBody marker :=
  ⟨by decide, by decide, by decide⟩

/-- A line that holds a row is read as the row. -/
theorem IsRowText.readLine_eq {text : List Char} (h : IsRowText text) {n number : Nat}
    {after : List Char} (ha : Trailer after) :
    readLine number (spaces n ++ text ++ after) = .ok (some ⟨number, n, text⟩) := by
  have htab : (text.head? == some '\t') = false := by
    rw [beq_eq_false_iff_ne]
    exact fun hs => absurd (h.tight.first '\t' hs) (by decide)
  have hlen : (spaces n ++ text).length - text.length = n := by simp [spaces]
  simp only [readLine, h.content_eq ha, dropSpaces_spaces_append h.head_ne_space, h.present, htab,
    hlen, Bool.false_eq_true, if_false]

/-- Nothing is read from a line that holds nothing. -/
theorem Filler.readLine_eq {line : List Char} (h : Filler line) (number : Nat) :
    readLine number line = .ok none := by
  have hvoid : isVoid (dropSpaces (content line)) = true := by
    cases h with
    | blank h =>
      have hc := h.content_append (s := []) (by simp [Bare])
      rw [List.nil_append] at hc
      rw [hc]
      rfl
    | comment => rfl
    | marker trailer =>
      rw [isBody_marker.content_eq trailer, dropSpaces_spaces_append (by decide)]
      rfl
  simp only [readLine, hvoid, if_true]

theorem Filler.isVoid_trim {line : List Char} (h : Filler line) :
    isVoid (Text.trim (stripComment line)) = true := by
  cases h with
  | blank h =>
    obtain ⟨blank, hstrip, hblank⟩ := h.stripComment_append (s := []) (by simp [Bare])
    rw [List.nil_append, List.nil_append] at hstrip
    rw [hstrip, Text.trim, Text.trimStart, List.dropWhile_eq_nil_iff.2 hblank]
    rfl
  | comment => rfl
  | marker trailer =>
    rw [isBody_marker.trim_stripComment_eq trailer]
    rfl

/-- The significant lines of lines that hold rows are the rows. -/
theorem Renders.readLines_eq {rows : List Row} {lines : List (List Char)} (h : Renders rows lines)
    (htext : ∀ r ∈ rows, IsRowText r.text) (number : Nat) :
    ∃ ls, readLines number lines = .ok ls ∧ ls.map Line.row = rows := by
  induction h generalizing number with
  | nil => exact ⟨[], rfl, rfl⟩
  | @row r after rows lines trailer _ ih =>
    obtain ⟨ls, hread, hrows⟩ := ih (fun r hr => htext r (by simp [hr])) (number + 1)
    have hline : readLine number (spaces r.column ++ r.text ++ after) = _ :=
      (htext r (by simp)).readLine_eq trailer
    refine ⟨⟨number, r.column, r.text⟩ :: ls, ?_, by rw [List.map_cons, hrows]; rfl⟩
    rw [readLines, hline, hread]
    rfl
  | filler filler _ ih =>
    obtain ⟨ls, hread, hrows⟩ := ih htext (number + 1)
    exact ⟨ls, by simp [readLines, filler.readLine_eq, hread], hrows⟩

/-- The first body of lines that hold rows is the text of the first row. -/
theorem Renders.find?_body {r : Row} {rows : List Row} {lines : List (List Char)}
    (h : Renders (r :: rows) lines) (hr : IsRowText r.text) :
    (lines.map fun line => Text.trim (stripComment line)).find? (fun body => !isVoid body) =
      some r.text := by
  generalize hall : r :: rows = all at h
  induction h with
  | nil => simp at hall
  | row trailer _ _ =>
    obtain ⟨rfl, rfl⟩ := List.cons.inj hall
    simp only [List.map_cons, hr.trim_stripComment_eq trailer, List.find?_cons, hr.present,
      Bool.not_false]
  | filler filler _ ih =>
    simp only [List.map_cons, List.find?_cons, filler.isVoid_trim, Bool.not_true]
    exact ih hall

end Workflow.Outline
