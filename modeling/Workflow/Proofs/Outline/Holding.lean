import Workflow.Proofs.Outline.Layout
import Workflow.Proofs.Yaml.PlainLine

namespace Workflow.Outline

open Yaml

/-- What may stand behind the text of a line: blanks, and a comment after a space. Whether tabs are
among the blanks is up to `tabs`. -/
inductive Tail (tabs : Bool) : List Char → Prop
  | blank {s : List Char} (blank : ∀ c ∈ s, c = ' ' ∨ tabs = true ∧ c = '\t') : Tail tabs s
  | comment {s note : List Char} (blank : ∀ c ∈ s, c = ' ' ∨ tabs = true ∧ c = '\t')
      (oneLine : OneLine note) : Tail tabs (s ++ ' ' :: '#' :: note)

/-- Whether tabs may stand behind the text of a line: not behind a lone hyphen. -/
def Line.allowsTabs (l : Line) : Bool :=
  l.text != ['-']

mutual

/-- From the start of a line on, the rest of a text holds these lines. -/
inductive Holds : List Line → List Char → Prop
  | void {n : Nat} {ls : List Line} {e : List Char} (ending : Ending ls e) :
      Holds ls (spaces n ++ e)
  | comment {n : Nat} {note e : List Char} {ls : List Line} (oneLine : OneLine note)
      (ending : Ending ls e) : Holds ls (spaces n ++ '#' :: (note ++ e))
  | line {l : Line} {ls : List Line} {t e : List Char} (start : StartsToken l.text)
      (tail : Tail l.allowsTabs t) (ending : Ending ls e) :
      Holds (l :: ls) (spaces l.indent ++ (l.text ++ (t ++ e)))

/-- From the end of a line on, the rest of a text holds these lines. -/
inductive Ending : List Line → List Char → Prop
  | last : Ending [] []
  | next {ls : List Line} {r : List Char} (rest : Holds ls r) : Ending ls ('\n' :: r)

end

def AtLines : List Line → Cursor → Prop
  | [], c => c.rest = []
  | l :: ls, c => StartsToken l.text ∧ c.column = l.indent ∧ c.offset = l.indent ∧
      ∃ t e, Tail l.allowsTabs t ∧ Ending ls e ∧ c.rest = l.text ++ (t ++ e)

/-- The scanner has come to the lines, with a key allowed, and is on line `line` at least. -/
structure Arrives (ls : List Line) (line : Nat) (r : Bool × Cursor) : Prop where
  front : AtLines ls r.2
  fresh : ls ≠ [] → r.1 = true ∧ line ≤ r.2.line

theorem Arrives.mono {ls : List Line} {line line' : Nat} {r : Bool × Cursor} (h : Arrives ls line r)
    (hline : line' ≤ line) : Arrives ls line' r := by
  refine ⟨h.front, fun hls => ?_⟩
  obtain ⟨hkey, hle⟩ := h.fresh hls
  exact ⟨hkey, Nat.le_trans hline hle⟩

mutual

/-- From the start of a line the scanner comes to the next line that holds something. -/
theorem Holds.arrives {ls : List Line} {r : List Char} (h : Holds ls r) (line : Nat) :
    Arrives ls line (Scan.skipToToken false false true line 0 0 r) := by
  match h with
  | @Holds.void n ls e ending =>
    rw [spaces, Scan.skipToToken_spaces]
    exact (ending.arrives false true line _ _).mono (Nat.le_succ line)
  | @Holds.comment n note e ls oneLine ending =>
    rw [spaces, Scan.skipToToken_spaces, Scan.skipToToken_hash]
    obtain ⟨column, offset, hnote⟩ := Scan.skipToToken_comment oneLine
    rw [hnote]
    exact (ending.arrives true true line _ _).mono (Nat.le_succ line)
  | @Holds.line l ls t e start tail ending =>
    obtain ⟨x, s, hs, hgap, hhash, hmark⟩ := start
    rw [spaces, Scan.skipToToken_spaces, hs, List.cons_append,
      Scan.skipToToken_of_token hgap hhash fun _ => hmark]
    refine ⟨⟨⟨x, s, hs, hgap, hhash, hmark⟩, by simp, by simp, t, e, tail, ending, ?_⟩, ?_⟩
    · rw [hs, List.cons_append]
    · exact fun _ => ⟨rfl, Nat.le_refl line⟩

/-- From the end of a line the scanner comes to the next line that holds something. -/
theorem Ending.arrives {ls : List Line} {e : List Char} (h : Ending ls e) (comment allowed : Bool)
    (line column offset : Nat) :
    Arrives ls (line + 1) (Scan.skipToToken false comment allowed line column offset e) := by
  match h with
  | .last =>
    rw [Scan.skipToToken]
    exact ⟨rfl, by simp⟩
  | .next rest =>
    rw [Scan.skipToToken_break]
    exact rest.arrives (line + 1)

end

/-- A comment goes up to the end of its line. -/
theorem Ending.arrives_comment {ls : List Line} {note e : List Char} (h : Ending ls e)
    (oneLine : OneLine note) (allowed : Bool) (line column offset : Nat) :
    Arrives ls (line + 1)
      (Scan.skipToToken false false allowed line column offset ('#' :: (note ++ e))) := by
  obtain ⟨column', offset', hnote⟩ := Scan.skipToToken_comment oneLine
  rw [Scan.skipToToken_hash, hnote]
  exact h.arrives true allowed line _ _

theorem isBlank_of_tail {tabs : Bool} {s : List Char}
    (h : ∀ c ∈ s, c = ' ' ∨ tabs = true ∧ c = '\t') :
    ∀ c ∈ s, isBlank c = true := by
  intro c hc
  rcases h c hc with rfl | ⟨-, rfl⟩ <;> decide

theorem eq_replicate_of_tail {s : List Char} (h : ∀ c ∈ s, c = ' ' ∨ false = true ∧ c = '\t') :
    s = List.replicate s.length ' ' :=
  List.eq_replicate_of_mem fun c hc => by simpa using h c hc

/-- From behind the text of a line the scanner comes to the next line, if tabs are behind the text
only where no key may begin. -/
theorem Tail.arrives {tabs : Bool} {ls : List Line} {t e : List Char} (h : Tail tabs t)
    (ending : Ending ls e) {allowed : Bool} (htabs : allowed = true → tabs = false)
    (line column offset : Nat) :
    Arrives ls (line + 1) (Scan.skipToToken false false allowed line column offset (t ++ e)) := by
  -- Where a key may begin only spaces are passed, and there no tabs stand.
  have hskip (s r : List Char) (hs : ∀ c ∈ s, c = ' ' ∨ tabs = true ∧ c = '\t') :
      Scan.skipToToken false false allowed line column offset (s ++ r) =
        Scan.skipToToken false false allowed line (column + s.length) (offset + s.length) r := by
    cases allowed with
    | false => exact Scan.skipToToken_blanks (isBlank_of_tail hs)
    | true =>
      rw [htabs rfl] at hs
      rw [eq_replicate_of_tail hs, Scan.skipToToken_spaces, List.length_replicate]
  cases h with
  | blank hblank =>
    rw [hskip _ _ hblank]
    exact ending.arrives false allowed line _ _
  | @comment s note hblank oneLine =>
    rw [List.append_assoc, hskip _ _ hblank, List.cons_append, Scan.skipToToken_space]
    exact ending.arrives_comment oneLine allowed line _ _

/-- What a plain scalar comes to behind the gap at its end: the end of the text, a comment, or the
first of the lines. -/
def Stops (ls : List Line) (c : Cursor) : Prop :=
  c.rest = [] ∨ c.rest.head? = some '#' ∨ ∃ l ∈ ls.head?, c.column = l.indent

theorem reach_skip_spaces {n : Nat} {y : List Char} {allowed : Bool} {c : Cursor}
    (hc : c.rest = List.replicate n ' ' ++ y) : reach allowed (c.skip n) = reach allowed c := by
  have hlen : (List.replicate n ' ').length = n := List.length_replicate
  have hrest : (c.skip n).rest = y := by
    rw [Cursor.skip_rest, hc, List.drop_left' hlen]
  have hoffset : (c.skip n).offset = c.offset + n := by
    have hskip := Cursor.skip_offset hc
    rwa [hlen, octetCount_replicate] at hskip
  rw [reach, reach, hrest, hoffset, hc, Scan.skipToToken_spaces]
  rfl

theorem reach_nextLine {r : List Char} {allowed : Bool} {c : Cursor} (hc : c.rest = '\n' :: r) :
    reach true c.nextLine = reach allowed c := by
  rw [reach, reach, hc, Scan.skipToToken_break, Cursor.nextLine, hc]
  rfl

mutual

/-- The gap at the end of a plain scalar goes on over the start of a line. -/
theorem Holds.takeGap {ls : List Line} {r : List Char} (h : Holds ls r)
    (indent fuel : Nat) (g : Gap) {c : Cursor} (hc : c.rest = r) (hcolumn : c.column = 0)
    (hg : g.broken = true) (hf : r.length < fuel) :
    ∃ g' c', Yaml.takeGap indent fuel g c = some (g', c') ∧ g'.broken = true ∧
      reach true c' = reach true c ∧ Stops ls c' := by
  -- The spaces in front are taken whatever the line holds; what stands behind them decides if the
  -- gap goes on.
  have hspaces {n : Nat} {y : List Char} (hy : c.rest = spaces n ++ y) :
      (c.skip n).rest = y ∧ reach true (c.skip n) = reach true c ∧
        ∀ f, Yaml.takeGap indent (f + n) g c = Yaml.takeGap indent f g (c.skip n) := by
    refine ⟨?_, reach_skip_spaces hy, fun f => takeGap_spaces hy hg⟩
    rw [Cursor.skip_rest, hy, spaces, List.drop_left' List.length_replicate]
  match h with
  | @Holds.void n ls e ending =>
    obtain ⟨hrest, hreach, htake⟩ := hspaces hc
    rw [List.length_append, spaces, List.length_replicate] at hf
    obtain ⟨fuel, rfl⟩ : ∃ f, fuel = f + n := ⟨fuel - n, by omega⟩
    obtain ⟨g', c', heq, hbroken, hreach', hstops⟩ := ending.takeGap indent fuel g hrest (by omega)
    rw [hbroken hg, hg, hreach] at hreach'
    exact ⟨g', c', (htake fuel).trans heq, hbroken hg, hreach', hstops⟩
  | @Holds.comment n note e ls oneLine ending =>
    obtain ⟨hrest, hreach, htake⟩ := hspaces hc
    rw [List.length_append, spaces, List.length_replicate, List.length_cons] at hf
    obtain ⟨fuel, rfl⟩ : ∃ f, fuel = f + 1 + n := ⟨fuel - n - 1, by omega⟩
    have hstart : startsWith isGap (c.skip n).rest = false := by
      rw [hrest]
      rfl
    refine ⟨g, c.skip n, (htake (fuel + 1)).trans (takeGap_of_startsWith hstart), hg, hreach, ?_⟩
    exact Or.inr (Or.inl (by rw [hrest]; rfl))
  | @Holds.line l ls t e start tail ending =>
    obtain ⟨hrest, hreach, htake⟩ := hspaces hc
    obtain ⟨x, s, hs, hgap, -, -⟩ := start
    rw [List.length_append, spaces, List.length_replicate, hs, List.length_append, List.length_cons]
      at hf
    obtain ⟨fuel, rfl⟩ : ∃ f, fuel = f + 1 + l.indent := ⟨fuel - l.indent - 1, by omega⟩
    have hstart : startsWith isGap (c.skip l.indent).rest = false := by
      rw [hrest, hs]
      exact hgap
    refine ⟨g, c.skip l.indent, (htake (fuel + 1)).trans (takeGap_of_startsWith hstart), hg, hreach,
      ?_⟩
    exact Or.inr (Or.inr ⟨l, rfl, by rw [Cursor.skip_column, hcolumn, Nat.zero_add]⟩)

/-- The gap at the end of a plain scalar goes on over the end of a line. -/
theorem Ending.takeGap {ls : List Line} {e : List Char} (h : Ending ls e)
    (indent fuel : Nat) (g : Gap) {c : Cursor} (hc : c.rest = e) (hf : e.length < fuel) :
    ∃ g' c', Yaml.takeGap indent fuel g c = some (g', c') ∧ (g.broken = true → g'.broken = true) ∧
      reach g'.broken c' = reach g.broken c ∧ Stops ls c' := by
  match h with
  | .last =>
    obtain ⟨fuel, rfl⟩ : ∃ n, fuel = n + 1 := ⟨fuel - 1, by omega⟩
    exact ⟨g, c, takeGap_of_startsWith (by rw [hc]; rfl), id, rfl, Or.inl hc⟩
  | @Ending.next ls r rest =>
    obtain ⟨fuel, rfl⟩ : ∃ n, fuel = n + 1 := ⟨fuel - 1, by omega⟩
    have hnext : c.nextLine.rest = r := by rw [Cursor.nextLine, hc]; rfl
    -- The break makes the gap a broken one, in which the spaces of the next lines leave no trace.
    have hadd : (g.addBreak '\n').broken = true := by
      rw [Gap.addBreak]
      split
      · assumption
      · rfl
    obtain ⟨g', c', heq, hbroken, hreach, hstops⟩ := rest.takeGap indent fuel _ hnext rfl hadd
      (by simpa using hf)
    refine ⟨g', c', ?_, fun _ => hbroken, ?_, hstops⟩
    · have hblank : isBlank '\n' = false := by decide
      have hbreak : isBreak '\n' = true := by decide
      rw [Yaml.takeGap, hc]
      simp only [hblank, hbreak, Bool.false_eq_true, if_false, if_true]
      exact heq
    · rw [hbroken, hreach]
      exact reach_nextLine hc

end

/-- Blanks and a line break end a plain scalar, for the next line begins to the left of it. -/
theorem plainEnd_of_break {ls : List Line} {t r : List Char} (blank : ∀ x ∈ t, isBlank x = true)
    (ending : Ending ls ('\n' :: r)) {indent fuel : Nat} {read : List Char} {c : Cursor}
    (hc : c.rest = t ++ '\n' :: r) (hls : EndsMapping indent ls) :
    ∃ broken c', Yaml.plainEnd indent (fuel + 1) read c = some ⟨read, broken, c'⟩ ∧
      c'.rest.length ≤ c.rest.length ∧ reach broken c' = reach false (c.skip t.length) := by
  have hskip : (c.skip t.length).rest = '\n' :: r := Cursor.skip_rest_of_append hc
  have hgap : startsWith isGap c.rest = true := by
    rw [hc]
    cases t with
    | nil => rfl
    | cons x t => exact isGap_of_isBlank (blank x List.mem_cons_self)
  have hlength : c.rest.length = t.length + ('\n' :: r).length := by rw [hc, List.length_append]
  obtain ⟨g', c', htake, -, hreach, hstops⟩ := ending.takeGap indent (c.rest.length + 1 - t.length)
    { blanks := t.reverse } hskip (by omega)
  have hfuel : c.rest.length + 1 - t.length + t.length = c.rest.length + 1 := by omega
  have hall : Yaml.takeGap indent (c.rest.length + 1) {} c = some (g', c') := by
    rw [← hfuel, takeGap_append blank hc rfl, List.append_nil]
    exact htake
  refine ⟨g'.broken, c', plainEnd_of_takeGap hgap hall ?_, takeGap_length hall, hreach⟩
  -- The text ends, a comment follows, or a line that is not deep enough to go on with the scalar.
  rcases hstops with hnil | hhash | ⟨l, hl, hcolumn⟩
  · exact Or.inr (Or.inr (by rw [hnil]; exact ⟨rfl, endsWord_nil⟩))
  · exact Or.inr (Or.inl hhash)
  · exact Or.inl (hcolumn ▸ hls l hl)

/-- A plain scalar ends with its line. -/
theorem Tail.plainEnd {tabs : Bool} {ls : List Line} {t e : List Char} (h : Tail tabs t)
    (ending : Ending ls e) {indent fuel : Nat} {read : List Char} {c : Cursor}
    (hc : c.rest = t ++ e) (hls : EndsMapping indent ls) :
    ∃ broken c', Yaml.plainEnd indent (fuel + 1) read c = some ⟨read, broken, c'⟩ ∧
      c'.rest.length ≤ c.rest.length ∧ Arrives ls (c.line + 1) (reach broken c') := by
  -- Behind blanks the gap goes on into the next line, if there is one. A comment stops it.
  cases h with
  | blank hs =>
    have hblank := isBlank_of_tail hs
    have hskip : (c.skip t.length).rest = e := Cursor.skip_rest_of_append hc
    have harrives := ending.arrives false false c.line (c.skip t.length).column
      (c.skip t.length).offset
    cases hending : ending with
    | last =>
      refine ⟨false, c.skip t.length, plainEnd_blanks hblank hc rfl fun _ => ?_, ?_, ?_⟩
      · exact Or.inr ⟨rfl, endsWord_nil⟩
      · rw [hskip]
        exact Nat.zero_le _
      · rw [reach, hskip]
        exact harrives
    | @next ls r rest =>
      obtain ⟨broken, c', hend, hle, hreach⟩ := plainEnd_of_break hblank ending hc hls
      refine ⟨broken, c', hend, hle, ?_⟩
      rw [hreach, reach, hskip]
      exact harrives
  | @comment s note hs oneLine =>
    have hblank : ∀ x ∈ s ++ [' '], isBlank x = true := by
      intro x hx
      rcases List.mem_append.1 hx with hx | hx
      · exact isBlank_of_tail hs x hx
      · rw [List.mem_singleton.1 hx]
        decide
    have hc' : c.rest = (s ++ [' ']) ++ ('#' :: (note ++ e)) := by simp [hc]
    have hskip := Cursor.skip_rest_of_append hc'
    refine ⟨false, _, plainEnd_blanks hblank hc' rfl fun _ => Or.inl rfl, ?_, ?_⟩
    · rw [Cursor.skip_rest, List.length_drop]
      exact Nat.sub_le _ _
    · rw [reach, hskip]
      exact ending.arrives_comment oneLine false _ _ _

end Workflow.Outline
