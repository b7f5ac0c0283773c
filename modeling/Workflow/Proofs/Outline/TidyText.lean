import Workflow.Proofs.Outline.Rendering
import Workflow.Proofs.Outline.Tidy

namespace Workflow.Outline

open Yaml

def body (line : List Char) : List Char :=
  Text.trim (stripComment line)

/-- A line of a tidy text. White space is spaces, or tabs behind the text, but not behind a lone
hyphen. A mark of documents stands in the first column. -/
structure TidyLine (line : List Char) : Prop where
  unbroken : Unbroken line
  front : Spaced false ((stripComment line).takeWhile Text.isBlank)
  back : Spaced (body line != ['-']) ((stripComment line).rtakeWhile Text.isBlank)
  first : (body line).head? ≠ some byteOrderMark
  aligned : body line = marker → line.head? = some '-'

instance : DecidablePred TidyLine := fun line =>
  decidable_of_iff (Unbroken line ∧ Spaced false ((stripComment line).takeWhile Text.isBlank) ∧
      Spaced (body line != ['-']) ((stripComment line).rtakeWhile Text.isBlank) ∧
      (body line).head? ≠ some byteOrderMark ∧ (body line = marker → line.head? = some '-'))
    ⟨fun ⟨unbroken, front, back, first, aligned⟩ => ⟨unbroken, front, back, first, aligned⟩,
      fun h => ⟨h.unbroken, h.front, h.back, h.first, h.aligned⟩⟩

/-- A text that both readers divide in the same way. -/
structure Tidy (text : List Char) : Prop where
  allowed : (text.all isAllowed) = true
  lines : ∀ line ∈ Text.lines text, TidyLine line
  marked : marker ∉ ((bodies text).filter (· ≠ [])).tail
  rows : ∀ ls, significantLines text = .ok ls → ∀ l ∈ ls, l.inner.Tidy

instance : DecidablePred Tidy := fun text =>
  decidable_of_iff ((text.all isAllowed) = true ∧
      ((Text.lines text).all fun line => TidyLine line) = true ∧
      marker ∉ ((bodies text).filter (· ≠ [])).tail ∧
      (match significantLines text with
        | .ok ls => ls.all fun l => l.inner.Tidy
        | .error _ => true) = true) (by
    constructor
    · rintro ⟨allowed, lines, marked, rows⟩
      refine ⟨allowed, by simpa using lines, marked, fun ls hls => ?_⟩
      rw [hls] at rows
      simpa using rows
    · rintro ⟨allowed, lines, marked, rows⟩
      refine ⟨allowed, by simpa using lines, marked, ?_⟩
      split
      · simpa using rows _ ‹_›
      · rfl)

/-- The lines of a text, with a line feed behind each but maybe the last. -/
inductive Spelled : (lines : List (List Char)) → (text : List Char) → Prop
  | nil : Spelled [] []
  | last {line : List Char} : Spelled [line] line
  | next {line text : List Char} {lines : List (List Char)} (rest : Spelled lines text) :
      Spelled (line :: lines) (line ++ '\n' :: text)

/-- With breaks made alike, a line that is closed loses its carriage return. -/
theorem unifyBreaks_line {line r : List Char}
    (h : ∀ c ∈ Text.dropFinalReturn line, c ≠ '\r' ∧ c ≠ '\u0085') :
    unifyBreaks (line ++ '\n' :: r) = Text.dropFinalReturn line ++ '\n' :: unifyBreaks r := by
  have hbreak : unifyBreaks ('\n' :: r) = '\n' :: unifyBreaks r := by
    rw [unifyBreaks_of_ne (by decide), if_neg (by decide)]
  induction line with
  | nil => exact hbreak
  | cons c line ih =>
    -- A carriage return right in front of the line feed belongs to the break.
    by_cases hreturn : c = '\r' ∧ line = []
    · obtain ⟨rfl, rfl⟩ := hreturn
      rfl
    · have hdrop : Text.dropFinalReturn (c :: line) = c :: Text.dropFinalReturn line := by
        rw [Text.dropFinalReturn.eq_def]
        split
        · contradiction
        · simp_all
        · simp_all
      rw [hdrop] at h ⊢
      obtain ⟨hc, hnext⟩ := h c List.mem_cons_self
      rw [List.cons_append, unifyBreaks_of_ne hc, if_neg hnext,
        ih fun x hx => h x (List.mem_cons_of_mem _ hx)]
      rfl

/-- Where no line holds a break of another kind, making the breaks alike gives the lines back. -/
theorem spelled_unifyBreaks {text : List Char}
    (h : ∀ line ∈ Text.lines text, ∀ c ∈ line, c ≠ '\r' ∧ c ≠ '\u0085') :
    Spelled (Text.lines text) (unifyBreaks text) := by
  -- Lines are made of the pieces between line feeds, so the induction is on the pieces.
  have hpieces (pieces : List (List Char)) (hne : pieces ≠ [])
      (h : ∀ line ∈ Text.closePieces pieces, ∀ c ∈ line, c ≠ '\r' ∧ c ≠ '\u0085') :
      Spelled (Text.closePieces pieces) (unifyBreaks (Text.joinWith ['\n'] pieces)) := by
    induction pieces with
    | nil => exact absurd rfl hne
    | cons piece pieces ih =>
      cases pieces with
      | nil =>
        cases piece with
        | nil => exact .nil
        | cons c piece =>
          have hpiece : ∀ x ∈ c :: piece, x ≠ '\r' ∧ x ≠ '\u0085' := h _ List.mem_cons_self
          show Spelled [c :: piece] (unifyBreaks (c :: piece))
          rw [unifyBreaks_eq_self hpiece]
          exact .last
      | cons next pieces =>
        have hclose : Text.closePieces (piece :: next :: pieces) =
            Text.dropFinalReturn piece :: Text.closePieces (next :: pieces) := by
          cases piece <;> rfl
        rw [hclose] at h ⊢
        have hjoin : Text.joinWith ['\n'] (piece :: next :: pieces) =
            piece ++ '\n' :: Text.joinWith ['\n'] (next :: pieces) := by
          simp [Text.joinWith]
        rw [hjoin, unifyBreaks_line (h _ List.mem_cons_self)]
        exact .next (ih (by simp) fun line hline => h line (List.mem_cons_of_mem _ hline))
  have hsplit := hpieces _ (Text.splitAt_ne_nil '\n' text) h
  rwa [Text.joinWith_splitAt] at hsplit

/-- A line is what is left without its comment, and the comment, which follows a space or begins the
line. -/
theorem exists_stripComment_append (line : List Char) :
    ∃ note, line = stripComment line ++ note ∧
      (note = [] ∨ (∃ r, note = '#' :: r) ∧
        (stripComment line = [] ∨ (stripComment line).getLast? = some ' ')) := by
  -- For any quote that is open and any character in front, which the search carries along.
  have hcut (s : List Char) (quote previous : Option Char) :
      ∃ note, s = cutComment quote previous s ++ note ∧
        (note = [] ∨ (∃ r, note = '#' :: r) ∧
          opensComment ((cutComment quote previous s).getLast?.or previous) = true) := by
    induction s generalizing quote previous with
    | nil => exact ⟨[], rfl, Or.inl rfl⟩
    | cons c r ih =>
      have hstep (q : Option Char) : ∃ note, c :: r = c :: cutComment q (some c) r ++ note ∧
          (note = [] ∨ (∃ r, note = '#' :: r) ∧
            opensComment ((c :: cutComment q (some c) r).getLast?.or previous) = true) := by
        obtain ⟨note, hr, hnote⟩ := ih q (some c)
        refine ⟨note, by rw [List.cons_append, ← hr],
          hnote.imp_right fun ⟨hhash, hopens⟩ => ⟨hhash, ?_⟩⟩
        rw [List.getLast?_cons]
        cases hlast : (cutComment q (some c) r).getLast? with
        | none => simpa [hlast] using hopens
        | some d => simpa [hlast] using hopens
      rw [cutComment.eq_def]
      dsimp only
      split
      · exact hstep _
      · split
        · exact hstep _
        · split
          · rename_i hhash
            simp only [Bool.and_eq_true, beq_iff_eq] at hhash
            exact ⟨c :: r, rfl, Or.inr ⟨⟨r, by rw [hhash.1]⟩, hhash.2⟩⟩
          · exact hstep _
  obtain ⟨note, hline, hnote⟩ := hcut line none none
  refine ⟨note, hline, hnote.imp_right fun ⟨hhash, hopens⟩ => ⟨hhash, ?_⟩⟩
  rw [stripComment]
  cases hlast : (cutComment none none line).getLast? with
  | none => exact Or.inl (List.getLast?_eq_none_iff.1 hlast)
  | some c =>
    rw [hlast] at hopens
    exact Or.inr (by simpa [opensComment] using hopens)

/-- Behind spaces a comment is not left over. -/
theorem stripComment_ne_hash (line : List Char) (n : Nat) (r : List Char) :
    stripComment line ≠ spaces n ++ '#' :: r := by
  -- Only spaces are passed, so no quote opens, and a comment begins at the hash.
  have hcut (s : List Char) (n : Nat) (previous : Option Char)
      (hopens : opensComment previous = true) :
      cutComment none previous s ≠ spaces n ++ '#' :: r := by
    induction s generalizing n previous with
    | nil => cases n <;> simp [cutComment, spaces]
    | cons c s ih =>
      intro h
      have hhead : (spaces n ++ '#' :: r).head? = some (if n = 0 then '#' else ' ') := by
        cases n <;> rfl
      simp only [cutComment] at h
      split at h
      · rename_i hquote
        rw [← h] at hhead
        obtain rfl : c = if n = 0 then '#' else ' ' := Option.some.inj hhead
        split at hquote <;> exact absurd hquote (by decide)
      · split at h
        · rw [← h] at hhead
          simp at hhead
        · rename_i hhash
          cases n with
          | zero =>
            obtain rfl : c = '#' := (List.cons.inj h).1
            exact hhash (by rw [hopens]; rfl)
          | succ n =>
            obtain ⟨rfl, h⟩ := List.cons.inj h
            exact ih n (some ' ') rfl h
  exact hcut line n none rfl

namespace TidyLine

variable {line : List Char}

/-- A line without a body holds nothing. -/
theorem holds_nil (h : TidyLine line) (empty : body line = []) {ls : List Line} {e : List Char}
    (ending : Ending ls e) : Holds ls (line ++ e) := by
  obtain ⟨note, hline, hnote⟩ := exists_stripComment_append line
  obtain ⟨n, hn⟩ := h.front.exists_spaces
  rw [Text.takeWhile_eq_self_of_trim empty] at hn
  rw [hn] at hline
  have hbroken := h.unbroken
  rw [hline, List.append_assoc]
  rcases hnote with rfl | ⟨⟨r, rfl⟩, -⟩
  · exact .void ending
  · refine .comment (fun c hc => hbroken.oneLine c ?_) ending
    rw [hline]
    exact List.mem_append_right _ (List.mem_cons_of_mem _ hc)

theorem readLine_nil (empty : body line = []) (number : Nat) : readLine number line = .ok none := by
  have hblank : ∀ c ∈ stripComment line, Text.isBlank c = true := by
    rw [← Text.takeWhile_eq_self_of_trim empty]
    exact fun c hc => List.all_eq_true.1 List.all_takeWhile c hc
  have hcontent : content line = [] := by
    have happend := Text.trimEnd_append_of_blank (s := []) hblank
    rw [List.nil_append] at happend
    exact happend
  rw [readLine, hcontent]
  rfl

/-- A line with a body is the body with spaces in front, and a tail. -/
theorem exists_tail (h : TidyLine line) (filled : body line ≠ []) :
    ∃ n s t, line = spaces n ++ (body line ++ t) ∧ stripComment line = spaces n ++
      (body line ++ s) ∧ (∀ c ∈ s, Text.isBlank c = true) ∧ Tail (body line != ['-']) t := by
  obtain ⟨note, hline, hnote⟩ := exists_stripComment_append line
  obtain ⟨n, s, hstrip, hs⟩ := exists_spaces_trim_append h.front h.back
  have hstrip : stripComment line = spaces n ++ (body line ++ s) := hstrip
  have hblank : ∀ c ∈ s, Text.isBlank c = true := by
    intro c hc
    rcases hs c hc with rfl | ⟨-, rfl⟩ <;> decide
  refine ⟨n, s, s ++ note, ?_, hstrip, hblank, ?_⟩
  · rw [hstrip] at hline
    exact hline.trans (by simp)
  · rcases hnote with rfl | ⟨⟨r, rfl⟩, hspace⟩
    · rw [List.append_nil]
      exact .blank hs
    · -- The space in front of the comment stands behind the body.
      have hlast : (body line ++ s).getLast? = some ' ' := by
        rcases hspace with hnil | hlast
        · rw [hstrip] at hnil
          simp [filled] at hnil
        · rwa [hstrip, List.getLast?_append_of_ne_nil] at hlast
          simp [filled]
      rcases List.eq_nil_or_concat s with rfl | ⟨s, c, rfl⟩
      · rw [List.append_nil] at hlast
        exact absurd ((Text.tight_trim _).last ' ' hlast) (by decide)
      · rw [List.concat_eq_append] at hlast hs ⊢
        rw [← List.append_assoc, List.getLast?_concat] at hlast
        obtain rfl := Option.some.inj hlast
        rw [List.append_assoc]
        refine .comment (fun x hx => hs x (List.mem_append_left _ hx)) fun x hx => ?_
        refine h.unbroken.oneLine x ?_
        rw [hline]
        exact List.mem_append_right _ (List.mem_cons_of_mem _ hx)

/-- A line with a body is read as its column and the body, unless it marks a document. -/
theorem readLine_cons {n number : Nat} {s : List Char} (filled : body line ≠ [])
    (hstrip : stripComment line = spaces n ++ (body line ++ s))
    (hs : ∀ c ∈ s, Text.isBlank c = true) :
    readLine number line = .ok (if body line = marker then none
      else some ⟨number, n, body line⟩) := by
  have htight : Text.Tight (body line) := Text.tight_trim _
  -- What stands behind the body is blank, so the content of the line ends with the body.
  have hcontent : content line = spaces n ++ body line := by
    rw [content, hstrip, ← List.append_assoc, Text.trimEnd_append_of_blank hs]
    refine Text.trimEnd_eq_self ?_
    rw [List.getLast?_append_of_ne_nil _ filled]
    exact htight.last
  have hbody : dropSpaces (content line) = body line := by
    rw [hcontent]
    exact dropSpaces_spaces_append fun hhead => absurd (htight.first ' ' hhead) (by decide)
  have hvoid : isVoid (body line) = (body line == marker) := by
    rw [isVoid, List.isEmpty_eq_false_iff.2 filled, Bool.false_or]
  have htab : ((body line).head? == some '\t') = false := by
    rw [beq_eq_false_iff_ne]
    exact fun hhead => absurd (htight.first '\t' hhead) (by decide)
  have hlength : (content line).length - (body line).length = n := by
    rw [hcontent, List.length_append, spaces, List.length_replicate]
    omega
  simp only [readLine, hbody, hvoid, htab, hlength, beq_iff_eq, Bool.false_eq_true, if_false]
  split <;> rfl

theorem startsToken (h : TidyLine line) (filled : body line ≠ []) {n : Nat} {s : List Char}
    (hstrip : stripComment line = spaces n ++ (body line ++ s)) : StartsToken (body line) := by
  have hfirst := h.first
  obtain ⟨x, r, hx⟩ := List.exists_cons_of_ne_nil filled
  have hblank : Text.isBlank x = false := (Text.tight_trim _).first x (by
    show (body line).head? = some x
    rw [hx]
    rfl)
  refine ⟨x, r, hx, isGap_eq_false hblank, ?_, by simpa [hx] using hfirst⟩
  rintro rfl
  rw [hx] at hstrip
  exact stripComment_ne_hash line n (r ++ s) hstrip

/-- The line that a line of a tidy text is read as. -/
theorem exists_row (h : TidyLine line) (filled : body line ≠ []) (number : Nat) :
    ∃ l : Line, l.text = body line ∧ l.Cut ∧ (l.text = marker → l.indent = 0) ∧
      readLine number line = .ok (if l.text = marker then none else some l) ∧
      ∀ ls e, Ending ls e → Holds (l :: ls) (line ++ e) := by
  obtain ⟨n, s, t, hline, hstrip, hs, tail⟩ := h.exists_tail filled
  have htight : Text.Tight (body line) := Text.tight_trim _
  refine ⟨⟨number, n, body line⟩, rfl, ⟨fun c hc => h.unbroken c ?_, ?_, htight.last⟩, ?_, ?_, ?_⟩
  · rw [hline]
    exact List.mem_append_right _ (List.mem_append_left _ hc)
  · exact fun hhead => absurd (htight.first ' ' hhead) (by decide)
  · intro hmark
    -- A marker further in would have a space in front of it.
    have hhead := h.aligned hmark
    cases n with
    | zero => rfl
    | succ n =>
      rw [hline] at hhead
      exact absurd (Option.some.inj hhead) (by decide)
  · exact readLine_cons filled hstrip hs
  · intro ls e ending
    have hholds :=
      Holds.line (l := ⟨number, n, body line⟩) (h.startsToken filled hstrip) tail ending
    have happend : line ++ e = spaces n ++ (body line ++ (t ++ e)) := by
      rw [← List.append_assoc, ← List.append_assoc, List.append_assoc (spaces n), ← hline]
    rw [happend]
    exact hholds

end TidyLine

/-- Lines with a body, the marks of documents among them, and what is read of them. -/
structure HeldBy (number : Nat) (lines : List (List Char)) (rows : List Line) : Prop where
  texts : rows.map Line.text = (lines.map body).filter (· ≠ [])
  cut : ∀ l ∈ rows, l.Cut
  aligned : ∀ l ∈ rows, l.text = marker → l.indent = 0
  read : readLines number lines = .ok (rows.filter (·.text ≠ marker))

/-- One more tidy line in front holds one more row, or none. -/
theorem HeldBy.exists_cons {number : Nat} {line e : List Char} {lines : List (List Char)}
    {rows : List Line} (h : HeldBy (number + 1) lines rows) (tidy : TidyLine line)
    (ending : Ending rows e) :
    ∃ rows', HeldBy number (line :: lines) rows' ∧ Holds rows' (line ++ e) := by
  by_cases filled : body line = []
  · refine ⟨rows, ⟨?_, h.cut, h.aligned, ?_⟩, tidy.holds_nil filled ending⟩
    · simp [h.texts, filled]
    · simp [readLines, TidyLine.readLine_nil filled, h.read]
  · obtain ⟨l, htext, cut, aligned, hread, hholds⟩ := tidy.exists_row filled number
    refine ⟨l :: rows, ⟨?_, ?_, ?_, ?_⟩, hholds rows e ending⟩
    · simp [h.texts, htext, filled]
    · exact List.forall_mem_cons.2 ⟨cut, h.cut⟩
    · exact List.forall_mem_cons.2 ⟨aligned, h.aligned⟩
    · rw [readLines, hread, h.read, List.filter_cons]
      by_cases hmark : l.text = marker <;> simp [hmark]

/-- The text of tidy lines holds what is read of each. -/
theorem Spelled.exists_holds {lines : List (List Char)} {text : List Char} (h : Spelled lines text)
    (tidy : ∀ line ∈ lines, TidyLine line) (number : Nat) :
    ∃ rows, HeldBy number lines rows ∧ Holds rows text := by
  have hnil (number : Nat) : HeldBy number [] [] := ⟨rfl, by simp, by simp, rfl⟩
  induction h generalizing number with
  | nil =>
    have hholds : Holds [] (spaces 0 ++ []) := .void .last
    exact ⟨[], hnil number, hholds⟩
  | @last line =>
    obtain ⟨rows, hheld, hholds⟩ := (hnil (number + 1)).exists_cons (tidy line (by simp)) .last
    rw [List.append_nil] at hholds
    exact ⟨rows, hheld, hholds⟩
  | next _ ih =>
    obtain ⟨rows, hheld, hholds⟩ := ih (fun line hline => tidy line (List.mem_cons_of_mem _ hline))
      (number + 1)
    exact hheld.exists_cons (tidy _ List.mem_cons_self) (.next hholds)

/-- A tidy text holds its significant lines, with a mark of documents in front or without one, and
they are clear. -/
theorem Tidy.exists_holds {text : List Char} {ls : List Line} (tidy : Tidy text)
    (h : significantLines text = .ok ls) :
    (∀ l ∈ ls, l.Clear) ∧ ∃ marks : List Line, Holds (marks ++ ls) (unifyBreaks text) ∧
      (marks = [] ∨ ∃ m : Line, marks = [m] ∧ m.text = marker ∧ m.indent = 0) := by
  have hbreaks : ∀ line ∈ Text.lines text, ∀ c ∈ line, c ≠ '\r' ∧ c ≠ '\u0085' := by
    intro line hline c hc
    exact ((tidy.lines line hline).unbroken c hc).2
  obtain ⟨rows, hheld, hholds⟩ := (spelled_unifyBreaks hbreaks).exists_holds tidy.lines 1
  obtain rfl : ls = rows.filter (·.text ≠ marker) := Except.ok.inj (h.symm.trans hheld.read)
  refine ⟨fun l hl => ?_, ?_⟩
  · exact (hheld.cut l (List.mem_of_mem_filter hl)).clear (tidy.rows _ h l hl)
  · have hmarked : marker ∉ (rows.map Line.text).tail := by
      rw [hheld.texts]
      exact tidy.marked
    -- Only the first line may be a mark, so at most that one is dropped.
    cases rows with
    | nil => exact ⟨[], hholds, Or.inl rfl⟩
    | cons l rows =>
      have hrows : rows.filter (·.text ≠ marker) = rows := by
        refine List.filter_eq_self.2 fun l' hl' => ?_
        have hne : l'.text ≠ marker := fun hmark =>
          hmarked (List.mem_map.2 ⟨l', hl', hmark⟩)
        simpa using hne
      rw [List.filter_cons, hrows]
      by_cases hmark : l.text = marker
      · exact ⟨[l], by simpa [hmark] using hholds,
          Or.inr ⟨l, rfl, hmark, hheld.aligned l List.mem_cons_self hmark⟩⟩
      · exact ⟨[], by simpa [hmark] using hholds, Or.inl rfl⟩

end Workflow.Outline
