import Workflow.Proofs.Yaml.Movement
import Mathlib.Data.List.Basic

namespace Workflow.Yaml

theorem isGap_of_isBlank {c : Char} (h : isBlank c = true) : isGap c = true := by
  rw [isGap, h, Bool.true_or]

/-- Blanks are taken into a gap that is not broken. -/
theorem takeGap_append {indent fuel : Nat} {s y : List Char} {g : Gap} {c : Cursor}
    (hs : ∀ x ∈ s, isBlank x = true) (hc : c.rest = s ++ y) (hg : g.broken = false) :
    takeGap indent (fuel + s.length) g c =
      takeGap indent fuel { g with blanks := s.reverse ++ g.blanks } (c.skip s.length) := by
  induction s generalizing g c with
  | nil => rfl
  | cons x s ih =>
    have hx : isBlank x = true := hs x List.mem_cons_self
    have hadd : g.addBlank x = { g with blanks := x :: g.blanks } := by
      simp [Gap.addBlank, hg]
    have hskip : (c.skip 1).rest = s ++ y := by rw [Cursor.skip_rest, hc]; rfl
    have hnext := @ih (g.addBlank x) (c.skip 1) (fun y hy => hs y (List.mem_cons_of_mem _ hy))
      hskip (by rw [hadd]; exact hg)
    rw [List.length_cons, ← Nat.add_assoc, takeGap, hc, List.cons_append]
    simp only [hx, if_true, hg, Bool.false_and, Bool.false_eq_true, if_false, hnext]
    rw [hadd, Cursor.skip_skip, Nat.add_comm 1]
    simp [hg]

/-- Spaces behind a break leave no trace. -/
theorem takeGap_spaces {indent fuel n : Nat} {y : List Char} {g : Gap} {c : Cursor}
    (hc : c.rest = List.replicate n ' ' ++ y) (hg : g.broken = true) :
    takeGap indent (fuel + n) g c = takeGap indent fuel g (c.skip n) := by
  induction n generalizing c with
  | zero => rfl
  | succ n ih =>
    have hskip : (c.skip 1).rest = List.replicate n ' ' ++ y := by rw [Cursor.skip_rest, hc]; rfl
    have hadd : g.addBlank ' ' = g := by simp [Gap.addBlank, hg]
    have htab : (' ' == '\t') = false := by decide
    have hblank : isBlank ' ' = true := by decide
    rw [← Nat.add_assoc, takeGap, hc, List.replicate_succ, List.cons_append]
    simp only [hblank, if_true, htab, Bool.and_false, Bool.false_eq_true, if_false, hadd]
    rw [ih hskip, Cursor.skip_skip, Nat.add_comm 1]

/-- A gap ends before a character that is none. -/
theorem takeGap_of_startsWith {indent fuel : Nat} {g : Gap} {c : Cursor}
    (hc : startsWith isGap c.rest = false) : takeGap indent (fuel + 1) g c = some (g, c) := by
  rw [takeGap]
  cases hrest : c.rest with
  | nil => rfl
  | cons x r =>
    have hx : isGap x = false := by simpa [hrest, startsWith] using hc
    rw [isGap, Bool.or_eq_false_iff] at hx
    simp [hx.1, hx.2]

theorem takeGap_length {indent fuel : Nat} {g g' : Gap} {c c' : Cursor}
    (h : takeGap indent fuel g c = some (g', c')) : c'.rest.length ≤ c.rest.length := by
  induction fuel generalizing g c with
  | zero => simp [takeGap] at h
  | succ fuel ih =>
    rw [takeGap] at h
    split at h
    · simp only [Option.some.injEq, Prod.mk.injEq] at h
      exact h.2 ▸ Nat.le_refl _
    · rename_i x r hrest
      -- Passing a blank or a break makes the rest shorter; at any other character the gap ends.
      rcases ite_eq_iff.1 h with ⟨-, h⟩ | ⟨-, h⟩
      · rcases ite_eq_iff.1 h with ⟨-, h⟩ | ⟨-, h⟩
        · simp at h
        · have hskip := ih h
          rw [Cursor.skip_rest, List.length_drop] at hskip
          omega
      · rcases ite_eq_iff.1 h with ⟨-, h⟩ | ⟨-, h⟩
        · have hnext := ih h
          rw [Cursor.nextLine, List.length_drop] at hnext
          omega
        · simp only [Option.some.injEq, Prod.mk.injEq] at h
          exact h.2 ▸ Nat.le_refl _

/-- Blanks of one line make an unbroken gap. -/
theorem takeGap_blanks {indent fuel : Nat} {s y : List Char} {g : Gap} {c : Cursor}
    (hs : ∀ x ∈ s, isBlank x = true) (hc : c.rest = s ++ y) (hy : startsWith isGap y = false)
    (hg : g.broken = false) (hf : s.length < fuel) :
    takeGap indent fuel g c = some ({ g with blanks := s.reverse ++ g.blanks },
      c.skip s.length) := by
  obtain ⟨fuel, rfl⟩ : ∃ n, fuel = n + 1 + s.length := ⟨fuel - s.length - 1, by omega⟩
  rw [takeGap_append hs hc hg, takeGap_of_startsWith]
  rw [Cursor.skip_rest_of_append hc, hy]

structure IsWord (w : List Char) : Prop where
  filled : w ≠ []
  solid : ∀ c ∈ w, isGap c = false
  closed : w.getLast? ≠ some ':'

def EndsWord (y : List Char) : Prop :=
  plainWord false y = some ([], y)

theorem endsWord_nil : EndsWord [] := rfl

theorem endsWord_of_gap {y : List Char} (h : startsWith isGap y = true) : EndsWord y := by
  cases y with
  | nil => simp [startsWith] at h
  | cons c r =>
    have hc : isGap c = true := h
    rw [EndsWord, plainWord, hc]
    rfl

theorem endsWord_of_atGap {y : List Char} (h : atGap y = true) : EndsWord y := by
  cases y with
  | nil => exact endsWord_nil
  | cons c r => exact endsWord_of_gap h

theorem endsWord_of_colon {y : List Char} (h : atGap y = true) : EndsWord (':' :: y) := by
  rw [EndsWord, plainWord]
  simp [isGap, isBlank, isBreak, h]

theorem plainWord_append {w y : List Char} (hw : IsWord w) (hy : EndsWord y) :
    plainWord false (w ++ y) = some (w, y) := by
  obtain ⟨hfilled, hsolid, hclosed⟩ := hw
  induction w with
  | nil => exact absurd rfl hfilled
  | cons c r ih =>
    have hc : isGap c = false := hsolid c List.mem_cons_self
    rw [List.cons_append, plainWord, hc]
    -- Only the last character is followed by `y`; a colon in front of it has more of the word
    -- behind it.
    cases r with
    | nil =>
      have hcolon : (c == ':') = false := by simpa using hclosed
      simp only [List.nil_append, hcolon, Bool.false_and, Bool.and_false, Bool.or_self,
        Bool.false_eq_true, if_false]
      rw [EndsWord] at hy
      rw [hy]
    | cons d r =>
      have hd : isGap d = false := hsolid d (by simp)
      have hnext := ih (List.cons_ne_nil d r) (fun x hx => hsolid x (List.mem_cons_of_mem _ hx))
        (by simpa using hclosed)
      have hgap : atGap (d :: r ++ y) = false := by simpa [atGap] using hd
      simp only [hgap, Bool.and_false, Bool.false_and, Bool.or_self, Bool.false_eq_true, if_false,
        hnext]

/-- What stands behind a word ends it. -/
theorem plainWord_eq_some {t w y : List Char} (h : plainWord false t = some (w, y)) :
    t = w ++ y ∧ (∀ c ∈ w, isGap c = false) ∧ EndsWord y ∧
      (w.getLast? = some ':' → atGap y = false) := by
  induction t generalizing w y with
  | nil =>
    simp only [plainWord, Option.some.injEq, Prod.mk.injEq] at h
    obtain ⟨rfl, rfl⟩ := h
    simp [endsWord_nil]
  | cons c r ih =>
    rw [plainWord] at h
    -- The word ends before a gap, and before a colon that has a gap behind it.
    by_cases hc : isGap c = true
    · simp only [hc, if_true, Option.some.injEq, Prod.mk.injEq] at h
      obtain ⟨rfl, rfl⟩ := h
      exact ⟨rfl, by simp, endsWord_of_gap hc, by simp⟩
    · simp only [hc, Bool.false_and, Bool.false_eq_true, if_false, Bool.or_false] at h
      by_cases hcolon : (c == ':' && atGap r) = true
      · simp only [hcolon, if_true, Option.some.injEq, Prod.mk.injEq] at h
        obtain ⟨rfl, rfl⟩ := h
        simp only [Bool.and_eq_true, beq_iff_eq] at hcolon
        exact ⟨rfl, by simp, hcolon.1 ▸ endsWord_of_colon hcolon.2, by simp⟩
      · simp only [hcolon] at h
        cases hr : plainWord false r with
        | none => simp [hr] at h
        | some result =>
          obtain ⟨w', y'⟩ := result
          simp only [hr, Bool.false_eq_true, if_false, Option.some.injEq, Prod.mk.injEq] at h
          obtain ⟨rfl, rfl⟩ := h
          obtain ⟨rfl, hsolid, hends, hlast⟩ := ih hr
          refine ⟨rfl, ?_, hends, ?_⟩
          · intro x hx
            rcases List.mem_cons.1 hx with rfl | hx
            · simpa using hc
            · exact hsolid x hx
          · intro h
            cases w' with
            | nil =>
              have hx : c = ':' := by simpa using h
              simpa [hx] using hcolon
            | cons d w' => exact hlast (by simpa using h)

/-- Words with blanks between them, as a plain scalar of one line is written. -/
inductive PlainText : List Char → Prop
  | word {w : List Char} (word : IsWord w) : PlainText w
  | gap {w s r : List Char} (word : IsWord w) (blank : ∀ c ∈ s, isBlank c = true) (filled : s ≠ [])
      (rest : PlainText r) (hash : r.head? ≠ some '#') : PlainText (w ++ (s ++ r))

def plainEnd (indent fuel : Nat) (read : List Char) (c : Cursor) : Option ScalarScan :=
  if !startsWith isGap c.rest then some ⟨read, false, c⟩
  else
    match takeGap indent (c.rest.length + 1) {} c with
    | none => none
    | some (gap, c) =>
      if c.column < indent then some ⟨read, gap.broken, c⟩
      else plainWords false indent fuel read gap c

theorem PlainText.exists_cons {s : List Char} (h : PlainText s) :
    ∃ x r, s = x :: r ∧ isGap x = false := by
  have hword {w t : List Char} (hw : IsWord w) : ∃ x r, w ++ t = x :: r ∧ isGap x = false := by
    cases hw' : w with
    | nil => exact absurd hw' hw.filled
    | cons x r => exact ⟨x, r ++ t, rfl, hw.solid x (by simp [hw'])⟩
  cases h with
  | word hw => simpa using @hword s [] hw
  | gap hw _ _ _ _ => exact hword hw

theorem sees_eq_false {c : Cursor} {x : Char} (h : c.rest.head? ≠ some x) : c.sees x = false := by
  cases hc : c.rest with
  | nil => simp [Cursor.sees, hc, startsWith]
  | cons y r =>
    have hy : y ≠ x := by simpa [hc] using h
    simp [Cursor.sees, hc, startsWith, hy]

/-- One word of a plain scalar. -/
theorem plainWords_word {indent fuel : Nat} {read w y : List Char} {gap : Gap} {c : Cursor}
    (hw : IsWord w) (hc : c.rest = w ++ y) (hy : EndsWord y) (hmarker : c.atMarker = false)
    (hhash : w.head? ≠ some '#') :
    plainWords false indent (fuel + 1) read gap c =
      plainEnd indent fuel (read ++ gap.text ++ w) (c.skip w.length) := by
  have hsees : c.sees '#' = false := by
    apply sees_eq_false
    rwa [hc, List.head?_append_of_ne_nil _ hw.filled]
  have hempty : w.isEmpty = false := by simpa using hw.filled
  have hword : plainWord false c.rest = some (w, y) := by rw [hc, plainWord_append hw hy]
  rw [plainWords]
  simp only [hmarker, hsees, Bool.or_self, Bool.false_eq_true, if_false, hword, hempty,
    Bool.not_false, Bool.true_and, decide_eq_true_eq]
  rfl

/-- The words of a plain scalar are read as they are written. The scalar begins to the left of
column `indent` by at most one. -/
theorem plainWords_of_plainText {indent : Nat} {src y : List Char} (h : PlainText src)
    (hy : EndsWord y) (hhash : src.head? ≠ some '#') {fuel : Nat} {read : List Char} {gap : Gap}
    {c : Cursor} (hc : c.rest = src ++ y) (hmarker : c.atMarker = false) (hf : src.length < fuel)
    (hindent : indent ≤ c.column + 1) :
    ∃ left, fuel - src.length ≤ left ∧ plainWords false indent fuel read gap c =
      plainEnd indent left (read ++ gap.text ++ src) (c.skip src.length) := by
  induction h generalizing fuel read gap c with
  | word hw =>
    obtain ⟨fuel, rfl⟩ : ∃ n, fuel = n + 1 := ⟨fuel - 1, by omega⟩
    refine ⟨fuel, ?_, plainWords_word hw hc hy hmarker hhash⟩
    have hpos := List.length_pos_iff.2 hw.filled
    omega
  | @gap w s r hw hblank hfilled hrest hr ih =>
    obtain ⟨fuel, rfl⟩ : ∃ n, fuel = n + 1 := ⟨fuel - 1, by omega⟩
    have hpos := List.length_pos_iff.2 hw.filled
    obtain ⟨x, t, rfl, hx⟩ := hrest.exists_cons
    have hgap : startsWith isGap (s ++ (x :: t ++ y)) = true := by
      cases s with
      | nil => exact absurd rfl hfilled
      | cons b s => exact isGap_of_isBlank (hblank b List.mem_cons_self)
    have hc' : c.rest = w ++ (s ++ (x :: t ++ y)) := by simp [hc]
    have hhash' : w.head? ≠ some '#' := by
      rwa [List.head?_append_of_ne_nil _ hw.filled] at hhash
    rw [plainWords_word hw hc' (endsWord_of_gap hgap) hmarker hhash']
    -- Behind the word comes a gap within the line, and then the next word.
    have hskip : (c.skip w.length).rest = s ++ (x :: t ++ y) := Cursor.skip_rest_of_append hc'
    have htake : takeGap indent ((c.skip w.length).rest.length + 1) {} (c.skip w.length) =
        some ({ blanks := s.reverse }, (c.skip w.length).skip s.length) := by
      have := @takeGap_blanks indent ((c.skip w.length).rest.length + 1) s (x :: t ++ y) {}
        (c.skip w.length) hblank hskip (by simpa [startsWith] using hx) rfl
        (by rw [hskip, List.length_append]; omega)
      simpa using this
    have hcolumn : ¬((c.skip w.length).skip s.length).column < indent := by
      simp only [Cursor.skip_column]
      omega
    have hlater : 0 < ((c.skip w.length).skip s.length).column := by
      simp only [Cursor.skip_column]
      omega
    have hlen : (w ++ (s ++ x :: t)).length = w.length + (s.length + (x :: t).length) := by simp
    obtain ⟨left, hleft, heq⟩ := @ih hr fuel (read ++ gap.text ++ w) { blanks := s.reverse }
      ((c.skip w.length).skip s.length) (Cursor.skip_rest_of_append hskip)
      (Cursor.atMarker_of_column hlater) (by omega) (by omega)
    refine ⟨left, by omega, ?_⟩
    rw [plainEnd, hskip, hgap]
    rw [hskip] at htake
    simp only [Bool.not_true, Bool.false_eq_true, if_false, htake, hcolumn, heq]
    rw [Cursor.skip_skip, Cursor.skip_skip, hlen]
    simp [Gap.text]

/-- No word of a plain scalar begins here: a comment does, or the text ends, or a colon stands
alone. -/
def NoWord (y : List Char) : Prop :=
  y.head? = some '#' ∨ startsWith isGap y = false ∧ EndsWord y

theorem plainWords_of_noWord {indent fuel : Nat} {read : List Char} {gap : Gap} {c : Cursor}
    (h : NoWord c.rest) : plainWords false indent (fuel + 1) read gap c =
      some ⟨read, gap.broken, c⟩ := by
  rw [plainWords]
  by_cases hsees : (c.atMarker || c.sees '#') = true
  · rw [if_pos hsees]
  · rw [if_neg hsees]
    rcases h with h | ⟨hgap, hends⟩
    · refine absurd ?_ hsees
      cases hrest : c.rest with
      | nil => simp [hrest] at h
      | cons x r => simp [Cursor.sees, startsWith, hrest, show x = '#' by simpa [hrest] using h]
    · rw [EndsWord] at hends
      simp only [hends, List.length_nil, Cursor.skip_zero, List.isEmpty_nil, if_true, hgap,
        Bool.not_false]

/-- Behind its last word a plain scalar takes the gap to what stops it. -/
theorem plainEnd_of_takeGap {indent fuel : Nat} {read : List Char} {gap : Gap} {c c' : Cursor}
    (hgap : startsWith isGap c.rest = true) (htake : takeGap indent (c.rest.length + 1) {} c =
      some (gap, c'))
    (hstop : c'.column < indent ∨ NoWord c'.rest) :
    plainEnd indent (fuel + 1) read c = some ⟨read, gap.broken, c'⟩ := by
  rw [plainEnd, hgap, htake]
  simp only [Bool.not_true, Bool.false_eq_true, if_false]
  split
  · rfl
  · rcases hstop with h | h
    · contradiction
    · exact plainWords_of_noWord h

/-- A plain scalar ends on its line. -/
theorem plainEnd_blanks {indent fuel : Nat} {read s z : List Char} {c : Cursor}
    (hs : ∀ x ∈ s, isBlank x = true) (hc : c.rest = s ++ z) (hz : startsWith isGap z = false)
    (hstop : s ≠ [] → NoWord z) :
    plainEnd indent (fuel + 1) read c = some ⟨read, false, c.skip s.length⟩ := by
  cases s with
  | nil =>
    rw [List.nil_append] at hc
    rw [plainEnd, hc, hz]
    rfl
  | cons x s =>
    have hgap : startsWith isGap c.rest = true := by
      rw [hc]
      exact isGap_of_isBlank (hs x List.mem_cons_self)
    have htake := @takeGap_blanks indent (c.rest.length + 1) (x :: s) z {} c hs hc hz rfl (by
      rw [hc, List.length_append]
      omega)
    refine plainEnd_of_takeGap hgap htake (Or.inr ?_)
    rw [Cursor.skip_rest_of_append hc]
    exact hstop (List.cons_ne_nil x s)

/-- Words with blanks between them are read as one plain scalar. -/
theorem scanPlain_of_plainText {indent : Nat} {src y : List Char} {c : Cursor} (h : PlainText src)
    (hy : EndsWord y) (hhash : src.head? ≠ some '#') (hc : c.rest = src ++ y)
    (hmarker : c.atMarker = false) (hindent : indent ≤ c.column + 1) :
    ∃ fuel, scanPlain false indent c = plainEnd indent (fuel + 1) src (c.skip src.length) := by
  have hlength : c.rest.length = src.length + y.length := by rw [hc, List.length_append]
  obtain ⟨left, hleft, heq⟩ := @plainWords_of_plainText indent src y h hy hhash
    (c.rest.length + 1) [] {} c hc hmarker (by omega) hindent
  refine ⟨left - 1, ?_⟩
  have hfuel : left - 1 + 1 = left := by omega
  rw [hfuel]
  exact heq

def StopsPlain (left : List Char) : Prop :=
  left = [] ∨ left.head? = some '#' ∨ left.head? = some ':'

/-- How a plain scalar of one line was read: nothing of it was left, or a text and the blanks behind
it were taken. -/
inductive PlainRead (read : List Char) (gap : Gap) (c : Cursor) : ScalarScan → Prop
  | stop (stops : StopsPlain c.rest) : PlainRead read gap c ⟨read, false, c⟩
  | text {src s left : List Char} (rest : c.rest = src ++ (s ++ left)) (filled : src ≠ [])
      (plain : left.head? ≠ some ':' → PlainText src) (hash : src.head? ≠ some '#')
      (blank : ∀ x ∈ s, isBlank x = true) (stops : StopsPlain left)
      (apart : s = [] → left.head? ≠ some '#') :
      PlainRead read gap c ⟨read ++ gap.text ++ src, false, c.skip (src.length + s.length)⟩

theorem stopsPlain_of_endsWord {y : List Char} (hy : EndsWord y)
    (hgap : startsWith isGap y = false) :
    y = [] ∨ y.head? = some ':' := by
  cases y with
  | nil => exact Or.inl rfl
  | cons c r =>
    have hc : isGap c = false := hgap
    rw [EndsWord, plainWord, hc] at hy
    by_cases hcolon : (c == ':' && atGap r) = true
    · simp only [Bool.and_eq_true, beq_iff_eq] at hcolon
      exact Or.inr (by rw [hcolon.1]; rfl)
    · simp only [hcolon, Bool.false_and, Bool.false_eq_true, if_false, Bool.or_false] at hy
      cases hr : plainWord false r with
      | none => simp [hr] at hy
      | some result => simp [hr] at hy

/-- The blanks at the start of a rest of one line, and what follows them. -/
theorem exists_blanks_append {y : List Char} (h : OneLine y) :
    ∃ s z, y = s ++ z ∧ (∀ x ∈ s, isBlank x = true) ∧ startsWith isGap z = false ∧
      (startsWith isGap y = true → s ≠ []) := by
  induction y with
  | nil => exact ⟨[], [], rfl, by simp, rfl, by simp [startsWith]⟩
  | cons c r ih =>
    by_cases hc : isBlank c = true
    · obtain ⟨s, z, rfl, hs, hz, -⟩ := ih fun x hx => h x (List.mem_cons_of_mem _ hx)
      refine ⟨c :: s, z, rfl, ?_, hz, by simp⟩
      intro x hx
      rcases List.mem_cons.1 hx with rfl | hx
      · exact hc
      · exact hs x hx
    · have hgap : isGap c = false := by
        rw [isGap, h c List.mem_cons_self, Bool.or_false]
        simpa using hc
      exact ⟨[], c :: r, rfl, by simp, hgap, by simp [startsWith, hgap]⟩

/-- What is taken before a gap or the end of the text is a word. -/
theorem isWord_of_plainWord {t w y : List Char} (h : plainWord false t = some (w, y)) (hw : w ≠ [])
    (hy : y = [] ∨ startsWith isGap y = true) : IsWord w := by
  obtain ⟨-, hsolid, -, hlast⟩ := plainWord_eq_some h
  refine ⟨hw, hsolid, fun hcolon => ?_⟩
  have hgap : atGap y = false := hlast hcolon
  rcases hy with rfl | hy
  · simp [atGap] at hgap
  · cases y with
    | nil => simp [startsWith] at hy
    | cons d t =>
      have hd : isGap d = true := hy
      simp [atGap, hd] at hgap

/-- One step behind a gap: the scalar ended before the gap, or one more word is read. -/
theorem plainWords_cases {fuel : Nat} {read : List Char} {gap : Gap} {c : Cursor} {r : ScalarScan}
    (h : plainWords false 0 (fuel + 1) read gap c = some r)
    (hstart : startsWith isGap c.rest = false) (hmarker : c.atMarker = false) :
    StopsPlain c.rest ∧ r = ⟨read, gap.broken, c⟩ ∨
    ∃ w y, plainWord false c.rest = some (w, y) ∧ w ≠ [] ∧ w.head? ≠ some '#' ∧
      plainEnd 0 fuel (read ++ gap.text ++ w) (c.skip w.length) = some r := by
  -- The scalar ends at a comment, and where a word would have no character: at a colon or at the
  -- end.
  by_cases hhash : c.rest.head? = some '#'
  · rw [plainWords_of_noWord (Or.inl hhash), Option.some.injEq] at h
    exact .inl ⟨Or.inr (Or.inl hhash), h.symm⟩
  have hsees : c.sees '#' = false := sees_eq_false hhash
  cases hword : plainWord false c.rest with
  | none => simp [plainWords, hmarker, hsees, hword] at h
  | some result =>
    obtain ⟨w, y⟩ := result
    obtain ⟨hrest, -, hends, -⟩ := plainWord_eq_some hword
    cases w with
    | nil =>
      rw [List.nil_append] at hrest
      rw [← hrest] at hends
      rw [plainWords_of_noWord (Or.inr ⟨hstart, hends⟩), Option.some.injEq] at h
      exact .inl ⟨(stopsPlain_of_endsWord hends hstart).imp_right Or.inr, h.symm⟩
    | cons x w =>
      refine .inr ⟨x :: w, y, rfl, List.cons_ne_nil x w, by simpa [hrest] using hhash, ?_⟩
      rw [plainWords] at h
      simp only [hmarker, hsees, Bool.or_self, Bool.false_eq_true, if_false, hword,
        List.isEmpty_cons, Bool.not_false, Bool.true_and, decide_eq_true_eq] at h
      exact h

/-- Behind a word that ends its line's text comes another one, or the scalar ends there. -/
theorem plainEnd_cases {fuel : Nat} {read : List Char} {c : Cursor} {r : ScalarScan}
    (h : plainEnd 0 fuel read c = some r) (hline : OneLine c.rest) :
    startsWith isGap c.rest = false ∧ r = ⟨read, false, c⟩ ∨
    ∃ s z, c.rest = s ++ z ∧ (∀ x ∈ s, isBlank x = true) ∧ s ≠ [] ∧ startsWith isGap z = false ∧
      plainWords false 0 fuel read { blanks := s.reverse } (c.skip s.length) = some r := by
  by_cases hgap : startsWith isGap c.rest = true
  · obtain ⟨s, z, hrest, hs, hz, hfilled⟩ := exists_blanks_append hline
    have htake := @takeGap_blanks 0 (c.rest.length + 1) s z {} c hs hrest hz rfl
      (by rw [hrest, List.length_append]; omega)
    rw [plainEnd, hgap, htake] at h
    refine .inr ⟨s, z, hrest, hs, hfilled hgap, hz, ?_⟩
    simpa using h
  · rw [Bool.not_eq_true] at hgap
    rw [plainEnd, hgap] at h
    exact .inl ⟨hgap, by simpa using h.symm⟩

/-- A word and a gap before what was read. -/
theorem PlainRead.of_word {read w s z : List Char} {gap : Gap} {c : Cursor} {r : ScalarScan}
    (hrest : c.rest = w ++ (s ++ z)) (hw : IsWord w) (hhash : w.head? ≠ some '#')
    (hs : ∀ x ∈ s, isBlank x = true) (hfilled : s ≠ [])
    (h : PlainRead (read ++ gap.text ++ w) { blanks := s.reverse }
      ((c.skip w.length).skip s.length) r) :
    PlainRead read gap c r := by
  have hz : ((c.skip w.length).skip s.length).rest = z :=
    Cursor.skip_rest_of_append (Cursor.skip_rest_of_append hrest)
  have htext : ({ blanks := s.reverse } : Gap).text = s := by simp [Gap.text]
  -- If nothing was taken behind the gap, the word is the last one. Otherwise the text goes on
  -- behind the gap.
  cases h with
  | stop stops =>
    rw [hz] at stops
    rw [Cursor.skip_skip]
    exact .text hrest hw.filled (fun _ => .word hw) hhash hs stops fun hnil => absurd hnil hfilled
  | @text src s' left rest filled plain hash blank stops apart =>
    rw [hz] at rest
    subst rest
    have hlength : (w ++ (s ++ src)).length + s'.length =
        w.length + (s.length + (src.length + s'.length)) := by
      simp only [List.length_append]
      omega
    have hall : PlainRead read gap c ⟨read ++ gap.text ++ (w ++ (s ++ src)), false,
        c.skip ((w ++ (s ++ src)).length + s'.length)⟩ := by
      refine .text (by simp [hrest]) (by simp [hw.filled]) (fun hleft => ?_) ?_ blank stops apart
      · exact .gap hw hs hfilled (plain hleft) hash
      · rwa [List.head?_append_of_ne_nil _ hw.filled]
    rw [htext, Cursor.skip_skip, Cursor.skip_skip, ← hlength]
    simpa using hall

/-- What is read as a plain scalar of one line was read in one of two ways. -/
theorem plainRead_of_eq_some {fuel : Nat} {read : List Char} {gap : Gap} {c : Cursor}
    {r : ScalarScan} (h : plainWords false 0 fuel read gap c = some r) (hline : OneLine c.rest)
    (hstart : startsWith isGap c.rest = false) (hmarker : c.atMarker = false)
    (hgap : gap.broken = false) : PlainRead read gap c r := by
  induction fuel generalizing read gap c with
  | zero => simp [plainWords] at h
  | succ fuel ih =>
    rcases plainWords_cases h hstart hmarker with ⟨hstops, rfl⟩ | ⟨w, y, hword, hfilled, hhash, h⟩
    · exact hgap ▸ .stop hstops
    obtain ⟨hrest, -, hends, -⟩ := plainWord_eq_some hword
    have hskip : (c.skip w.length).rest = y := Cursor.skip_rest_of_append hrest
    have hline' : OneLine y := by
      rw [hrest] at hline
      exact hline.of_append_right
    rcases plainEnd_cases h (hskip ▸ hline') with ⟨hy, rfl⟩ | ⟨s, z, hy, hs, hs', hz, h⟩
    · -- No gap follows, so the word is the last one: the line ends behind it, or a colon stands
      -- there.
      rw [hskip] at hy
      have hstop := stopsPlain_of_endsWord hends hy
      refine .text (s := []) (by simpa using hrest) hfilled ?_ hhash (by simp)
        (hstop.imp_right Or.inr) ?_
      · intro hcolon
        exact .word (isWord_of_plainWord hword hfilled (.inl (hstop.resolve_right hcolon)))
      · rintro -
        rcases hstop with rfl | hcolon
        · simp
        · simp [hcolon]
    · rw [hskip] at hy
      subst hy
      have hz' : ((c.skip w.length).skip s.length).rest = z := Cursor.skip_rest_of_append hskip
      have hgap' : startsWith isGap (s ++ z) = true := by
        cases s with
        | nil => exact absurd rfl hs'
        | cons x s => exact isGap_of_isBlank (hs x List.mem_cons_self)
      have hlater : 0 < ((c.skip w.length).skip s.length).column := by
        have hpos := List.length_pos_iff.2 hs'
        rw [Cursor.skip_column]
        omega
      refine .of_word hrest (isWord_of_plainWord hword hfilled (.inr hgap')) hhash hs hs' ?_
      exact ih h (hz' ▸ hline'.of_append_right) (hz' ▸ hz) (Cursor.atMarker_of_column hlater) rfl

end Workflow.Yaml
