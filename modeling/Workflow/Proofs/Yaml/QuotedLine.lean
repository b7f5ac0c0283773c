import Workflow.Proofs.Yaml.PlainLine

namespace Workflow.Yaml

def quoteOf (single : Bool) : Char :=
  if single then '\'' else '"'

/-- What stands behind the opening quote up to the closing one, and the text that it stands for. -/
inductive QuotedText (single : Bool) : (source value : List Char) → Prop
  | close : QuotedText single [quoteOf single] []
  | char {x : Char} {src val : List Char} (ordinary : x ≠ quoteOf single)
      (plain : single = false → x ≠ '\\') (line : isBreak x = false)
      (rest : QuotedText single src val) : QuotedText single (x :: src) (x :: val)
  | doubled {src val : List Char} (double : single = true) (rest : QuotedText single src val) :
      QuotedText single ('\'' :: '\'' :: src) ('\'' :: val)
  | escape {y : Char} {esc src val : List Char} (double : single = false) (line : OneLine esc)
      (read : ∀ r, readEscape? (esc ++ r) = some (y, esc.length))
      (rest : QuotedText single src val) :
      QuotedText single ('\\' :: (esc ++ src)) (y :: val)

def quotedEnd (single : Bool) (fuel : Nat) (word : Option (List Char × Bool × Cursor)) :
    Option ScalarScan :=
  match word with
  | none => none
  | some (read, escaped, c) =>
    if c.sees (quoteOf single) then some ⟨read.reverse, false, c.skip 1⟩
    else
      match takeGap 0 (c.rest.length + 1) (if escaped then Gap.escapedBreak else {}) c with
      | none => none
      | some (gap, c) => quotedWords single fuel (gap.text.reverse ++ read) c

theorem quotedWords_succ {single : Bool} {fuel : Nat} {read : List Char} {c : Cursor}
    (hcolumn : 0 < c.column) (hrest : c.rest ≠ []) :
    quotedWords single (fuel + 1) read c =
      quotedEnd single fuel (quotedWord single (c.rest.length + 1) read c) := by
  have hempty : c.rest.isEmpty = false := by simpa using hrest
  rw [quotedWords, Cursor.atMarker_of_column hcolumn, hempty]
  simp only [Bool.or_self, Bool.false_eq_true, if_false]
  cases quotedWord single (c.rest.length + 1) read c with
  | none => rfl
  | some result => cases single <;> rfl

theorem quotedWords_of_nil {single : Bool} {fuel : Nat} {read : List Char} {c : Cursor}
    (hrest : c.rest = []) : quotedWords single fuel read c = none := by
  cases fuel with
  | zero => rfl
  | succ fuel => simp [quotedWords, hrest]

theorem quotedEnd_of_nil {single : Bool} {fuel : Nat} {read : List Char} {c : Cursor}
    (hrest : c.rest = []) : quotedEnd single fuel (some (read, false, c)) = none := by
  have hsees : c.sees (quoteOf single) = false := sees_eq_false (by simp [hrest])
  simp [quotedEnd, hsees, hrest, takeGap, quotedWords_of_nil hrest]

/-- More fuel than characters makes no difference. -/
theorem quotedWord_fuel {single : Bool} {fuel fuel' : Nat} {read : List Char} {c : Cursor}
    (h : c.rest.length < fuel) (h' : c.rest.length < fuel') :
    quotedWord single fuel read c = quotedWord single fuel' read c := by
  induction fuel generalizing fuel' read c with
  | zero => omega
  | succ fuel ih =>
    obtain ⟨fuel', rfl⟩ : ∃ n, fuel' = n + 1 := ⟨fuel' - 1, by omega⟩
    -- Each step passes a character at least, so both fuels stay enough for the rest.
    have hstep (n : Nat) (read : List Char) (hn : c.rest ≠ []) :
        quotedWord single fuel read (c.skip (n + 1)) =
          quotedWord single fuel' read (c.skip (n + 1)) := by
      have hpos := List.length_pos_iff.2 hn
      apply ih
      all_goals
        rw [Cursor.skip_rest, List.length_drop]
        omega
    rw [quotedWord, quotedWord]
    cases hc : c.rest with
    | nil => rfl
    | cons x r =>
      have hne : c.rest ≠ [] := by simp [hc]
      simp only [hstep 0 _ hne, hstep 1 _ hne]
      split
      · rfl
      · split
        · rfl
        · split
          · rfl
          · split
            · split
              · rfl
              · split
                · rw [hstep _ _ hne]
                · rfl
            · rfl

/-- If the word goes on at a later place, so does the scalar. -/
theorem quotedWords_step {single : Bool} {fuel : Nat} {read read' : List Char} {c c' : Cursor}
    (hcolumn : 0 < c.column) (hcolumn' : 0 < c'.column) (hrest : c.rest ≠ [])
    (hword : quotedWord single (c.rest.length + 1) read c =
      quotedWord single (c'.rest.length + 1) read' c') :
    quotedWords single (fuel + 1) read c = quotedWords single (fuel + 1) read' c' := by
  rw [quotedWords_succ hcolumn hrest, hword]
  by_cases hrest' : c'.rest = []
  · rw [quotedWords_of_nil hrest', quotedWord, hrest']
    exact quotedEnd_of_nil hrest'
  · rw [quotedWords_succ hcolumn' hrest']

section Steps

variable {single : Bool} {fuel : Nat} {read : List Char} {c : Cursor} {r : List Char}

theorem quotedWord_of_gap {x : Char} (hc : c.rest = x :: r) (hx : isGap x = true) :
    quotedWord single (fuel + 1) read c = some (read, false, c) := by
  rw [quotedWord, hc]
  simp [hx]

/-- The closing quote closes the scalar. -/
theorem quotedWords_close (hcolumn : 0 < c.column) (hc : c.rest = quoteOf single :: r)
    (hr : single = true → r.head? ≠ some '\'') :
    quotedWords single (fuel + 1) read c = some ⟨read.reverse, false, c.skip 1⟩ := by
  have hsees : c.sees (quoteOf single) = true := by simp [Cursor.sees, hc, startsWith]
  have hword : quotedWord single (c.rest.length + 1) read c = some (read, false, c) := by
    rw [quotedWord, hc]
    cases single with
    | true =>
      have hquote : startsWith (· == '\'') r = false := by
        cases r with
        | nil => rfl
        | cons d r => simpa [startsWith] using hr rfl
      simp [quoteOf, isGap, isBlank, isBreak, hquote]
    | false => simp [quoteOf, isGap, isBlank, isBreak]
  rw [quotedWords_succ hcolumn (by simp [hc]), hword, quotedEnd]
  simp only [hsees, if_true]

/-- A character that is neither a gap nor a quote nor an escape stands for itself. -/
theorem quotedWords_char {x : Char} (hcolumn : 0 < c.column) (hc : c.rest = x :: r)
    (hgap : isGap x = false) (hquote : x ≠ quoteOf single) (hescape : single = false → x ≠ '\\') :
    quotedWords single (fuel + 1) read c = quotedWords single (fuel + 1) (x :: read)
    (c.skip 1) := by
  have hlen : (c.skip 1).rest.length + 1 = r.length + 1 := by rw [Cursor.skip_rest, hc]; rfl
  refine quotedWords_step hcolumn (by simp) (by simp [hc]) ?_
  rw [hlen, quotedWord, hc]
  cases single with
  | true =>
    have hx : (x == '\'') = false := by simpa [quoteOf] using hquote
    simp [hgap, hx]
  | false =>
    have hx : (x == '"') = false := by simpa [quoteOf] using hquote
    simp [hgap, hx, hescape rfl]

/-- A quote that is written twice stands for one. -/
theorem quotedWords_doubled (hcolumn : 0 < c.column) (hc : c.rest = '\'' :: '\'' :: r) :
    quotedWords true (fuel + 1) read c = quotedWords true (fuel + 1) ('\'' :: read) (c.skip 2) := by
  have hlen : (c.skip 2).rest.length = r.length := by rw [Cursor.skip_rest, hc]; rfl
  refine quotedWords_step hcolumn (by simp) (by simp [hc]) ?_
  have hgap : isGap '\'' = false := by decide
  rw [quotedWord, hc]
  simp only [hgap, startsWith, beq_self_eq_true, if_true, Bool.false_eq_true, if_false]
  apply quotedWord_fuel
  · simp only [hlen, List.length_cons]
    omega
  · omega

/-- An escape stands for its character. -/
theorem quotedWords_escape {y : Char} {width : Nat} (hcolumn : 0 < c.column)
    (hc : c.rest = '\\' :: r) (hbreak : startsWith isBreak r = false)
    (hread : readEscape? r = some (y, width)) :
    quotedWords false (fuel + 1) read c =
      quotedWords false (fuel + 1) (y :: read) (c.skip (width + 1)) := by
  have hlen : (c.skip (width + 1)).rest.length ≤ r.length := by
    rw [Cursor.skip_rest, hc, List.length_drop, List.length_cons]
    omega
  have hgap : isGap '\\' = false := by decide
  have hquote : ('\\' == '"') = false := by decide
  refine quotedWords_step hcolumn (Nat.lt_add_right _ hcolumn) (by simp [hc]) ?_
  rw [quotedWord, hc]
  simp only [hgap, hquote, Bool.false_eq_true, if_false, beq_self_eq_true, if_true, hbreak, hread]
  apply quotedWord_fuel
  · rw [List.length_cons]
    omega
  · omega

/-- A blank stands for itself. It may be that the step takes fuel. -/
theorem quotedWords_blank {x : Char} {s z : List Char} (hcolumn : 0 < c.column)
    (hc : c.rest = x :: (s ++ z)) (hx : isBlank x = true) (hs : ∀ y ∈ s, isBlank y = true)
    (hz : startsWith isGap z = false) :
    ∃ left, fuel ≤ left ∧ left ≤ fuel + 1 ∧
      quotedWords single (fuel + 1) read c = quotedWords single left (x :: read) (c.skip 1) := by
  have hgap {y : Char} {t : List Char} {d : Cursor} {read : List Char} (hd : 0 < d.column)
      (hrest : d.rest = y :: t ++ z) (hy : ∀ u ∈ y :: t, isBlank u = true) :
      quotedWords single (fuel + 1) read d =
        quotedWords single fuel ((y :: t).reverse ++ read) (d.skip (y :: t).length) := by
    have hquote : d.sees (quoteOf single) = false := by
      apply sees_eq_false
      intro h
      have hblank := hy y List.mem_cons_self
      have heq : y = quoteOf single := by simpa [hrest] using h
      rw [heq] at hblank
      cases single <;> exact absurd hblank (by decide)
    have htake := @takeGap_blanks 0 (d.rest.length + 1) (y :: t) z {} d hy hrest hz rfl
      (by rw [hrest, List.length_append]; omega)
    rw [quotedWords_succ hd (by simp [hrest]), quotedWord_of_gap (by simpa using hrest)
      (isGap_of_isBlank (hy y List.mem_cons_self)), quotedEnd]
    simp only [hquote, Bool.false_eq_true, if_false, htake]
    simp [Gap.text]
  have hx' : ∀ u ∈ x :: s, isBlank u = true := by
    intro u hu
    rcases List.mem_cons.1 hu with rfl | hu
    · exact hx
    · exact hs u hu
  -- A lone blank takes the step. Of several, the first and then the gap of the others make up the
  -- whole gap, which is one step either way.
  cases s with
  | nil =>
    refine ⟨fuel, Nat.le_refl _, Nat.le_succ _, ?_⟩
    rw [hgap hcolumn (by simpa using hc) hx']
    rfl
  | cons y s =>
    refine ⟨fuel + 1, Nat.le_succ _, Nat.le_refl _, ?_⟩
    have hskip : (c.skip 1).rest = y :: s ++ z := by rw [Cursor.skip_rest, hc]; rfl
    rw [hgap hcolumn (by simpa using hc) hx', hgap (by simp) hskip hs, Cursor.skip_skip]
    simp [Nat.add_comm]

end Steps

inductive Escape : List Char → Char → Nat → Prop
  | letter {c y : Char} {r : List Char} (letter : letterEscape? c = some y) : Escape (c :: r) y 1
  | code {c : Char} {r : List Char} {n code : Nat} (unlettered : letterEscape? c = none)
      (width : escapeWidth? c = some n) (enough : n ≤ r.length)
      (read : Number.readNat? 16 (r.take n) = some code) (valid : code.isValidChar) :
      Escape (c :: r) (Char.ofNat code) (n + 1)

/-- An escape that is read is one of those there are. -/
theorem escape_of_readEscape? {r : List Char} {y : Char} {width : Nat}
    (h : readEscape? r = some (y, width)) : Escape r y width := by
  cases r with
  | nil => simp [readEscape?] at h
  | cons c r =>
    -- A letter that stands for a character comes first; only another one can begin a code.
    cases hletter : letterEscape? c with
    | some x =>
      simp only [readEscape?, hletter, Option.some.injEq, Prod.mk.injEq] at h
      obtain ⟨rfl, rfl⟩ := h
      exact .letter hletter
    | none =>
      cases hwidth : escapeWidth? c with
      | none => simp [readEscape?, hletter, hwidth] at h
      | some n =>
        by_cases hlen : r.length < n
        · simp [readEscape?, hletter, hwidth, hlen] at h
        cases hnat : Number.readNat? 16 (r.take n) with
        | none => simp [readEscape?, hletter, hwidth, hlen, hnat] at h
        | some code =>
          simp only [readEscape?, hletter, hwidth, hlen, hnat, if_false,
            Option.ite_none_right_eq_some, Option.some.injEq, Prod.mk.injEq] at h
          obtain ⟨hvalid, rfl, rfl⟩ := h
          exact .code hletter hwidth (Nat.le_of_not_lt hlen) hnat hvalid

/-- An escape is read whatever follows it. -/
theorem readEscape?_take {r : List Char} {y : Char} {width : Nat}
    (h : readEscape? r = some (y, width)) :
    width ≤ r.length ∧ ∀ t, readEscape? (r.take width ++ t) = some (y, width) := by
  cases escape_of_readEscape? h with
  | letter letter => exact ⟨by simp, fun t => by simp [readEscape?, letter]⟩
  | @code c r n code unlettered hwidth enough read valid =>
    refine ⟨Nat.succ_le_succ enough, fun t => ?_⟩
    have htake : (r.take n ++ t).take n = r.take n := by
      rw [List.take_append_of_le_length (by rw [List.length_take]; omega),
        List.take_of_length_le (List.length_take_le n r)]
    have hlong : ¬(r.take n ++ t).length < n := by
      rw [List.length_append, List.length_take]
      omega
    rw [List.take_succ_cons, List.cons_append, readEscape?]
    simp only [unlettered, hwidth, hlong, htake, read, valid, if_true, if_false]

/-- No escape begins with a break. -/
theorem startsWith_isBreak_of_readEscape? {r : List Char} {y : Char} {width : Nat}
    (h : readEscape? r = some (y, width)) : startsWith isBreak r = false := by
  cases r with
  | nil => rfl
  | cons c r =>
    rw [startsWith, ← Bool.not_eq_true]
    intro hc
    simp only [isBreak, Bool.or_eq_true, beq_iff_eq] at hc
    rcases hc with (rfl | rfl) | rfl <;> simp [readEscape?, letterEscape?, escapeWidth?] at h

theorem QuotedText.oneLine {single : Bool} {src val : List Char} (h : QuotedText single src val) :
    OneLine src := by
  induction h with
  | close => cases single <;> decide
  | char _ _ line _ ih =>
    intro x hx
    rcases List.mem_cons.1 hx with rfl | hx
    · exact line
    · exact ih x hx
  | @doubled src _ _ _ ih => exact OneLine.append (s := ['\'', '\'']) (by decide) ih
  | @escape _ esc src _ _ line _ _ ih =>
    exact OneLine.append (s := ['\\']) (by decide) (line.append ih)

theorem QuotedText.quote_mem {single : Bool} {src val : List Char} (h : QuotedText single src val) :
    quoteOf single ∈ src := by
  induction h with
  | close => simp
  | char _ _ _ _ ih => exact List.mem_cons_of_mem _ ih
  | doubled _ _ ih => exact List.mem_cons_of_mem _ (List.mem_cons_of_mem _ ih)
  | escape _ _ _ _ ih => exact List.mem_cons_of_mem _ (List.mem_append_right _ ih)

/-- The blanks at the start of a quoted text end before its closing quote. -/
theorem QuotedText.exists_blanks_append {single : Bool} {src val : List Char}
    (h : QuotedText single src val) (y : List Char) :
    ∃ s z, src ++ y = s ++ z ∧ (∀ u ∈ s, isBlank u = true) ∧ startsWith isGap z = false := by
  obtain ⟨s, z, hsz, hs, hz, -⟩ := Yaml.exists_blanks_append h.oneLine
  cases z with
  | nil =>
    rw [List.append_nil] at hsz
    have hquote := hs _ (hsz ▸ h.quote_mem)
    cases single <;> exact absurd hquote (by decide)
  | cons u z => exact ⟨s, u :: z ++ y, by rw [hsz, List.append_assoc], hs, hz⟩

/-- A quoted scalar is read as it is written. -/
theorem quotedWords_of_quotedText {single : Bool} {src val y : List Char}
    (h : QuotedText single src val) (hy : single = true → y.head? ≠ some '\'') {fuel : Nat}
    {read : List Char} {c : Cursor} (hc : c.rest = src ++ y) (hcolumn : 0 < c.column)
    (hf : src.length < fuel) :
    quotedWords single fuel read c = some ⟨read.reverse ++ val, false, c.skip src.length⟩ := by
  induction h generalizing fuel read c with
  | close =>
    obtain ⟨fuel, rfl⟩ : ∃ n, fuel = n + 1 := ⟨fuel - 1, by omega⟩
    rw [quotedWords_close hcolumn (by simpa using hc) hy]
    simp
  | @char x src val ordinary plain line rest ih =>
    obtain ⟨fuel, rfl⟩ : ∃ n, fuel = n + 1 := ⟨fuel - 1, by omega⟩
    rw [List.length_cons] at hf
    have hskip : (c.skip 1).rest = src ++ y := by rw [Cursor.skip_rest, hc]; rfl
    have hnext (left : Nat) (hleft : src.length < left) := @ih left (x :: read) (c.skip 1) hskip
      (by simp) hleft
    have hlen : (x :: src).length = 1 + src.length := by rw [List.length_cons, Nat.add_comm]
    -- A blank is read together with the blanks behind it, so what it takes of the fuel depends on
    -- these.
    by_cases hblank : isBlank x = true
    · obtain ⟨s, z, hsz, hs, hz⟩ := rest.exists_blanks_append y
      obtain ⟨left, hle, -, hstep⟩ := @quotedWords_blank single fuel read c x s z hcolumn
        (by rw [hc, List.cons_append, hsz]) hblank hs hz
      rw [hstep, hnext left (by omega), Cursor.skip_skip, hlen]
      simp
    · have hgap : isGap x = false := by
        rw [isGap, line, Bool.or_false]
        simpa using hblank
      rw [quotedWords_char hcolumn (by rw [hc]; rfl) hgap ordinary plain, hnext _ (by omega),
        Cursor.skip_skip, hlen]
      simp
  | @doubled src val double rest ih =>
    obtain ⟨fuel, rfl⟩ : ∃ n, fuel = n + 1 := ⟨fuel - 1, by omega⟩
    subst double
    simp only [List.length_cons] at hf
    have hlen : ('\'' :: '\'' :: src).length = 2 + src.length := by
      simp only [List.length_cons]
      omega
    have hskip : (c.skip 2).rest = src ++ y := by rw [Cursor.skip_rest, hc]; rfl
    rw [quotedWords_doubled hcolumn (by rw [hc]; rfl), ih hskip (by simp) (by omega),
      Cursor.skip_skip, hlen]
    simp
  | @escape u esc src val double line hread rest ih =>
    obtain ⟨fuel, rfl⟩ : ∃ n, fuel = n + 1 := ⟨fuel - 1, by omega⟩
    subst double
    simp only [List.length_cons, List.length_append] at hf
    have hlen : ('\\' :: (esc ++ src)).length = esc.length + 1 + src.length := by
      simp only [List.length_cons, List.length_append]
      omega
    have hc' : c.rest = '\\' :: esc ++ (src ++ y) := by rw [hc]; simp
    have hskip : (c.skip (esc.length + 1)).rest = src ++ y := Cursor.skip_rest_of_append hc'
    have hall := hread (src ++ y)
    rw [quotedWords_escape hcolumn (by rw [hc']; rfl) (startsWith_isBreak_of_readEscape? hall) hall,
      ih hskip (Nat.lt_add_right _ hcolumn) (by omega), Cursor.skip_skip, hlen]
    simp

/-- What is written between quotes is read up to the closing one. -/
theorem scanQuoted_of_quotedText {single : Bool} {src val y : List Char} {c : Cursor}
    (h : QuotedText single src val) (hy : single = true → y.head? ≠ some '\'')
    (hc : c.rest = quoteOf single :: (src ++ y)) :
    scanQuoted single c = some ⟨val, false, c.skip (src.length + 1)⟩ := by
  have hskip : (c.skip 1).rest = src ++ y := by rw [Cursor.skip_rest, hc]; rfl
  have hlength : src.length < c.rest.length + 1 := by
    rw [hc, List.length_cons, List.length_append]
    omega
  rw [scanQuoted, quotedWords_of_quotedText h hy hskip (by simp) hlength, Cursor.skip_skip,
    Nat.add_comm 1]
  rfl

/-- A part of a quoted text that stands for one character. -/
inductive QuotedPart (single : Bool) : (part : List Char) → (value : Char) → Prop
  | char {x : Char} (ordinary : x ≠ quoteOf single) (plain : single = false → x ≠ '\\')
      (line : isBreak x = false) : QuotedPart single [x] x
  | doubled (double : single = true) : QuotedPart single ['\'', '\''] '\''
  | escape {y : Char} {esc : List Char} (double : single = false) (line : OneLine esc)
      (read : ∀ r, readEscape? (esc ++ r) = some (y, esc.length)) :
      QuotedPart single ('\\' :: esc) y

theorem QuotedPart.length_pos {single : Bool} {part : List Char} {u : Char}
    (h : QuotedPart single part u) : 0 < part.length := by
  cases h <;> exact Nat.succ_pos _

theorem QuotedPart.append {single : Bool} {part src val : List Char} {u : Char}
    (h : QuotedPart single part u) (rest : QuotedText single src val) :
    QuotedText single (part ++ src) (u :: val) := by
  cases h with
  | char ordinary plain line => exact .char ordinary plain line rest
  | doubled double => exact .doubled double rest
  | escape double line read => exact .escape double line read rest

theorem QuotedPart.of_isBlank {single : Bool} {x : Char} (hx : isBlank x = true)
    (hline : isBreak x = false) : QuotedPart single [x] x := by
  refine .char ?_ ?_ hline
  · rintro rfl
    cases single <;> exact absurd hx (by decide)
  · rintro - rfl
    exact absurd hx (by decide)

/-- What stands behind a backslash within a line is an escape, or the scalar is not read. -/
theorem exists_escape_of_quotedWords {fuel : Nat} {read t : List Char} {c : Cursor} {r : ScalarScan}
    (h : quotedWords false (fuel + 1) read c = some r) (hcolumn : 0 < c.column)
    (hc : c.rest = '\\' :: t) (ht : OneLine t) :
    ∃ esc u y, t = esc ++ y ∧ QuotedPart false ('\\' :: esc) u ∧
      quotedWords false (fuel + 1) (u :: read) (c.skip (esc.length + 1)) = some r := by
  have hbreak : startsWith isBreak t = false := by
    cases t with
    | nil => rfl
    | cons d t => exact ht d List.mem_cons_self
  cases hread : readEscape? t with
  | none =>
    have hgap : isGap '\\' = false := by decide
    rw [quotedWords_succ hcolumn (by simp [hc]), quotedWord, hc] at h
    simp [hgap, hbreak, hread, quotedEnd] at h
  | some result =>
    obtain ⟨u, width⟩ := result
    obtain ⟨hwidth, htake⟩ := readEscape?_take hread
    have hlen : (t.take width).length = width := by rw [List.length_take, Nat.min_eq_left hwidth]
    refine ⟨t.take width, u, t.drop width, (List.take_append_drop width t).symm,
      .escape rfl (fun x hx => ht x (List.mem_of_mem_take hx)) (fun s => ?_), ?_⟩
    · rw [htake s, hlen]
    · rwa [hlen, ← quotedWords_escape hcolumn hc hbreak hread]

/-- One step within a line: the scalar is closed here, or a part that stands for one character is
read. -/
theorem quotedWords_cases {single : Bool} {fuel : Nat} {read : List Char} {c : Cursor}
    {r : ScalarScan} (h : quotedWords single (fuel + 1) read c = some r) (hline : OneLine c.rest)
    (hcolumn : 0 < c.column) :
    (∃ y, c.rest = quoteOf single :: y ∧ (single = true → y.head? ≠ some '\'') ∧
      r = ⟨read.reverse, false, c.skip 1⟩) ∨
    (∃ part u y left, c.rest = part ++ y ∧ QuotedPart single part u ∧
      quotedWords single left (u :: read) (c.skip part.length) = some r) := by
  cases hc : c.rest with
  | nil => simp [quotedWords_of_nil hc] at h
  | cons x t =>
    have hx : isBreak x = false := hline x (by simp [hc])
    have ht : OneLine t := fun u hu => hline u (by simp [hc, hu])
    -- Next comes a blank, a quote, an escape, or a character that stands for itself.
    by_cases hblank : isBlank x = true
    · obtain ⟨s, z, rfl, hs, hz, -⟩ := exists_blanks_append ht
      obtain ⟨left, -, -, heq⟩ := @quotedWords_blank single fuel read c x s z hcolumn hc
        hblank hs hz
      exact .inr ⟨[x], x, s ++ z, left, rfl, .of_isBlank hblank hx, heq ▸ h⟩
    by_cases hquote : x = quoteOf single
    · subst hquote
      by_cases hdouble : single = true ∧ t.head? = some '\''
      · obtain ⟨rfl, hhead⟩ := hdouble
        obtain ⟨y, rfl⟩ := List.head?_eq_some_iff.1 hhead
        rw [quotedWords_doubled hcolumn hc] at h
        exact .inr ⟨['\'', '\''], '\'', y, fuel + 1, rfl, .doubled rfl, h⟩
      · have hy : single = true → t.head? ≠ some '\'' := fun hs hhead => hdouble ⟨hs, hhead⟩
        rw [quotedWords_close hcolumn hc hy, Option.some.injEq] at h
        exact .inl ⟨t, rfl, hy, h.symm⟩
    by_cases hesc : single = false ∧ x = '\\'
    · obtain ⟨rfl, rfl⟩ := hesc
      obtain ⟨esc, u, y, rfl, hpart, heq⟩ := exists_escape_of_quotedWords h hcolumn hc ht
      exact .inr ⟨'\\' :: esc, u, y, fuel + 1, rfl, hpart, heq⟩
    · have hplain : single = false → x ≠ '\\' := fun hs hx => hesc ⟨hs, hx⟩
      have hgap : isGap x = false := by
        rw [isGap, hx, Bool.or_false]
        simpa using hblank
      rw [quotedWords_char hcolumn hc hgap hquote hplain] at h
      exact .inr ⟨[x], x, t, fuel + 1, rfl, .char hquote hplain hx, h⟩

/-- What is read as a quoted scalar of one line is written as one. -/
theorem quotedText_of_eq_some {single : Bool} {fuel : Nat} {read : List Char} {c : Cursor}
    {r : ScalarScan} (h : quotedWords single fuel read c = some r) (hline : OneLine c.rest)
    (hcolumn : 0 < c.column) :
    ∃ src val y, c.rest = src ++ y ∧ QuotedText single src val ∧
      (single = true → y.head? ≠ some '\'') ∧
      r = ⟨read.reverse ++ val, false, c.skip src.length⟩ := by
  -- The fuel need not shrink at a blank, but the rest does at every step.
  generalize hn : c.rest.length = n
  induction n using Nat.strongRecOn generalizing fuel read c with
  | ind n ih =>
    subst hn
    cases fuel with
    | zero => simp [quotedWords] at h
    | succ fuel =>
      rcases quotedWords_cases h hline hcolumn
        with ⟨y, hrest, hy, rfl⟩ | ⟨part, u, y, left, hrest, hpart, h⟩
      · exact ⟨[quoteOf single], [], y, hrest, .close, hy, by simp⟩
      · have hskip : (c.skip part.length).rest = y := Cursor.skip_rest_of_append hrest
        have hpos := hpart.length_pos
        have hshorter : (c.skip part.length).rest.length < c.rest.length := by
          rw [hskip, hrest, List.length_append]
          omega
        have hline' : OneLine (c.skip part.length).rest := by
          rw [hrest] at hline
          exact hskip ▸ hline.of_append_right
        obtain ⟨src, val, z, hrest', hsrc, hz, rfl⟩ := ih _ hshorter h hline'
          (by rw [Cursor.skip_column]; omega) rfl
        refine ⟨part ++ src, u :: val, z, ?_, hpart.append hsrc, hz, ?_⟩
        · rw [hrest, ← hskip, hrest', List.append_assoc]
        · rw [Cursor.skip_skip, List.length_append]
          simp

/-- What stands behind the closing quote, where a text goes on behind the opening one. `skips` says
whether the next character is a part of what is left out. -/
def behindQuoted (single : Bool) : (skips : Bool) → List Char → List Char
  | _, [] => []
  | true, _ :: r => behindQuoted single false r
  | false, x :: r =>
    if x = quoteOf single then
      if single && startsWith (· == '\'') r then behindQuoted single true r else r
    else behindQuoted single (!single && x == '\\') r

theorem ordinary_of_readNat? {s : List Char} {n : Nat} (h : Number.readNat? 16 s = some n) :
    ∀ x ∈ s, x ≠ '"' ∧ x ≠ '\\' := by
  -- For any number that was read so far, since the digits are folded from the left.
  have hdigits (n m : Nat) (h : s.foldlM (fun n c => (Number.digitValue? c).bind fun d =>
      if d < 16 then some (n * 16 + d) else none) n = some m) : ∀ x ∈ s, x ≠ '"' ∧ x ≠ '\\' := by
    clear * - h
    induction s generalizing n with
    | nil => simp
    | cons c s ih =>
      rw [List.foldlM_cons] at h
      obtain ⟨k, hk, hrest⟩ := Option.bind_eq_some_iff.1 h
      obtain ⟨d, hd, -⟩ := Option.bind_eq_some_iff.1 hk
      have hc : c ≠ '"' ∧ c ≠ '\\' := by
        have hquote : Number.digitValue? '"' = none := by decide
        have hslash : Number.digitValue? '\\' = none := by decide
        constructor
        · rintro rfl
          simp [hquote] at hd
        · rintro rfl
          simp [hslash] at hd
      exact List.forall_mem_cons.2 ⟨hc, ih k hrest⟩
  rw [Number.readNat?] at h
  obtain ⟨-, h⟩ := (ite_eq_iff.1 h).resolve_left (by simp)
  exact hdigits 0 n h

/-- Behind its first character an escape holds nothing that has a meaning of its own. -/
theorem exists_cons_of_readEscape? {esc : List Char} {y : Char}
    (h : readEscape? esc = some (y, esc.length)) :
    ∃ c r, esc = c :: r ∧ ∀ x ∈ r, x ≠ '"' ∧ x ≠ '\\' := by
  generalize hwidth : esc.length = width at h
  cases escape_of_readEscape? h with
  | @letter c _ r letter =>
    have hr : r = [] := List.length_eq_zero_iff.1 (Nat.succ.inj hwidth)
    exact ⟨c, r, rfl, by simp [hr]⟩
  | @code c r n code _ _ _ read _ =>
    have hn : r.length = n := Nat.succ.inj hwidth
    rw [← hn, List.take_length] at read
    exact ⟨c, r, rfl, ordinary_of_readNat? read⟩

theorem behindQuoted_ordinary {s y : List Char} (h : ∀ x ∈ s, x ≠ '"' ∧ x ≠ '\\') :
    behindQuoted false false (s ++ y) = behindQuoted false false y := by
  induction s with
  | nil => rfl
  | cons c s ih =>
    obtain ⟨hquote, hslash⟩ := h c List.mem_cons_self
    have hc : (c == '\\') = false := beq_eq_false_iff_ne.2 hslash
    rw [List.cons_append, behindQuoted, quoteOf, if_neg (by exact hquote), hc]
    exact ih fun x hx => h x (List.mem_cons_of_mem _ hx)

/-- A quoted text is passed whole. -/
theorem QuotedText.behindQuoted_append {single : Bool} {src val y : List Char}
    (h : QuotedText single src val) (hy : single = true → y.head? ≠ some '\'') :
    behindQuoted single false (src ++ y) = y := by
  induction h with
  | close =>
    rw [List.singleton_append, behindQuoted, if_pos rfl, if_neg]
    rw [Bool.and_eq_true]
    rintro ⟨hsingle, hstart⟩
    refine hy hsingle ?_
    cases y with
    | nil => simp [startsWith] at hstart
    | cons c y => simpa [startsWith] using hstart
  | @char x src val ordinary plain _ _ ih =>
    have hx : (!single && x == '\\') = false := by
      cases single with
      | true => rfl
      | false => simpa using plain rfl
    rw [List.cons_append, behindQuoted, if_neg ordinary, hx]
    exact ih
  | doubled double _ ih =>
    rw [double] at ih ⊢
    exact ih
  | @escape z esc src val double _ read _ ih =>
    obtain ⟨c, r, rfl, hr⟩ := exists_cons_of_readEscape? (by simpa using read [])
    rw [double] at ih ⊢
    rw [List.cons_append, List.cons_append, List.cons_append, List.append_assoc]
    -- The character behind the backslash is passed unseen, and a longer escape goes on with
    -- ordinary ones.
    show behindQuoted false false (r ++ (src ++ y)) = y
    rw [behindQuoted_ordinary hr]
    exact ih

end Workflow.Yaml
