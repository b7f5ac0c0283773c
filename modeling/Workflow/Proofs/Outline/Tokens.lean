import Workflow.Proofs.Outline.Scanning
import Workflow.Proofs.Yaml.Composing

namespace Workflow.Outline

open Yaml

/-- The text of a line that holds an entry: an atom, and a colon behind it that is not too far
away. -/
inductive EntryText : (text : List Char) → Entry → Prop
  | mk {src s g rest : List Char} {plain : Bool} {k : Tree} {ks : List Token}
      (key : Atom src plain k ks)
      (blank : ∀ x ∈ s, isBlank x = true) (within : octetCount (src ++ s) ≤ 1024)
      (gap : ∀ x ∈ g, isBlank x = true) (apart : g = [] → rest = []) :
      EntryText (src ++ (s ++ ':' :: (g ++ rest))) ⟨k, rest⟩

theorem EntryText.exists_atom {text : List Char} {e : Entry} (h : EntryText text e) :
    ∃ src s plain ks g, Atom src plain e.key ks ∧ (∀ x ∈ s, isBlank x = true) ∧
      octetCount (src ++ s) ≤ 1024 ∧ (∀ x ∈ g, isBlank x = true) ∧ (g = [] → e.rest = []) ∧
      text = src ++ (s ++ ':' :: (g ++ e.rest)) := by
  cases h with
  | mk key blank within gap apart => exact ⟨_, _, _, _, _, key, blank, within, gap, apart, rfl⟩

/-- What the scanner makes of a line with a key is what the reader of outlines makes of it. -/
structure Line.ClearEntry (l : Line) : Prop where
  marker : ∀ e, readEntry l.text = .ok e → l.indent = 0 → ∀ c : Cursor, ∀ y, c.rest = l.text ++ y →
    c.atMarker = false
  key : ∀ e, readEntry l.text = .ok e → EntryText l.text e
  value : ∀ e v, readEntry l.text = .ok e → e.rest ≠ [] → scalar e.rest = .ok v →
    ∃ ts, Phrase e.rest v ts

structure Line.Clear (l : Line) : Prop where
  entry : isItem l.text = false → l.ClearEntry
  bare : isItem l.text = true → l.itemText = [] → l.text = ['-']
  starts : isItem l.text = true → (cutKey l.itemText).isSome = true → StartsToken l.itemText
  unfolds : isItem l.text = true → (cutKey l.itemText).isSome = true → l.unfold.ClearEntry
  scalar : isItem l.text = true → l.itemText ≠ [] → cutKey l.itemText = none →
    ∀ v, Outline.scalar l.itemText = .ok v → ∃ ts, Phrase l.itemText v ts

theorem Phrase.below {text : List Char} {v : Tree} {ts : List Token} (h : Phrase text v ts)
    (indentless : Bool) : Below indentless v ts := by
  cases h with
  | comment => exact .empty
  | atom atom _ => exact .node (.atom atom)
  | noted written read _ _ _ => exact .node (.atom (.scalar written read))

theorem exists_of_isItem {text : List Char} (h : isItem text = true) :
    ∃ r, text = '-' :: r ∧ (r = [] ∨ r.head? = some ' ') := by
  rw [isItem.eq_def] at h
  split at h
  · exact ⟨[], rfl, Or.inl rfl⟩
  · exact ⟨_, rfl, Or.inr rfl⟩
  · simp at h

theorem exists_spaces_append (s : List Char) : ∃ n, s = spaces n ++ dropSpaces s := by
  refine ⟨(s.takeWhile (· == ' ')).length, ?_⟩
  have hspaces : s.takeWhile (· == ' ') = spaces (s.takeWhile (· == ' ')).length :=
    List.eq_replicate_of_mem fun c hc => by simpa using List.all_eq_true.1 List.all_takeWhile c hc
  rw [← hspaces, dropSpaces, List.takeWhile_append_dropWhile]

/-- The text of an item stands behind its hyphen and some spaces. -/
theorem Line.text_eq_of_isItem {l : Line} (h : isItem l.text = true) :
    ∃ n, l.text.drop 1 = spaces n ++ l.itemText ∧ l.unfold.indent = l.indent + 1 + n := by
  obtain ⟨r, hr, -⟩ := exists_of_isItem h
  obtain ⟨n, hn⟩ := exists_spaces_append (l.text.drop 1)
  have hlength : l.text.length = 1 + (n + l.itemText.length) := by
    have hdrop : r.length = n + l.itemText.length := by
      rw [hr, List.drop_succ_cons, List.drop_zero] at hn
      have hcount := congrArg List.length hn
      rw [List.length_append, spaces, List.length_replicate] at hcount
      rw [hcount, Line.itemText, hr]
      rfl
    rw [hr, List.length_cons, hdrop, Nat.add_comm]
  refine ⟨n, hn, ?_⟩
  simp only [Line.unfold]
  omega

/-- A hyphen is read. The sequence is opened if none is open at its column. -/
theorem leads_hyphen {l : Line} {ls : List Line} {b₀ b : Stack} {s₀ : Scan}
    (hyphen : isItem l.text = true) (h : At (l :: ls) b₀ s₀)
    (hclose : b₀.close (l.indent + 1) = b) :
    ∃ c t e, Scan.Leads s₀
        (((b.openAt l.indent .blockSequenceStart).push [.blockEntry]).scan c none true) ∧
      c.rest = l.text.drop 1 ++ (t ++ e) ∧ c.column = l.indent + 1 ∧ c.offset = l.indent + 1 ∧
      Tail l.allowsTabs t ∧ Ending ls e := by
  cases h with
  | @line l ls b₀ s₀ c front next shorter =>
    obtain ⟨start, hcolumn, hoffset, t, e, tail, ending, hrest⟩ := front
    obtain ⟨r, hr, hspace⟩ := exists_of_isItem hyphen
    rw [← hcolumn] at hclose ⊢
    rw [hr, List.cons_append] at hrest
    -- A hyphen opens an item only before a gap: a space, or what ends the line.
    have hgap : atGap (r ++ (t ++ e)) = true := by
      cases r with
      | nil => exact tail.atGap ending
      | cons x r =>
        rcases hspace with hnil | hspace
        · simp at hnil
        · have hx : x = ' ' := by simpa using hspace
          subst hx
          rfl
    refine ⟨c.skip 1, t, e, Scan.Leads.of_readToken next hrest ?_ ?_, ?_, rfl, ?_, tail, ending⟩
    · rw [hclose, Scan.readToken_hyphen hrest hgap, Stack.blockEntry_scan]
    · rw [Stack.scan_cursor, Cursor.skip_rest, hrest]
      rw [hrest] at shorter
      exact shorter
    · rw [Cursor.skip_rest, hrest, hr]
      rfl
    · have hskip := @Cursor.skip_offset c ['-'] _ hrest
      rw [hcolumn, ← hoffset]
      exact hskip

theorem isBlank_of_spaces (n : Nat) : ∀ x ∈ spaces n, isBlank x = true := by
  intro x hx
  rw [List.eq_of_mem_replicate hx]
  decide

/-- Behind a colon with nothing behind it the scanner comes to the lines below. -/
theorem at_below {ls : List Line} {b : Stack} {d : Cursor} {tabs : Bool} {g t e : List Char}
    (gap : ∀ x ∈ g, isBlank x = true) (tail : Tail tabs t) (ending : Ending ls e)
    (hd : d.rest = g ++ (t ++ e)) :
    At ls b (b.scan d none false) := by
  refine At.of_arrives (d.line + 1) ?_ (by simp)
  rw [reach, hd, ← List.append_assoc]
  exact (tail.append gap).arrives ending (by simp) _ _ _

/-- Behind a hyphen with nothing behind it the scanner comes to the lines below. -/
theorem at_bare {l : Line} {ls : List Line} {b : Stack} {d : Cursor} {t e : List Char}
    (bare : l.text = ['-']) (tail : Tail l.allowsTabs t) (ending : Ending ls e)
    (hd : d.rest = l.text.drop 1 ++ (t ++ e)) :
    At ls b (b.scan d none true) := by
  have htabs : l.allowsTabs = false := by rw [Line.allowsTabs, bare]; rfl
  rw [bare] at hd
  refine At.of_arrives (d.line + 1) ?_ (by simp)
  rw [reach, hd]
  exact tail.arrives ending (fun _ => htabs) _ _ _

theorem Line.Clear.unfold {l : Line} (clear : l.Clear) (hyphen : isItem l.text = true)
    (colon : (cutKey l.itemText).isSome = true) (plain : isItem l.unfold.text = false) :
    l.unfold.Clear := by
  have hno : isItem l.unfold.text ≠ true := Bool.eq_false_iff.1 plain
  exact ⟨fun _ => clear.unfolds hyphen colon, fun h => absurd h hno, fun h => absurd h hno,
    fun h => absurd h hno, fun h => absurd h hno⟩

/-- A line and what stands behind its hyphen allow the same tails. -/
theorem Line.unfold_allowsTabs {l : Line} (filled : l.itemText ≠ [])
    (colon : (cutKey l.itemText).isSome = true) : l.unfold.allowsTabs = l.allowsTabs := by
  have hinner : l.itemText ≠ ['-'] := by
    intro h
    rw [h] at colon
    exact absurd colon (by decide)
  have houter : l.text ≠ ['-'] := by
    intro h
    rw [Line.itemText, h] at filled
    exact filled rfl
  exact (bne_iff_ne.2 hinner).trans (bne_iff_ne.2 houter).symm

/-- The first key of an item stands on the line of the hyphen, and the scanner goes there over
spaces. -/
theorem at_unfold {l : Line} {ls : List Line} {b : Stack} {d : Cursor} {t e : List Char}
    (hyphen : isItem l.text = true) (colon : (cutKey l.itemText).isSome = true)
    (starts : StartsToken l.itemText) (tail : Tail l.allowsTabs t) (ending : Ending ls e)
    (hd : d.rest = l.text.drop 1 ++ (t ++ e)) (column : d.column = l.indent + 1)
    (offset : d.offset = l.indent + 1) : At (l.unfold :: ls) b (b.scan d none true) := by
  obtain ⟨n, hn, hindent⟩ := Line.text_eq_of_isItem hyphen
  rw [hn, List.append_assoc] at hd
  have hskip : (d.skip n).rest = l.itemText ++ (t ++ e) := by
    rw [Cursor.skip_rest, hd, spaces, List.drop_left' List.length_replicate]
  obtain ⟨x, r, hx, hgap, hhash, hmark⟩ := starts
  -- From the hyphen the scanner comes to the first character of the item.
  have hreach : reach true d = (true, d.skip n) := by
    rw [← reach_skip_spaces hd]
    rw [hx, List.cons_append] at hskip
    exact reach_of_token hskip hgap hhash fun _ => hmark
  have htabs : l.unfold.allowsTabs = l.allowsTabs :=
    Line.unfold_allowsTabs (by rw [hx]; exact List.cons_ne_nil x r) colon
  refine .line ⟨⟨x, r, hx, hgap, hhash, hmark⟩, ?_, ?_, t, e, htabs ▸ tail, ending, hskip⟩ ?_ ?_
  · rw [Cursor.skip_column, column, hindent]
  · have hoffset := Cursor.skip_offset hd
    rw [spaces, List.length_replicate, octetCount_replicate, offset] at hoffset
    rw [hoffset, hindent]
  · rw [Scan.toToken_scan, hreach]
    rfl
  · rw [Stack.scan_cursor, Cursor.skip_rest, List.length_drop]
    exact Nat.sub_le _ _

mutual

/-- The entries of a mapping are read. If it is not open yet, it is opened at the first one. -/
theorem EntryLines.leads {c : Nat} {es : List (Tree × Tree)} {ls rest : List Line}
    (h : EntryLines c es ls) {b₀ b : Stack} {s : Scan} (clear : ∀ l ∈ ls, l.Clear)
    (front : At (ls ++ rest) b₀ s)
    (close : b₀.close (c + 1) = b) (level : b.level ≤ c + 1) (opened : es = [] → b.level = c + 1)
    (ends : EndsMapping (c + 1) rest) :
    ∃ u b₁ ts, Scan.Leads s u ∧ At rest b₁ u ∧
      b₁.close (c + 1) = (b.openAt c .blockMappingStart).push ts ∧ EntryTokens es ts := by
  match h with
  | .nil =>
    refine ⟨s, b₀, [], Scan.Leads.refl s, front, ?_, .nil⟩
    rw [close, Stack.openAt_of_lt (by rw [opened rfl]; exact Nat.lt_succ_self c), Stack.push_nil]
  | @EntryLines.cons c l e v below rest' es column plain entry value others =>
    have front' : At (l :: (below ++ (rest' ++ rest))) b₀ s := by simpa using front
    obtain ⟨hmarker, hkey, hvalue⟩ := (clear l List.mem_cons_self).entry plain
    obtain ⟨src, sp, pl, ks, g, atom, blank, within, gap, apart, htext⟩ :=
      (hkey e entry).exists_atom
    have hgap : atGap (g ++ e.rest) = true := by
      cases g with
      | nil => rw [apart rfl]; rfl
      | cons x g => exact isGap_of_isBlank (gap x List.mem_cons_self)
    obtain ⟨d, t, r, hleads, hd, hcolumn, tail, ending⟩ :=
      leads_key atom blank within htext hgap (hmarker e entry) front' (column ▸ close)
      (column ▸ level)
    rw [column] at hleads hcolumn
    -- The value is read with the mapping open at this column.
    have hopen : ((b.openAt c .blockMappingStart).push (.key :: (ks ++ [.value]))).level = c + 1 :=
      Stack.openAt_level level
    rw [List.append_assoc] at hd
    obtain ⟨u, b₁, ts, hleads', hat, hclose, hbelow⟩ :=
      value.leads (fun hf hs => hvalue e v entry hf hs)
      (fun l' hl => clear l' (by simp [hl])) gap tail ending
      (others.endsMapping (Nat.lt_succ_self c) ends) hd hcolumn hopen
    obtain ⟨w, b₂, us, hleads'', hat', hclose', hothers⟩ := others.leads
      (fun l' hl => clear l' (by simp [hl])) hat hclose (Nat.le_of_eq hopen) (fun _ => hopen) ends
    refine ⟨w, b₂, _, (hleads.trans hleads').trans hleads'', hat', ?_, .cons atom hbelow hothers⟩
    rw [hclose', Stack.push_openAt_of_lt (Nat.lt_of_lt_of_eq (Nat.lt_succ_self _) hopen.symm),
      Stack.push_push, Stack.push_push]
    simp

theorem ValueLines.leads {c : Nat} {text : List Char} {v : Tree} {below rest : List Line}
    (h : ValueLines c text v below) {b : Stack} {d : Cursor} {tabs : Bool} {g t e : List Char}
    (phrase : text ≠ [] → scalar text = .ok v → ∃ ts, Phrase text v ts)
    (clear : ∀ l ∈ below, l.Clear) (gap : ∀ x ∈ g, isBlank x = true) (tail : Tail tabs t)
    (ending : Ending (below ++ rest) e) (ends : EndsMapping (c + 1) rest)
    (hd : d.rest = g ++ (text ++ (t ++ e))) (column : c + 1 ≤ d.column) (level : b.level = c + 1) :
    ∃ u b₁ ts, Scan.Leads (b.scan d none false) u ∧ At rest b₁ u ∧ b₁.close (c + 1) = b.push ts ∧
      Below true v ts := by
  match h with
  | .scalar filled read =>
    obtain ⟨ts, hphrase⟩ := phrase filled read
    obtain ⟨u, hleads, hat⟩ := hphrase.leads false gap (by simp) tail ending (level ▸ ends) hd
      (level ▸ column) (by omega)
    refine ⟨u, b.push ts, ts, hleads, hat, Stack.close_of_le (Nat.le_of_eq level),
      hphrase.below true⟩
  | .null =>
    refine ⟨_, b, [], Scan.Leads.refl _, at_below gap tail ending hd, ?_, .empty⟩
    rw [Stack.close_of_le (Nat.le_of_eq level), Stack.push_nil]
  | @ValueLines.deeper c c' v below deeper block =>
    obtain ⟨u, b₁, ts, hleads, hat, hclose, hdenotes⟩ :=
      block.leads clear (at_below gap tail ending hd)
      (Stack.close_of_le (b := b) (by omega)) (by omega)
      (ends.mono (Nat.succ_le_succ (Nat.le_of_lt deeper)))
    refine ⟨u, b₁, ts, hleads, hat, ?_, .node hdenotes⟩
    have hlevel : (b.push ts).level ≤ c + 1 := Nat.le_of_eq level
    -- The block lies to the right of the key, so that it is closed first.
    rw [← Stack.close_close (Nat.succ_le_of_lt deeper), hclose]
    exact Stack.close_of_le hlevel
  | .level items filled =>
    obtain ⟨u, b₁, ts, hleads, hat, hclose, hitems⟩ :=
      items.leads clear (at_below gap tail ending hd)
      (Stack.close_of_le (b := b) (Nat.le_of_eq level)) (Nat.le_of_eq level)
      (fun h => absurd h filled) ends
    refine ⟨u, b₁, ts, hleads, hat, ?_, .level hitems filled⟩
    rw [hclose, Stack.openAt_of_lt (Nat.lt_of_lt_of_eq (Nat.lt_succ_self c) level.symm)]

/-- The scanner makes of a block the tokens of its value, and closes it before what follows. -/
theorem BlockLines.leads {c : Nat} {v : Tree} {ls rest : List Line} (h : BlockLines c v ls)
    {b₀ b : Stack} {s : Scan} (clear : ∀ l ∈ ls, l.Clear) (front : At (ls ++ rest) b₀ s)
    (close : b₀.close (c + 1) = b) (level : b.level ≤ c) (ends : EndsMapping (c + 1) rest) :
    ∃ u b₁ ts, Scan.Leads s u ∧ At rest b₁ u ∧ b₁.close c = b.push ts ∧ Denotes v ts := by
  match h with
  | .mapping entries filled distinct =>
    obtain ⟨u, b₁, ts, hleads, hat, hclose, hentries⟩ := entries.leads clear front close
      (Nat.le_succ_of_le level) (fun h => absurd h filled) ends
    refine ⟨u, b₁, _, hleads, hat, ?_, .mapping hentries distinct⟩
    rw [← Stack.close_close (Nat.le_succ c), hclose, Stack.close_openAt level]
    rfl
  | .sequence items filled =>
    obtain ⟨u, b₁, ts, hleads, hat, hclose, hitems⟩ := items.leads clear front close
      (Nat.le_succ_of_le level) (fun h => absurd h filled) ends
    refine ⟨u, b₁, _, hleads, hat, ?_, .sequence hitems⟩
    rw [← Stack.close_close (Nat.le_succ c), hclose, Stack.close_openAt level]
    rfl

/-- The items of a sequence are read. If it is not open yet, it is opened at the first one. -/
theorem ItemLines.leads {c : Nat} {vs : List Tree} {ls rest : List Line} (h : ItemLines c vs ls)
    {b₀ b : Stack} {s : Scan} (clear : ∀ l ∈ ls, l.Clear) (front : At (ls ++ rest) b₀ s)
    (close : b₀.close (c + 1) = b) (level : b.level ≤ c + 1) (opened : vs = [] → b.level = c + 1)
    (ends : EndsMapping (c + 1) rest) :
    ∃ u b₁ ts, Scan.Leads s u ∧ At rest b₁ u ∧
      b₁.close (c + 1) = (b.openAt c .blockSequenceStart).push ts ∧ ItemTokens vs ts := by
  match h with
  | .nil =>
    refine ⟨s, b₀, [], Scan.Leads.refl s, front, ?_, .nil⟩
    rw [close, Stack.openAt_of_lt (by rw [opened rfl]; exact Nat.lt_succ_self c), Stack.push_nil]
  | @ItemLines.cons c l v below rest' vs column hyphen item others =>
    have front' : At (l :: (below ++ (rest' ++ rest))) b₀ s := by simpa using front
    -- Three runs: over the hyphen, over the item, and over the items that follow.
    obtain ⟨d, t, r, hleads, hd, hcolumn, hoffset, tail, ending⟩ :=
      leads_hyphen hyphen front' (column ▸ close)
    rw [column] at hleads
    have hopen : ((b.openAt c .blockSequenceStart).push [.blockEntry]).level = c + 1 :=
      Stack.openAt_level level
    obtain ⟨u, b₁, ts, hleads', hat, hclose, hbelow⟩ :=
      item.leads hyphen (clear l List.mem_cons_self)
      (fun l' hl => clear l' (by simp [hl])) tail ending
      (column ▸ others.endsMapping (Nat.lt_succ_self c) ends) hd hcolumn
      hoffset (hopen.trans (by rw [column]))
    rw [column] at hclose
    obtain ⟨w, b₂, us, hleads'', hat', hclose', hothers⟩ := others.leads
      (fun l' hl => clear l' (by simp [hl])) hat hclose (Nat.le_of_eq hopen) (fun _ => hopen) ends
    refine ⟨w, b₂, _, (hleads.trans hleads').trans hleads'', hat', ?_, .cons hbelow hothers⟩
    rw [hclose', Stack.push_openAt_of_lt (Nat.lt_of_lt_of_eq (Nat.lt_succ_self _) hopen.symm),
      Stack.push_push, Stack.push_push]
    simp

theorem ItemLine.leads {l : Line} {v : Tree} {below rest : List Line} (h : ItemLine l v below)
    {b : Stack} {d : Cursor} {t e : List Char} (hyphen : isItem l.text = true) (clear : l.Clear)
    (clear_below : ∀ l ∈ below, l.Clear) (tail : Tail l.allowsTabs t)
    (ending : Ending (below ++ rest) e)
    (ends : EndsMapping (l.indent + 1) rest) (hd : d.rest = l.text.drop 1 ++ (t ++ e))
    (column : d.column = l.indent + 1) (offset : d.offset = l.indent + 1)
    (level : b.level = l.indent + 1) :
    ∃ u b₁ ts, Scan.Leads (b.scan d none true) u ∧ At rest b₁ u ∧
      b₁.close (l.indent + 1) = b.push ts ∧
      Below false v ts := by
  match h with
  | .null bare =>
    refine ⟨_, b, [], Scan.Leads.refl _, at_bare (clear.bare hyphen bare) tail ending hd, ?_,
      .empty⟩
    rw [Stack.close_of_le (Nat.le_of_eq level), Stack.push_nil]
  | @ItemLine.deeper l c v below bare deeper block =>
    obtain ⟨u, b₁, ts, hleads, hat, hclose, hdenotes⟩ := block.leads (b := b) clear_below
      (at_bare (clear.bare hyphen bare) tail ending hd) (Stack.close_of_le (by omega)) (by omega)
      (ends.mono (Nat.succ_le_succ (Nat.le_of_lt deeper)))
    have hlevel : (b.push ts).level ≤ l.indent + 1 := Nat.le_of_eq level
    refine ⟨u, b₁, ts, hleads, hat, ?_, .node hdenotes⟩
    rw [← Stack.close_close (Nat.succ_le_of_lt deeper), hclose]
    exact Stack.close_of_le hlevel
  | @ItemLine.mapping l es below colon entries distinct =>
    have hplain : isItem l.unfold.text = false := by
      cases entries with
      | cons _ plain _ _ _ => exact plain
    have hfilled : es ≠ [] := by
      rintro rfl
      cases entries
    have hclear : ∀ l' ∈ l.unfold :: below, l'.Clear :=
      List.forall_mem_cons.2 ⟨clear.unfold hyphen colon hplain, clear_below⟩
    obtain ⟨n, -, hindent⟩ := Line.text_eq_of_isItem hyphen
    obtain ⟨u, b₁, ts, hleads, hat, hclose, hentries⟩ := entries.leads (b := b) hclear
      (at_unfold hyphen colon (clear.starts hyphen colon) tail ending hd column offset)
      (Stack.close_of_le (by omega)) (by omega) (fun h => absurd h hfilled) (ends.mono (by omega))
    refine ⟨u, b₁, _, hleads, hat, ?_, .node (.mapping hentries distinct)⟩
    -- Closing down to the hyphen ends the block of the entries on the way.
    have hdeep : b.level ≤ l.unfold.indent := by omega
    rw [← Stack.close_close (k := l.unfold.indent) (by omega),
      ← Stack.close_close (Nat.le_succ l.unfold.indent), hclose, Stack.close_openAt hdeep]
    exact Stack.close_of_le (Nat.le_of_eq level)
  | .scalar filled plain read =>
    obtain ⟨ts, hphrase⟩ := clear.scalar hyphen filled plain v read
    obtain ⟨n, hn, -⟩ := Line.text_eq_of_isItem hyphen
    rw [hn, List.append_assoc] at hd
    obtain ⟨u, hleads, hat⟩ :=
      hphrase.leads true (isBlank_of_spaces n) (fun _ => by simp [spaces]) tail
      ending (level ▸ ends) hd (Nat.le_of_eq (level.trans column.symm)) (by omega)
    exact ⟨u, b.push ts, ts, hleads, hat, Stack.close_of_le (Nat.le_of_eq level),
      hphrase.below false⟩

end

end Workflow.Outline
