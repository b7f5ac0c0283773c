import Workflow.Proofs.Outline.Holding
import Workflow.Proofs.Yaml.Atom

namespace Workflow.Outline

open Yaml

/-- The scanner is about to read the first of the lines with these blocks, or has come to the end of
the text if there is none. -/
inductive At : List Line → Stack → Scan → Prop
  | line {l : Line} {ls : List Line} {b : Stack} {s : Scan} {c : Cursor}
      (front : AtLines (l :: ls) c)
      (next : s.toToken.expireAll = some (b.scan c none true))
      (shorter : c.rest.length ≤ s.cursor.rest.length) : At (l :: ls) b s
  | done {b : Stack} {s : Scan} {c : Cursor} {place : Option KeyPlace} {allowed : Bool}
      (ended : c.rest = []) (optional : ∀ p ∈ place, p.required = false)
      (next : s.toToken.expireAll = some (b.scan c place allowed)) : At [] b s

/-- Behind a line the place where a key might have begun is out of reach. -/
theorem At.of_arrives {ls : List Line} {b : Stack} {c : Cursor} {place : Option KeyPlace}
    {allowed : Bool} (line : Nat) (h : Arrives ls line (reach allowed c))
    (hplace : ∀ p ∈ place, p.required = false ∧ p.line < line) :
    At ls b (b.scan c place allowed) := by
  have hnext := Scan.toToken_scan (b := b) c place allowed
  -- At the end of the text a place may be left that is not required. A further line makes every
  -- place stale.
  cases ls with
  | nil =>
    cases place with
    | none => exact .done h.front (by simp) hnext
    | some p =>
      obtain ⟨hoptional, -⟩ := hplace p rfl
      by_cases hstale : Scan.isStale (reach allowed c).2 p = true
      · rw [Scan.expire, if_pos hstale, hoptional] at hnext
        exact .done h.front (by simp) hnext
      · rw [Scan.expire, if_neg hstale] at hnext
        exact .done h.front (by simpa using hoptional) hnext
  | cons l ls =>
    obtain ⟨hallowed, hline⟩ := h.fresh (List.cons_ne_nil l ls)
    rw [hallowed] at hnext
    cases place with
    | none => exact .line h.front hnext (reach_length allowed c)
    | some p =>
      obtain ⟨hoptional, hlt⟩ := hplace p rfl
      have hstale : Scan.isStale (reach allowed c).2 p = true := by
        rw [Scan.isStale, decide_eq_true (Nat.lt_of_lt_of_le hlt hline), Bool.true_or]
      rw [Scan.expire, if_pos hstale, hoptional] at hnext
      exact .line h.front hnext (reach_length allowed c)

theorem Ending.atGap {ls : List Line} {e : List Char} (h : Ending ls e) : atGap e = true := by
  cases h with
  | last => rfl
  | next => rfl

/-- Behind the text of a line no word goes on. -/
theorem Tail.atGap {tabs : Bool} {ls : List Line} {t e : List Char} (h : Tail tabs t)
    (ending : Ending ls e) : atGap (t ++ e) = true := by
  have hblank {s r : List Char} (hs : ∀ c ∈ s, c = ' ' ∨ tabs = true ∧ c = '\t')
      (hr : Yaml.atGap r = true) :
      Yaml.atGap (s ++ r) = true := by
    cases s with
    | nil => exact hr
    | cons x s => exact isGap_of_isBlank (isBlank_of_tail hs x List.mem_cons_self)
  cases h with
  | blank hs => exact hblank hs ending.atGap
  | comment hs _ =>
    rw [List.append_assoc]
    exact hblank hs rfl

theorem head?_ne_quote_of_endsWord {y : List Char} (h : EndsWord y) : y.head? ≠ some '\'' := by
  intro hhead
  cases y with
  | nil => simp at hhead
  | cons x r =>
    have hx : x = '\'' := by simpa using hhead
    subst hx
    rcases stopsPlain_of_endsWord h rfl with hnil | hcolon
    · simp at hnil
    · simp at hcolon

section

variable {b : Stack} {c : Cursor} {tabs plain : Bool} {src t e : List Char} {ls : List Line}

/-- A scalar at the end of a line is read up to the next line. -/
theorem readToken_tail {val : List Char} (h : Written src plain val) (allowed : Bool)
    (tail : Tail tabs t) (ending : Ending ls e) (hls : EndsMapping b.level ls)
    (hc : c.rest = src ++ (t ++ e)) (hmarker : c.atMarker = false)
    (hlevel : b.level ≤ c.column + 1) :
    ∃ x r c' broken, c.rest = x :: r ∧ (b.scan c none allowed).readToken x r =
        some ((b.push [.scalar plain val]).scan c' (b.placeAt c allowed) broken) ∧
      c'.rest.length < c.rest.length ∧ Arrives ls (c.line + 1) (reach broken c') := by
  have hends := endsWord_of_atGap (tail.atGap ending)
  have hskip : (c.skip src.length).rest = t ++ e := Cursor.skip_rest_of_append hc
  have hlength : c.rest.length = src.length + (t ++ e).length := by rw [hc, List.length_append]
  -- A plain scalar may take the break behind it along; behind a quoted one it is still there.
  cases h with
  | @plain x r begins text =>
    have hhash : (x :: r).head? ≠ some '#' := by simpa using begins.ne_hash
    obtain ⟨fuel, hscan⟩ := scanPlain_of_plainText text hends hhash hc hmarker hlevel
    obtain ⟨broken, c', hend, hle, harrives⟩ :=
      @Tail.plainEnd tabs ls t e tail ending b.level fuel (x :: r) _ hskip hls
    rw [hend] at hscan
    have hread : (b.scan c none allowed).readToken x (r ++ (t ++ e)) =
        (b.scan c none allowed).plain :=
      Scan.readToken_plain hmarker rfl (begins.append (t ++ e))
    refine ⟨x, r ++ (t ++ e), c', broken, hc, ?_, ?_, harrives⟩
    · rw [hread, Stack.plain_scan c allowed hscan]
    · rw [hskip] at hle
      rw [hlength, List.length_cons]
      omega
  | @quoted single src val text =>
    have hquote : single = true → (t ++ e).head? ≠ some '\'' :=
      fun _ => head?_ne_quote_of_endsWord hends
    have hscan := scanQuoted_of_quotedText text hquote hc
    refine ⟨quoteOf single, src ++ (t ++ e), c.skip (src.length + 1), false, hc, ?_, ?_, ?_⟩
    · rw [Scan.readToken_quote hmarker, Stack.quoted_scan c allowed hscan]
    · rw [Cursor.skip_rest, List.length_drop, hlength, List.length_cons]
      omega
    · have hrest : (c.skip (src.length + 1)).rest = t ++ e := hskip
      rw [reach, hrest]
      exact tail.arrives ending (by simp) _ _ _

/-- An atom at the end of a line is read up to the next line. -/
theorem leads_tail {v : Tree} {ts : List Token} (h : Atom src plain v ts) {s₀ : Scan} {b₀ : Stack}
    {allowed : Bool} (hnext : s₀.toToken.expireAll = some (b₀.scan c none allowed))
    (hclose : b₀.close (c.column + 1) = b) (hlength : c.rest.length ≤ s₀.cursor.rest.length)
    (tail : Tail tabs t) (ending : Ending ls e) (hls : EndsMapping b.level ls)
    (hc : c.rest = src ++ (t ++ e)) (hmarker : c.atMarker = false)
    (hlevel : b.level ≤ c.column + 1) :
    ∃ c' broken, Scan.Leads s₀ ((b.push ts).scan c' (b.placeAt c allowed) broken) ∧
      Arrives ls (c.line + 1) (reach broken c') := by
  have hflow (h : Atom src plain v ts) (hts : ∀ text, ts ≠ [.scalar plain text]) :
      ∃ c' broken, Scan.Leads s₀ ((b.push ts).scan c' (b.placeAt c allowed) broken) ∧
        Arrives ls (c.line + 1) (reach broken c') := by
    obtain ⟨hsrc, hleads⟩ := h.leads_flow hts hnext hclose hc hlength
    have hskip : (c.skip 2).rest = t ++ e := hsrc ▸ Cursor.skip_rest_of_append hc
    refine ⟨c.skip 2, false, hleads, ?_⟩
    rw [reach, hskip]
    exact tail.arrives ending (by simp) _ _ _
  cases h with
  | scalar written read =>
    obtain ⟨x, r, c', broken, hrest, hread, hlt, harrives⟩ :=
      readToken_tail written allowed tail ending hls hc hmarker hlevel
    refine ⟨c', broken, Scan.Leads.of_readToken hnext hrest ?_ (Nat.lt_of_lt_of_le hlt hlength),
      harrives⟩
    rw [hclose, hread]
  | sequence => exact hflow .sequence (by simp)
  | mapping => exact hflow .mapping (by simp)

end

/-- A text behind a colon or a hyphen up to the end of its line: an atom, a scalar with a comment
behind it, or a comment alone. -/
inductive Phrase : (text : List Char) → Tree → List Token → Prop
  | comment {note : List Char} (oneLine : OneLine note) : Phrase ('#' :: note) .null []
  | atom {src s : List Char} {plain : Bool} {v : Tree} {ts : List Token}
      (atom : Atom src plain v ts)
      (blank : ∀ x ∈ s, isBlank x = true) : Phrase (src ++ s) v ts
  | noted {src s value note : List Char} {plain : Bool} {v : Tree}
      (written : Written src plain value)
      (read : scalarTree? none plain value = some v) (blank : ∀ x ∈ s, isBlank x = true)
      (apart : plain = true → s ≠ []) (oneLine : OneLine note) :
      Phrase (src ++ (s ++ '#' :: note)) v [.scalar plain value]

theorem Tail.oneLine {tabs : Bool} {t : List Char} (h : Tail tabs t) : OneLine t := by
  have hblank {s : List Char} (hs : ∀ c ∈ s, c = ' ' ∨ tabs = true ∧ c = '\t') : OneLine s := by
    intro c hc
    rcases hs c hc with rfl | ⟨-, rfl⟩ <;> decide
  cases h with
  | blank hs => exact hblank hs
  | @comment s note hs oneLine =>
    refine (hblank hs).append fun c hc => ?_
    rcases List.mem_cons.1 hc with rfl | hc
    · decide
    · rcases List.mem_cons.1 hc with rfl | hc
      · decide
      · exact oneLine c hc

/-- Blanks may stand before what stands behind a text. -/
theorem Tail.append {tabs : Bool} {s t : List Char} (h : Tail tabs t)
    (hs : ∀ x ∈ s, isBlank x = true) :
    Tail true (s ++ t) := by
  have hblank {t : List Char} (ht : ∀ c ∈ t, c = ' ' ∨ tabs = true ∧ c = '\t') :
      ∀ c ∈ s ++ t, c = ' ' ∨ true = true ∧ c = '\t' := by
    intro c hc
    have hc : isBlank c = true := by
      rcases List.mem_append.1 hc with hc | hc
      · exact hs c hc
      · exact isBlank_of_tail ht c hc
    simpa [isBlank] using hc
  cases h with
  | blank ht => exact .blank (hblank ht)
  | @comment t note ht oneLine =>
    rw [← List.append_assoc]
    exact .comment (hblank ht) oneLine

/-- The place of a key deeper than its blocks is not one for a required key. -/
theorem placeAt_optional {b : Stack} {c : Cursor} (allowed : Bool) {line : Nat}
    (hlevel : b.level ≤ c.column) (hline : c.line < line) :
    ∀ p ∈ b.placeAt c allowed, p.required = false ∧ p.line < line := by
  intro p hp
  cases allowed with
  | false => simp [Stack.placeAt] at hp
  | true =>
    have hp : ⟨b.tokens.length, c.line, c.column, c.offset, b.level == c.column + 1⟩ = p := by
      simpa [Stack.placeAt] using hp
    rw [← hp]
    exact ⟨beq_eq_false_iff_ne.2 (by omega), hline⟩

/-- An atom is the next token, if nothing but a gap stands before it. -/
theorem next_of_atom {src y : List Char} {plain : Bool} {v : Tree} {ts : List Token}
    (h : Atom src plain v ts) (b : Stack) {c c' : Cursor} {allowed : Bool}
    (hreach : reach allowed c' = reach allowed c) (hcolumn : 0 < c'.column)
    (hrest : c'.rest = src ++ y) :
    (b.scan c none allowed).toToken.expireAll = some (b.scan c' none allowed) := by
  obtain ⟨x, r, rfl, hgap, hhash⟩ := h.exists_cons
  have hstay : reach allowed c' = (allowed, c') :=
    reach_of_token hrest hgap hhash fun hzero => absurd hzero (Nat.ne_of_gt hcolumn)
  rw [Scan.toToken_scan, ← hreach, hstay]
  rfl

/-- What stands behind a colon or a hyphen is read up to the next line. -/
theorem Phrase.leads {text : List Char} {v : Tree} {ts : List Token} (h : Phrase text v ts)
    {g : List Char} {b : Stack} {c : Cursor} {tabs : Bool} {t e : List Char} {ls : List Line}
    (allowed : Bool) (gap : ∀ x ∈ g, isBlank x = true)
    (spaced : allowed = true → g = spaces g.length)
    (tail : Tail tabs t) (ending : Ending ls e) (hls : EndsMapping b.level ls)
    (hc : c.rest = g ++ (text ++ (t ++ e))) (hlevel : b.level ≤ c.column) (hcolumn : 0 < c.column) :
    ∃ u, Scan.Leads (b.scan c none allowed) u ∧ At ls (b.push ts) u := by
  have hskip : (c.skip g.length).rest = text ++ (t ++ e) := Cursor.skip_rest_of_append hc
  have hreach : reach allowed (c.skip g.length) = reach allowed c := by
    cases allowed with
    | false => exact reach_skip_blanks gap hc
    | true => exact reach_skip_spaces (spaced rfl ▸ hc)
  -- The gap matters only through the place it leads to.
  generalize g.length = n at hskip hreach
  have hcolumn' : 0 < (c.skip n).column := Nat.lt_of_lt_of_le hcolumn (Nat.le_add_right _ _)
  have hmarker : (c.skip n).atMarker = false := Cursor.atMarker_of_column hcolumn'
  have hdeep : b.level ≤ (c.skip n).column := Nat.le_trans hlevel (Nat.le_add_right _ _)
  have hclose : b.close ((c.skip n).column + 1) = b := Stack.close_of_le (Nat.le_succ_of_le hdeep)
  have hlength : (c.skip n).rest.length ≤ (b.scan c none allowed).cursor.rest.length := by
    rw [Cursor.skip_rest, List.length_drop]
    exact Nat.sub_le _ _
  cases h with
  | @comment note oneLine =>
    refine ⟨_, Scan.Leads.refl _, At.of_arrives (c.line + 1) ?_ (by simp)⟩
    rw [← hreach, reach, hskip, List.cons_append, ← List.append_assoc]
    exact ending.arrives_comment (oneLine.append tail.oneLine) _ _ _ _
  | @atom src s plain v ts atom blank =>
    rw [List.append_assoc, ← List.append_assoc s] at hskip
    obtain ⟨c', broken, hleads, harrives⟩ :=
      leads_tail atom (next_of_atom atom b hreach hcolumn' hskip)
      hclose hlength (tail.append blank) ending hls hskip hmarker (Nat.le_succ_of_le hdeep)
    exact ⟨_, hleads, At.of_arrives _ harrives
      (placeAt_optional allowed hdeep (Nat.lt_succ_self _))⟩
  | @noted src s value note plain v written read blank apart oneLine =>
    have atom := Atom.scalar written read
    have hrest : (c.skip n).rest = src ++ (s ++ ('#' :: (note ++ (t ++ e)))) := by
      rw [hskip]
      simp
    obtain ⟨c', hleads, hstop, -⟩ := atom.leads_stop (next_of_atom atom b hreach hcolumn' hrest)
      hclose hlength blank rfl (Or.inl rfl) (fun hp hs => absurd hs (apart hp)) hrest hmarker
      (Nat.le_succ_of_le hdeep)
    refine ⟨_, hleads, At.of_arrives (c.line + 1) ?_
      (placeAt_optional allowed hdeep (Nat.lt_succ_self _))⟩
    have hbehind : ((c.skip n).skip (src.length + s.length)).rest = '#' :: ((note ++ t) ++ e) := by
      rw [Cursor.skip_rest, hrest, ← List.append_assoc, ← List.length_append, List.drop_left,
        List.append_assoc]
    rw [hstop, reach, hbehind]
    exact ending.arrives_comment (oneLine.append tail.oneLine) _ _ _ _

/-- A place is within reach as long as no more than 1024 octets stand between, all on its line. -/
theorem isStale_skip {c : Cursor} {w y : List Char} (index : Nat) (required : Bool)
    (hrest : c.rest = w ++ y) (within : octetCount w ≤ 1024) :
    Scan.isStale (c.skip w.length) ⟨index, c.line, c.column, c.offset, required⟩ = false := by
  simp only [Scan.isStale, Cursor.skip_offset hrest, Cursor.skip_line, Bool.or_eq_false_iff]
  exact ⟨decide_eq_false (Nat.lt_irrefl _), decide_eq_false (by omega)⟩

/-- A key is read with its colon. The mapping is opened if it is not open yet. -/
theorem leads_key {l : Line} {ls : List Line} {b₀ b : Stack} {s₀ : Scan} {src s behind : List Char}
    {plain : Bool} {k : Tree} {ks : List Token} (atom : Atom src plain k ks)
    (blank : ∀ x ∈ s, isBlank x = true) (within : octetCount (src ++ s) ≤ 1024)
    (hl : l.text = src ++ (s ++ ':' :: behind)) (hgap : atGap behind = true)
    (hmarker : l.indent = 0 → ∀ c : Cursor, ∀ y, c.rest = l.text ++ y → c.atMarker = false)
    (h : At (l :: ls) b₀ s₀) (hclose : b₀.close (l.indent + 1) = b)
    (hlevel : b.level ≤ l.indent + 1) :
    ∃ c t e, Scan.Leads s₀
        (((b.openAt l.indent .blockMappingStart).push (.key :: (ks ++ [.value]))).scan c
          none false) ∧
      c.rest = behind ++ (t ++ e) ∧ l.indent + 1 ≤ c.column ∧ Tail l.allowsTabs t ∧
      Ending ls e := by
  cases h with
  | @line l ls b₀ s₀ c front next shorter =>
    obtain ⟨start, hcolumn, hoffset, t, e, tail, ending, hrest⟩ := front
    rw [hl, List.append_assoc, List.append_assoc, List.cons_append] at hrest
    rw [← hcolumn] at hclose hlevel ⊢
    have hgap : atGap (behind ++ (t ++ e)) = true := by
      cases behind with
      | nil => exact tail.atGap ending
      | cons x r => exact hgap
    have hmarker : c.atMarker = false := by
      by_cases hzero : l.indent = 0
      · refine hmarker hzero c (t ++ e) ?_
        rw [hrest, hl]
        simp
      · exact Cursor.atMarker_of_column (by omega)
    obtain ⟨c', hleads, hreach, -⟩ := atom.leads_stop next hclose shorter blank rfl
      (Or.inr ⟨rfl, endsWord_of_colon hgap⟩) (by simp) hrest hmarker hlevel
    -- The colon comes before the place of the key is out of reach.
    rw [← List.append_assoc] at hrest
    rw [← List.length_append] at hreach
    have hcolon : (c.skip (src ++ s).length).rest = ':' :: (behind ++ (t ++ e)) :=
      Cursor.skip_rest_of_append hrest
    have hstay : reach false (c.skip (src ++ s).length) = (false, c.skip (src ++ s).length) :=
      reach_of_token hcolon (by decide) (by decide) fun _ => by decide
    have hnext : ((b.push ks).scan c' (b.placeAt c true) false).toToken.expireAll =
        some ((b.push ks).scan (c.skip (src ++ s).length) (b.placeAt c true) false) := by
      rw [Scan.toToken_scan, hreach, hstay, Stack.placeAt, if_pos rfl, Scan.expire,
        isStale_skip _ _ hrest within]
      rfl
    refine ⟨(c.skip (src ++ s).length).skip 1, t, e, hleads.trans
      (Scan.Leads.of_readToken hnext hcolon ?_ ?_), ?_, ?_, tail, ending⟩
    · have hdeep : (b.push ks).level ≤ (c.skip (src ++ s).length).column + 1 := by
        rw [Stack.push_level, Cursor.skip_column]
        omega
      rw [Stack.close_of_le hdeep, Scan.readToken_colon hcolon hgap, Stack.placeAt, if_pos rfl,
        Stack.colon_scan rfl]
      simp
    · have hle := reach_length false c'
      rw [hreach, hstay, hcolon] at hle
      rw [Stack.scan_cursor, Stack.scan_cursor, Cursor.skip_rest, hcolon]
      exact hle
    · rw [Cursor.skip_rest, hcolon]
      rfl
    · rw [Cursor.skip_column, Cursor.skip_column]
      omega

end Workflow.Outline
