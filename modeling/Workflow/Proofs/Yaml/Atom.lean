import Workflow.Proofs.Yaml.Blocks
import Workflow.Yaml.Content

namespace Workflow.Yaml

inductive Written : (source : List Char) → (plain : Bool) → (value : List Char) → Prop
  | plain {x : Char} {r : List Char} (begins : Scan.BeginsWord x r) (text : PlainText (x :: r)) :
      Written (x :: r) true (x :: r)
  | quoted {single : Bool} {src val : List Char} (text : QuotedText single src val) :
      Written (quoteOf single :: src) false val

/-- What is written for a scalar or an empty collection, its value and its tokens. -/
inductive Atom : (source : List Char) → (plain : Bool) → Tree → List Token → Prop
  | scalar {source value : List Char} {plain : Bool} {v : Tree}
      (written : Written source plain value)
      (read : scalarTree? none plain value = some v) : Atom source plain v [.scalar plain value]
  | sequence : Atom ['[', ']'] false (.sequence []) [.flowSequenceStart, .flowSequenceEnd]
  | mapping : Atom ['\x7b', '\x7d'] false (.mapping []) [.flowMappingStart, .flowMappingEnd]

/-- A token begins with an atom. -/
theorem Atom.exists_cons {source : List Char} {plain : Bool} {v : Tree} {ts : List Token}
    (h : Atom source plain v ts) : ∃ x r, source = x :: r ∧ isGap x = false ∧ x ≠ '#' := by
  cases h with
  | scalar written read =>
    cases written with
    | @plain x r begins text =>
      obtain ⟨y, s, hys, hgap⟩ := text.exists_cons
      obtain ⟨rfl, -⟩ := List.cons.inj hys
      exact ⟨x, r, rfl, hgap, begins.ne_hash⟩
    | @quoted single src val text =>
      exact ⟨quoteOf single, src, rfl, by cases single <;> decide, by cases single <;> decide⟩
  | sequence => exact ⟨_, _, rfl, by decide, by decide⟩
  | mapping => exact ⟨_, _, rfl, by decide, by decide⟩

theorem reach_skip_blanks {s y : List Char} {c : Cursor} (hs : ∀ x ∈ s, isBlank x = true)
    (hc : c.rest = s ++ y) : reach false (c.skip s.length) = reach false c := by
  rw [reach, reach, Cursor.skip_rest_of_append hc, Cursor.skip_offset hc, octetCount_blanks hs, hc,
    Scan.skipToToken_blanks hs]
  rfl

/-- Where no word begins behind some blanks, the word before them ends, but for a number sign that
follows at once. -/
theorem NoWord.endsWord_append {s z : List Char} (h : NoWord z) (hs : ∀ x ∈ s, isBlank x = true)
    (apart : s = [] → z.head? ≠ some '#') : EndsWord (s ++ z) := by
  cases s with
  | nil =>
    rcases h with hhash | ⟨-, hends⟩
    · exact absurd hhash (apart rfl)
    · exact hends
  | cons y s => exact endsWord_of_gap (isGap_of_isBlank (hs y List.mem_cons_self))

/-- Behind a closing quote stands no other one. -/
theorem NoWord.head?_ne_quote {s z : List Char} (h : NoWord z) (hs : ∀ x ∈ s, isBlank x = true) :
    (s ++ z).head? ≠ some '\'' := by
  intro hhead
  cases s with
  | nil =>
    rw [List.nil_append] at hhead
    rcases h with hhash | ⟨hgap, hends⟩
    · rw [hhash] at hhead
      exact absurd hhead (by decide)
    · rcases stopsPlain_of_endsWord hends hgap with rfl | hcolon
      · simp at hhead
      · rw [hcolon] at hhead
        exact absurd hhead (by decide)
  | cons y s =>
    have hy : y = '\'' := by simpa using hhead
    exact absurd (hs y List.mem_cons_self) (by rw [hy]; decide)

section

variable {b : Stack} {c : Cursor} {allowed : Bool} {src val s z : List Char} {plain : Bool}

/-- A scalar is read up to what stops it on its line. -/
theorem Written.readToken_stop (h : Written src plain val) (allowed : Bool)
    (hs : ∀ x ∈ s, isBlank x = true) (hz : startsWith isGap z = false) (hstop : NoWord z)
    (apart : plain = true → s = [] → z.head? ≠ some '#') (hc : c.rest = src ++ (s ++ z))
    (hmarker : c.atMarker = false) (hlevel : b.level ≤ c.column + 1) :
    ∃ x r c', c.rest = x :: r ∧ (b.scan c none allowed).readToken x r =
        some ((b.push [.scalar plain val]).scan c' (b.placeAt c allowed) false) ∧
      reach false c' = reach false (c.skip (src.length + s.length)) ∧
      c'.rest.length < c.rest.length := by
  have hlength : c.rest.length = src.length + (s.length + z.length) := by
    rw [hc, List.length_append, List.length_append]
  -- A plain scalar takes the blanks behind it along. A quoted one leaves them, and over them the
  -- same place is reached.
  cases h with
  | @plain x r begins text =>
    have hskip : (c.skip (x :: r).length).rest = s ++ z := Cursor.skip_rest_of_append hc
    have hends : EndsWord (s ++ z) := hstop.endsWord_append hs (apart rfl)
    have hhash : (x :: r).head? ≠ some '#' := by simpa using begins.ne_hash
    obtain ⟨fuel, hscan⟩ := scanPlain_of_plainText text hends hhash hc hmarker hlevel
    rw [plainEnd_blanks hs hskip hz fun _ => hstop] at hscan
    have hread : (b.scan c none allowed).readToken x (r ++ (s ++ z)) =
        (b.scan c none allowed).plain :=
      Scan.readToken_plain hmarker rfl (begins.append (s ++ z))
    refine ⟨x, r ++ (s ++ z), (c.skip (x :: r).length).skip s.length, hc, ?_, ?_, ?_⟩
    · rw [hread, Stack.plain_scan c allowed hscan]
    · rw [Cursor.skip_skip]
    · rw [Cursor.skip_skip, Cursor.skip_rest, List.length_drop, hlength, List.length_cons]
      omega
  | @quoted single src val text =>
    have hquote : single = true → (s ++ z).head? ≠ some '\'' := fun _ => hstop.head?_ne_quote hs
    have hscan := scanQuoted_of_quotedText text hquote hc
    refine ⟨quoteOf single, src ++ (s ++ z), c.skip (src.length + 1), hc, ?_, ?_, ?_⟩
    · rw [Scan.readToken_quote hmarker, Stack.quoted_scan c allowed hscan]
    · have hskip : (c.skip (src.length + 1)).rest = s ++ z :=
        Cursor.skip_rest_of_append (s := quoteOf single :: src) hc
      rw [← reach_skip_blanks hs hskip, Cursor.skip_skip]
      rfl
    · rw [Cursor.skip_rest, List.length_drop, hlength, List.length_cons]
      omega

/-- One character further on, a place is within reach. -/
theorem expire_placeAt_skip (b : Stack) (c : Cursor) (allowed : Bool) :
    Scan.expire (c.skip 1) (b.placeAt c allowed) = some (b.placeAt c allowed) := by
  cases allowed with
  | false => rfl
  | true =>
    have hoffset : (c.skip 1).offset ≤ c.offset + 1024 := by
      rw [Cursor.skip]
      cases c.rest with
      | nil => simp
      | cons x r =>
        have hsize := x.utf8Size_le_four
        simp only [List.take_succ_cons, List.take_zero, octetCount_cons, octetCount_nil]
        omega
    have hfresh : ¬c.offset + 1024 < (c.skip 1).offset := by omega
    simp [Scan.expire, Scan.isStale, Stack.placeAt, hfresh]

/-- An empty flow collection is read whole. -/
theorem Stack.leads_flow {s₀ : Scan} {b₀ : Stack} {x y : Char} {t u : Token} {r : List Char}
    (hx : ∀ s : Scan, ∀ r, s.cursor.rest = x :: r → s.readToken x r = s.openFlow t)
    (hy : ∀ s : Scan, ∀ r, s.cursor.rest = y :: r → s.readToken y r = s.closeFlow u)
    (hgap : isGap y = false) (hhash : y ≠ '#')
    (hnext : s₀.toToken.expireAll = some (b₀.scan c none allowed))
    (hclose : b₀.close (c.column + 1) = b) (hc : c.rest = x :: y :: r)
    (hlength : c.rest.length ≤ s₀.cursor.rest.length) :
    Scan.Leads s₀ ((b.push [t, u]).scan (c.skip 2) (b.placeAt c allowed) false) := by
  -- Between the brackets the place of the collection waits outside of it.
  let open₁ : Scan :=
    { (b.push [t]).scan (c.skip 1) none true with outerPlaces := [b.placeAt c allowed] }
  have hrest : open₁.cursor.rest = y :: r := by
    show c.rest.drop 1 = y :: r
    rw [hc]
    rfl
  have hopen : Scan.Leads s₀ open₁ := by
    refine Scan.Leads.of_readToken hnext hc ?_ ?_
    · rw [hclose, hx _ _ hc, Scan.openFlow, Stack.savePlace_scan]
      rfl
    · rw [hrest, List.length_cons]
      rw [hc, List.length_cons, List.length_cons] at hlength
      omega
  have hstay : open₁.toToken.expireAll = some open₁ := by
    have hskip : Scan.skipToToken true false true c.line (c.column + 1) (c.skip 1).offset
        (c.rest.drop 1) =
        (true, c.skip 1) := by
      rw [isGap, isBlank, Bool.or_eq_false_iff, Bool.or_eq_false_iff] at hgap
      rw [hc, List.drop_succ_cons, List.drop_zero, Scan.skipToToken]
      simp [hgap, hhash, Cursor.skip, hc]
    have htoken : open₁.toToken = open₁ :=
      congrArg (fun p : Bool × Cursor => { open₁ with keyAllowed := p.1, cursor := p.2 }) hskip
    have hmap : [b.placeAt c allowed].mapM (Scan.expire (c.skip 1)) =
        some [b.placeAt c allowed] := by
      simp [expire_placeAt_skip]
    rw [htoken]
    show ([b.placeAt c allowed].mapM (Scan.expire (c.skip 1)) >>=
      fun outerPlaces => some { open₁ with outerPlaces }) = _
    rw [hmap]
    rfl
  refine hopen.trans (Scan.Leads.of_step hstay hrest ?_ ?_)
  · have hflow : open₁.closeBlocks (open₁.cursor.column + 1) = open₁ := rfl
    rw [hflow, hy _ _ hrest]
    have hpush : (b.push [t]).push [u] = b.push [t, u] := Stack.push_push b [t] [u]
    have hskip : (c.skip 1).skip 1 = c.skip 2 := Cursor.skip_skip c 1 1
    rw [← hpush, ← hskip]
    rfl
  · show (c.rest.drop 2).length < (c.rest.drop 1).length
    rw [hc]
    simp

/-- An empty collection is scanned between brackets, and the scanner is outside again behind them.
-/
theorem Atom.leads_flow {v : Tree} {ts : List Token} (h : Atom src plain v ts) {s₀ : Scan}
    {b₀ : Stack} (hts : ∀ text, ts ≠ [.scalar plain text]) {y : List Char}
    (hnext : s₀.toToken.expireAll = some (b₀.scan c none allowed))
    (hclose : b₀.close (c.column + 1) = b) (hc : c.rest = src ++ y)
    (hlength : c.rest.length ≤ s₀.cursor.rest.length) :
    src.length = 2 ∧ Scan.Leads s₀ ((b.push ts).scan (c.skip 2) (b.placeAt c allowed) false) := by
  cases h with
  | scalar written read => exact absurd rfl (hts _)
  | sequence =>
    refine ⟨rfl, Stack.leads_flow (fun s r hs => ?_) (fun s r hs => ?_) (by decide) (by decide)
      hnext hclose hc hlength⟩
    · simp [Scan.readToken, Cursor.atMarker, hs]
    · simp [Scan.readToken, Cursor.atMarker, hs]
  | mapping =>
    refine ⟨rfl, Stack.leads_flow (fun s r hs => ?_) (fun s r hs => ?_) (by decide) (by decide)
      hnext hclose hc hlength⟩
    · simp [Scan.readToken, Cursor.atMarker, hs]
    · simp [Scan.readToken, Cursor.atMarker, hs]

/-- An atom is read up to what stops it on its line. -/
theorem Atom.leads_stop {v : Tree} {ts : List Token} (h : Atom src plain v ts) {s₀ : Scan}
    {b₀ : Stack} (hnext : s₀.toToken.expireAll = some (b₀.scan c none allowed))
    (hclose : b₀.close (c.column + 1) = b) (hlength : c.rest.length ≤ s₀.cursor.rest.length)
    (hs : ∀ x ∈ s, isBlank x = true) (hz : startsWith isGap z = false) (hstop : NoWord z)
    (apart : plain = true → s = [] → z.head? ≠ some '#') (hc : c.rest = src ++ (s ++ z))
    (hmarker : c.atMarker = false) (hlevel : b.level ≤ c.column + 1) :
    ∃ c', Scan.Leads s₀ ((b.push ts).scan c' (b.placeAt c allowed) false) ∧
      reach false c' = reach false (c.skip (src.length + s.length)) ∧
      c'.rest.length < c.rest.length := by
  -- An empty collection is two characters, each a token, and leaves the blanks behind it.
  have hflow (h : Atom src plain v ts) (hts : ∀ text, ts ≠ [.scalar plain text]) :
      ∃ c', Scan.Leads s₀ ((b.push ts).scan c' (b.placeAt c allowed) false) ∧
        reach false c' = reach false (c.skip (src.length + s.length)) ∧
        c'.rest.length < c.rest.length := by
    obtain ⟨hsrc, hleads⟩ := h.leads_flow hts hnext hclose hc hlength
    have hskip : (c.skip 2).rest = s ++ z := hsrc ▸ Cursor.skip_rest_of_append hc
    refine ⟨c.skip 2, hleads, ?_, ?_⟩
    · rw [hsrc, ← reach_skip_blanks hs hskip, Cursor.skip_skip]
    · have hsum : (src ++ (s ++ z)).length = src.length + (s ++ z).length := List.length_append
      rw [hskip, hc, hsum, hsrc]
      omega
  cases h with
  | scalar written read =>
    obtain ⟨x, r, c', hrest, hread, hreach, hlt⟩ :=
      written.readToken_stop allowed hs hz hstop apart hc hmarker hlevel
    refine ⟨c', Scan.Leads.of_readToken hnext hrest ?_ (Nat.lt_of_lt_of_le hlt hlength), hreach,
      hlt⟩
    rw [hclose, hread]
  | sequence => exact hflow .sequence (by simp)
  | mapping => exact hflow .mapping (by simp)

end

end Workflow.Yaml
