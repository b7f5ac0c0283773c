import Workflow.Proofs.Yaml.Atom
import Workflow.Proofs.Yaml.Growth
import Workflow.Proofs.Yaml.Trees
import Mathlib.Data.List.TakeWhile

namespace Workflow.Yaml

namespace Scan

/-- A run from a state to the end keeps its tokens. -/
theorem grows_run {fuel : Nat} {s : Scan} {ts : List Token} (h : s.run fuel = some ts) :
    Grows s.tokens ts.reverse := by
  induction fuel generalizing s with
  | zero => simp [run] at h
  | succ fuel ih =>
    rw [run] at h
    cases hnext : s.toToken.expireAll with
    | none => simp [hnext] at h
    | some u =>
      -- Closing blocks adds tokens at most, and so does reading one.
      have htokens : u.tokens = s.toToken.tokens := expireAll_tokens hnext
      have hclosed := grows_closeBlocks u (u.cursor.column + 1)
      have hkept : s.toToken.tokens = s.tokens := rfl
      rw [htokens, hkept] at hclosed
      simp only [hnext] at h
      split at h
      · obtain ⟨w, hw, rfl⟩ := Option.map_eq_some_iff.1 h
        rw [List.reverse_reverse, dropPlace_tokens hw]
        exact hclosed.trans (grows_closeBlocks _ 0)
      · split at h
        · rename_i w hread
          obtain ⟨t, ht, -⟩ := adds_readToken hread
          exact hclosed.trans (ht.grows.trans (ih h))
        · simp at h

end Scan

namespace Compose

theorem node_scalar (fuel : Nat) (place : Place) (plain : Bool) (text : List Char) (ts : List Token)
    (handles : List TagHandle) (names : List (List Char × Nat)) :
    node (fuel + 1) place ⟨.scalar plain text :: ts, handles, names⟩ =
      some (.scalar {} plain text, ⟨ts, handles, names⟩) := by
  simp [node, peek, takeProperties, takeAnchor, takeTag, skip]

theorem document?_scalar (plain : Bool) (text : List Char) (ts : List Token) :
    document? (.scalar plain text :: ts) =
      if (ts.dropWhile (· == .documentEnd)).isEmpty then some ⟨some (.scalar {} plain text)⟩
      else none := by
  simp [document?, document, isExplicit, content, node_scalar]

/-- A document that begins with the opening of a block is a collection. -/
theorem document?_opensBlock {t : Token} {ts : List Token} {d : Document} (ht : opensBlock t)
    (h : document? (t :: ts) = some d) :
    (∃ items, d.root = some (.sequence {} items)) ∨ ∃ entries,
      d.root = some (.mapping {} entries) := by
  simp only [document?, List.isEmpty_cons, Bool.false_eq_true, if_false] at h
  cases hroot : document (t :: ts) with
  | none => simp [hroot] at h
  | some result =>
    obtain ⟨root, s⟩ := result
    simp only [hroot, Option.ite_none_right_eq_some, Option.some.injEq] at h
    obtain ⟨-, rfl⟩ := h
    rcases ht with rfl | rfl | rfl
    · simp [document, isExplicit, content, node, peek, takeProperties, takeAnchor, takeTag, bare]
        at hroot
    · simp only [document, isExplicit, content, node, peek, takeProperties, takeAnchor, takeTag,
        List.head?_cons, Bool.false_eq_true, if_false, Option.isNone_none, if_true,
        Option.map_eq_some_iff, Prod.mk.injEq] at hroot
      obtain ⟨⟨entries, s'⟩, -, rfl, -⟩ := hroot
      exact Or.inr ⟨entries, rfl⟩
    · simp only [document, isExplicit, content, node, peek, takeProperties, takeAnchor, takeTag,
        List.head?_cons, Bool.false_eq_true, if_false, Option.isNone_none, if_true,
        Option.map_eq_some_iff, Prod.mk.injEq] at hroot
      obtain ⟨⟨items, s'⟩, -, rfl, -⟩ := hroot
      exact Or.inl ⟨items, rfl⟩

/-- No document begins with a token that ends or parts a collection. -/
theorem document?_eq_none {t : Token} {ts : List Token}
    (ht : t = .flowSequenceEnd ∨ t = .flowMappingEnd ∨ t = .flowEntry) :
    document? (t :: ts) = none := by
  rcases ht with rfl | rfl | rfl <;>
    simp [document?, document, isExplicit, content, node, peek, takeProperties, takeAnchor, takeTag,
      bare]

end Compose

/-- What is left of a text of one line on which no token is found: blanks, and a comment. -/
theorem exists_comment_of_reach {c : Cursor} (hline : OneLine c.rest) (hcolumn : 0 < c.column)
    (h : (reach false c).2.rest = []) :
    ∃ s z, c.rest = s ++ z ∧ (∀ x ∈ s, isBlank x = true) ∧ (z = [] ∨ ∃ note, z = '#' :: note) := by
  obtain ⟨s, z, hsz, hs, hz, -⟩ := exists_blanks_append hline
  refine ⟨s, z, hsz, hs, ?_⟩
  cases z with
  | nil => exact Or.inl rfl
  | cons y z =>
    by_cases hhash : y = '#'
    · exact Or.inr ⟨z, by rw [hhash]⟩
    · have hskip := Cursor.skip_rest_of_append hsz
      have hstay := @reach_of_token false _ _ _ hskip hz hhash fun hzero => by
        rw [Cursor.skip_column] at hzero
        omega
      rw [← reach_skip_blanks hs hsz, hstay, hskip] at h
      simp at h

namespace Scan

variable {c : Cursor} {x : Char} {r : List Char} {t : Scan}

/-- The first token of a text opens a block, or a document that has no value, or it is a scalar. -/
theorem readToken_first (hmarker : c.atMarker = false) (hx : x ∉ "[\x7b&*!|>%".toList)
    (h : ((⟨[], 0, []⟩ : Stack).scan c none true).readToken x r = some t) :
    (∃ u, t.tokens.getLast? = some u ∧
        (opensBlock u ∨ u = .flowSequenceEnd ∨ u = .flowMappingEnd ∨ u = .flowEntry)) ∨
      (∃ single, x = quoteOf single ∧ ((⟨[], 0, []⟩ : Stack).scan c none true).quoted single =
        some t) ∨
      BeginsWord x r ∧ ((⟨[], 0, []⟩ : Stack).scan c none true).plain = some t := by
  have hflow : ((⟨[], 0, []⟩ : Stack).scan c none true).inFlow = false := rfl
  simp at hx
  rw [readToken] at h
  simp only [Stack.scan_cursor, hmarker, hflow, hx, Bool.false_or, Bool.and_eq_true, beq_iff_eq,
    and_false, false_and, Bool.false_eq_true, if_false] at h
  have hopen (u : Token) : (⟨[], 0, []⟩ : Stack).openAt c.column u = ⟨[u], c.column + 1, [0]⟩ :=
    if_pos (Nat.zero_le _)
  -- The ways that are left for such a character, in the order in which they are tried.
  rcases ite_eq_iff.1 h with ⟨-, h⟩ | ⟨-, h⟩
  · exact Or.inl ⟨_, Option.some.inj h ▸ rfl, Or.inr (Or.inl rfl)⟩
  rcases ite_eq_iff.1 h with ⟨-, h⟩ | ⟨-, h⟩
  · exact Or.inl ⟨_, Option.some.inj h ▸ rfl, Or.inr (Or.inr (Or.inl rfl))⟩
  rcases ite_eq_iff.1 h with ⟨-, h⟩ | ⟨-, h⟩
  · exact Or.inl ⟨_, Option.some.inj h ▸ rfl, Or.inr (Or.inr (Or.inr rfl))⟩
  rcases ite_eq_iff.1 h with ⟨-, h⟩ | ⟨hhyphen, h⟩
  · rw [Stack.blockEntry_scan, hopen] at h
    exact Or.inl ⟨_, Option.some.inj h ▸ rfl, Or.inl (Or.inr (Or.inr rfl))⟩
  rcases ite_eq_iff.1 h with ⟨-, h⟩ | ⟨hquestion, h⟩
  · rw [explicitKey, Stack.openBlockHere_scan, hopen] at h
    exact Or.inl ⟨_, Option.some.inj h ▸ rfl, Or.inl (Or.inr (Or.inl rfl))⟩
  rcases ite_eq_iff.1 h with ⟨-, h⟩ | ⟨hcolon, h⟩
  · have hnone : ((⟨[], 0, []⟩ : Stack).scan c none true).place = none := rfl
    rw [colon, hnone] at h
    simp only [Stack.openBlockHere_scan, hopen] at h
    exact Or.inl ⟨_, Option.some.inj h ▸ rfl, Or.inl (Or.inr (Or.inl rfl))⟩
  rcases ite_eq_iff.1 h with ⟨hquote, h⟩ | ⟨-, h⟩
  · exact Or.inr (Or.inl ⟨true, hquote, h⟩)
  rcases ite_eq_iff.1 h with ⟨hquote, h⟩ | ⟨-, h⟩
  · exact Or.inr (Or.inl ⟨false, hquote, h⟩)
  rcases ite_eq_iff.1 h with ⟨hbegins, h⟩ | ⟨-, h⟩
  · refine Or.inr (Or.inr ⟨?_, h⟩)
    simp only [beginsPlain, Bool.or_eq_true, Bool.and_eq_true, Bool.not_eq_true', beq_iff_eq]
      at hbegins
    rcases hbegins with (hplain | ⟨hx, -⟩) | ⟨⟨-, hx⟩, hgap⟩
    · exact Or.inl hplain
    · exact Or.inr ⟨Or.inl hx, by simpa [hx] using hhyphen⟩
    · exact Or.inr ⟨Or.inr hx, hgap⟩
  · simp at h

/-- A run that goes on behind a scalar reads a further token, and not one that ends the document. -/
theorem tokens_of_run {fuel : Nat} {plain broken : Bool} {text : List Char}
    {place : Option KeyPlace} {toks : List Token} (hmarker : (reach broken c).2.atMarker = false)
    (hrest : (reach broken c).2.rest ≠ [])
    (h : ((⟨[.scalar plain text], 0, []⟩ : Stack).scan c place broken).run fuel = some toks) :
    ∃ u ts, Grows [.scalar plain text] ts ∧ Grows (u :: ts) toks.reverse ∧ u ≠ .documentEnd := by
  cases fuel with
  | zero => simp [run] at h
  | succ fuel =>
    have hnext := toToken_scan (b := ⟨[.scalar plain text], 0, []⟩) c place broken
    rw [run, hnext] at h
    cases hplace : expire (reach broken c).2 place with
    | none => simp [hplace] at h
    | some place' =>
      simp only [hplace, Option.map_some, Stack.closeBlocks_scan, Stack.scan_cursor] at h
      -- Behind a lone scalar no block is open, so none is closed.
      rw [Stack.close_of_le (Nat.zero_le _)] at h
      split at h
      · contradiction
      · rename_i x r hxr
        split at h
        · rename_i w hread
          obtain ⟨u, ⟨ts, hts, hgrows⟩, hne⟩ := adds_readToken hread
          exact ⟨u, ts, hgrows, hts ▸ grows_run h, hne hmarker⟩
        · simp at h

end Scan

/-- The first token of all is the first one now, unless one is put before it that opens a block. -/
theorem exists_head_of_grows {ts toks : List Token} {t : Token} (h : Grows ts toks.reverse)
    (ht : ts.getLast? = some t) : ∃ w rest, toks = w :: rest ∧ (w = t ∨ opensBlock w) := by
  obtain ⟨w, hw, hor⟩ := h.getLast? ht
  rw [List.getLast?_reverse] at hw
  cases toks with
  | nil => simp at hw
  | cons y rest => exact ⟨w, rest, by rw [show y = w by simpa using hw], hor⟩

/-- The document of a scalar and of tokens that do not end it is a collection, if there is one. -/
theorem isCollection_of_grows {plain : Bool} {text : List Char} {ts toks : List Token} {u : Token}
    {d : Document} {v : Tree} (hts : Grows [.scalar plain text] ts)
    (h : Grows (u :: ts) toks.reverse) (hu : u ≠ .documentEnd)
    (hd : Compose.document? toks = some d) (hv : d.toTree? = some v) :
    IsCollection v := by
  obtain ⟨w, hw, hor⟩ := hts.getLast? rfl
  have hne : ts ≠ [] := by
    rintro rfl
    simp at hw
  have hlast : (u :: ts).getLast? = some w := by rw [List.getLast?_cons_of_ne_nil hne, hw]
  obtain ⟨w', rest, rfl, hor'⟩ := exists_head_of_grows h hlast
  by_cases hopens : opensBlock w'
  · exact isCollection_of_toTree? (Compose.document?_opensBlock hopens hd) hv
  · have hscalar : w' = .scalar plain text := by
      rcases hor' with rfl | hopens'
      · exact hor.resolve_right hopens
      · exact absurd hopens' hopens
    -- Only marks of the end may follow a document that is the scalar alone, but `u` follows it.
    subst hscalar
    rw [Compose.document?_scalar] at hd
    have hmem : u ∈ rest := by
      have hdrop : u ∈ (u :: ts).dropLast := by
        rw [List.dropLast_cons_of_ne_nil hne]
        exact List.mem_cons_self
      have hkept := h.mem_dropLast hdrop
      rw [List.reverse_cons, List.dropLast_concat] at hkept
      exact List.mem_reverse.1 hkept
    have hdropped := List.isEmpty_iff.1 (Option.ite_none_right_eq_some.1 hd).1
    exact absurd (beq_iff_eq.1 (List.dropWhile_eq_nil_iff.1 hdropped u hmem)) hu

namespace Scan

theorem expire_optional {c : Cursor} {place place' : Option KeyPlace}
    (h : expire c place = some place') (hplace : ∀ p ∈ place, p.required = false) :
    ∀ p ∈ place', p.required = false := by
  cases place with
  | none =>
    have hnone : place' = none := (Option.some.inj h).symm
    simp [hnone]
  | some p =>
    have hp : p.required = false := hplace p rfl
    rw [expire, hp] at h
    split at h
    · have hnone : place' = none := (Option.some.inj h).symm
      simp [hnone]
    · have hsame : place' = some p := (Option.some.inj h).symm
      simpa [hsame] using hp

/-- If the first token is a scalar and the value no collection, the text ends with the scalar. -/
theorem scalar_of_run {fuel : Nat} {plain broken : Bool} {text : List Char}
    {place : Option KeyPlace} {c : Cursor} {toks : List Token} {d : Document} {v : Tree}
    (h : ((⟨[.scalar plain text], 0, []⟩ : Stack).scan c place broken).run fuel = some toks)
    (hd : Compose.document? toks = some d) (hv : d.toTree? = some v) (hscalar : ¬IsCollection v)
    (hmarker : (reach broken c).2.atMarker = false) (hplace : ∀ p ∈ place, p.required = false) :
    (reach broken c).2.rest = [] ∧ scalarTree? none plain text = some v := by
  -- Where something is left, it makes a token that does not end the document, so that the value is
  -- a collection.
  by_cases hrest : (reach broken c).2.rest = []
  · refine ⟨hrest, ?_⟩
    cases fuel with
    | zero => simp [run] at h
    | succ fuel =>
      have hnext := toToken_scan (b := ⟨[.scalar plain text], 0, []⟩) c place broken
      cases hexpire : expire (reach broken c).2 place with
      | none =>
        rw [hexpire] at hnext
        simp [run, hnext] at h
      | some place' =>
        rw [hexpire] at hnext
        have hend : run (fuel + 1) _ = _ := run_of_end hnext hrest (expire_optional hexpire hplace)
        rw [hend, Stack.close_of_le (Nat.le_refl 0)] at h
        rw [← Option.some.inj h] at hd
        have hroot : (⟨some (.scalar {} plain text)⟩ : Document) = d := by
          simpa [Compose.document?_scalar] using hd
        rw [← hroot, toTree?_scalar] at hv
        exact hv
  · obtain ⟨u, ts, hts, hgrows, hu⟩ := tokens_of_run hmarker hrest h
    exact absurd (isCollection_of_grows hts hgrows hu hd hv) hscalar

end Scan

namespace Scan

variable {c : Cursor} {t : Scan} {x : Char} {r : List Char}

/-- The place of the first token of a text is not one for a required key. -/
theorem placeAt_optional : ∀ p ∈ (⟨[], 0, []⟩ : Stack).placeAt c true, p.required = false := by
  intro p hp
  have hp : ⟨0, c.line, c.column, c.offset, 0 == c.column + 1⟩ = p := by
    simpa [Stack.placeAt] using hp
  rw [← hp]
  exact beq_eq_false_iff_ne.2 (Nat.succ_ne_zero _).symm

theorem quoted_first {single : Bool} (hc : c.rest = quoteOf single :: r) (hline : OneLine r)
    (h : ((⟨[], 0, []⟩ : Stack).scan c none true).quoted single = some t) :
    ∃ src val y c', r = src ++ y ∧ QuotedText single src val ∧ c'.rest = y ∧ 0 < c'.column ∧
      t = (⟨[.scalar false val], 0, []⟩ : Stack).scan c'
      ((⟨[], 0, []⟩ : Stack).placeAt c true) false := by
  rw [quoted, Stack.savePlace_scan] at h
  replace h : (scanQuoted single c >>= _) = some t := h
  obtain ⟨res, hres, h⟩ := Option.bind_eq_some_iff.1 h
  have hskip : (c.skip 1).rest = r := by rw [Cursor.skip_rest, hc]; rfl
  obtain ⟨src, val, y, hrest, text, -, hr⟩ := quotedText_of_eq_some hres (hskip ▸ hline) (by simp)
  refine ⟨src, val, y, (c.skip 1).skip src.length, hskip ▸ hrest, text, ?_, ?_, ?_⟩
  · exact Cursor.skip_rest_of_append hrest
  · simp only [Cursor.skip_column]
    omega
  · rw [← Option.some.inj h, hr]
    rfl

theorem plain_first (hc : c.rest = x :: r) (hline : OneLine (x :: r)) (hgap : isGap x = false)
    (hmarker : c.atMarker = false) (h : ((⟨[], 0, []⟩ : Stack).scan c none true).plain = some t) :
    ∃ res, PlainRead [] {} c res ∧
      t = (⟨[.scalar true res.text], 0, []⟩ : Stack).scan res.next
      ((⟨[], 0, []⟩ : Stack).placeAt c true)
        res.endsBroken := by
  rw [plain, Stack.savePlace_scan] at h
  replace h : (scanPlain false 0 c >>= _) = some t := h
  obtain ⟨res, hres, h⟩ := Option.bind_eq_some_iff.1 h
  refine ⟨res, ?_, ?_⟩
  · exact plainRead_of_eq_some hres (hc ▸ hline) (by rw [hc]; exact hgap) hmarker rfl
  · rw [← Option.some.inj h]
    rfl

/-- Behind the first scalar of a line stand blanks and a comment at most, if the value is no
collection. -/
theorem exists_comment_of_run {fuel : Nat} {plain : Bool} {text : List Char} {c₀ : Cursor}
    {toks : List Token} {d : Document} {v : Tree}
    (h : ((⟨[.scalar plain text], 0, []⟩ : Stack).scan c
      ((⟨[], 0, []⟩ : Stack).placeAt c₀ true) false).run fuel = some toks)
    (hd : Compose.document? toks = some d) (hv : d.toTree? = some v) (hscalar : ¬IsCollection v)
    (hline : OneLine c.rest) (hcolumn : 0 < c.column) :
    scalarTree? none plain text = some v ∧ ∃ s z, c.rest = s ++ z ∧ (∀ x ∈ s, isBlank x = true) ∧
      (z = [] ∨ ∃ note, z = '#' :: note) := by
  have hlater : 0 < (reach false c).2.column :=
    Nat.lt_of_lt_of_le hcolumn (skipToToken_column _ _ _ _ _ _ hline)
  obtain ⟨hnil, hval⟩ := scalar_of_run h hd hv hscalar (Cursor.atMarker_of_column hlater)
    placeAt_optional
  exact ⟨hval, exists_comment_of_reach hline hcolumn hnil⟩

end Scan

/-- The first word of a plain scalar is more than its first character if that is an indicator. -/
theorem written_of_begins {x : Char} {r src s left : List Char} (hbegins : Scan.BeginsWord x r)
    (hsrc : x :: r = src ++ (s ++ left)) (filled : src ≠ []) (text : PlainText src)
    (blank : ∀ c ∈ s, isBlank c = true) (hleft : left = [] ∨ ∃ note, left = '#' :: note)
    (apart : s = [] → left.head? ≠ some '#') : Written src true src := by
  cases src with
  | nil => exact absurd rfl filled
  | cons y src =>
    obtain ⟨rfl, rfl⟩ := List.cons.inj hsrc
    refine .plain ?_ text
    rcases hbegins with hplain | ⟨hx, hgap⟩
    · exact Or.inl hplain
    · refine Or.inr ⟨hx, ?_⟩
      -- An indicator that is the whole word would have a gap behind it, which it must not.
      cases src with
      | cons z src => exact hgap
      | nil =>
        cases s with
        | cons z s =>
          have hz : isGap z = true := isGap_of_isBlank (blank z List.mem_cons_self)
          simp [atGap, hz] at hgap
        | nil =>
          rcases hleft with rfl | ⟨note, rfl⟩
          · simp [atGap] at hgap
          · exact absurd rfl (apart rfl)

/-- Where a plain scalar is followed by blanks and a comment at most, it is not a colon that stops
it. -/
theorem StopsPlain.eq_comment {left s z : List Char} (h : StopsPlain left) (hsz : left = s ++ z)
    (hs : ∀ c ∈ s, isBlank c = true) (hz : z = [] ∨ ∃ note, z = '#' :: note) :
    left = [] ∨ ∃ note, left = '#' :: note := by
  cases s with
  | nil => rwa [hsz]
  | cons y s =>
    -- A blank ends no plain scalar.
    have hy := hs y List.mem_cons_self
    rcases h with rfl | hhead | hhead
    · exact Or.inl rfl
    all_goals
      rw [hsz, List.cons_append, List.head?_cons, Option.some.injEq] at hhead
      rw [hhead] at hy
      exact absurd hy (by decide)

theorem exists_run_of_readTree? {text : List Char} {v : Tree} (h : readTree? text = some v)
    (hbreaks : ∀ c ∈ text, c ≠ '\r' ∧ c ≠ '\u0085') :
    ∃ ts d, (Scan.start text).run (text.length + 2) = some ts ∧ Compose.document? ts = some d ∧
      d.toTree? = some v := by
  obtain ⟨d, hdocument, hv⟩ := Option.bind_eq_some_iff.1 h
  obtain ⟨ts, htokens, hd⟩ := Option.bind_eq_some_iff.1 hdocument
  rw [tokens?] at htokens
  obtain ⟨-, hrun⟩ := Option.ite_none_right_eq_some.1 htokens
  rw [unifyBreaks_eq_self hbreaks] at hrun
  exact ⟨ts, d, hrun, hd, hv⟩

/-- A comment alone has the value null. -/
theorem eq_null_of_readTree? {note : List Char} {v : Tree} (h : readTree? ('#' :: note) = some v)
    (hbreaks : ∀ c ∈ '#' :: note, c ≠ '\r' ∧ c ≠ '\u0085') (hline : OneLine note) : v = .null := by
  obtain ⟨ts, d, hrun, hd, hv⟩ := exists_run_of_readTree? h hbreaks
  have hreach : ∃ column offset, reach true ⟨'#' :: note, 0, 0, 0⟩ =
      (true, ⟨[], 0, column, offset⟩) := by
    obtain ⟨column, offset, hcomment⟩ := Scan.skipToToken_comment hline
    rw [List.append_nil] at hcomment
    refine ⟨column, offset, ?_⟩
    rw [reach, Scan.skipToToken_hash, hcomment, Scan.skipToToken]
  obtain ⟨column, offset, hreach⟩ := hreach
  have hnext := Scan.toToken_scan (b := ⟨[], 0, []⟩) ⟨'#' :: note, 0, 0, 0⟩ none true
  rw [hreach] at hnext
  have hend (fuel : Nat) : (Scan.start ('#' :: note)).run (fuel + 1) = some [] :=
    Scan.run_of_end hnext rfl (by simp)
  rw [hend] at hrun
  rw [← Option.some.inj hrun] at hd
  rw [← Option.some.inj hd] at hv
  exact (Option.some.inj hv).symm

/-- No token begins with a tab at the start of a text. -/
theorem readTree?_tab {r : List Char} (hbreaks : ∀ c ∈ '\t' :: r, c ≠ '\r' ∧ c ≠ '\u0085') :
    readTree? ('\t' :: r) = none := by
  rw [Option.eq_none_iff_forall_ne_some]
  intro v h
  obtain ⟨ts, d, hrun, -, -⟩ := exists_run_of_readTree? h hbreaks
  have hnext : (Scan.start ('\t' :: r)).toToken.expireAll = some (Scan.start ('\t' :: r)) := rfl
  have hclose : (Scan.start ('\t' :: r)).closeBlocks 1 = Scan.start ('\t' :: r) := rfl
  have hread : (Scan.start ('\t' :: r)).readToken '\t' r = none := by
    simp [Scan.readToken, Cursor.atMarker, Scan.beginsPlain, Scan.isIndicator, isGap, isBlank,
      Scan.start]
  rw [Scan.run, hnext] at hrun
  simp only [Scan.start, Nat.zero_add] at hrun hclose hread
  rw [hclose] at hrun
  simp [hread] at hrun

/-- A text whose first token is no scalar has a collection as its value, if it has one. -/
theorem isCollection_of_first {toks : List Token} {t : Scan} {u : Token} {d : Document} {v : Tree}
    (hgrows : Grows t.tokens toks.reverse) (hu : t.tokens.getLast? = some u)
    (hor : opensBlock u ∨ u = .flowSequenceEnd ∨ u = .flowMappingEnd ∨ u = .flowEntry)
    (hd : Compose.document? toks = some d) (hv : d.toTree? = some v) : IsCollection v := by
  obtain ⟨w, rest, rfl, hor'⟩ := exists_head_of_grows hgrows hu
  by_cases hopens : opensBlock w
  · exact isCollection_of_toTree? (Compose.document?_opensBlock hopens hd) hv
  · obtain rfl := hor'.resolve_right hopens
    rw [Compose.document?_eq_none (hor.resolve_left hopens)] at hd
    simp at hd

section FirstToken

variable {x : Char} {r : List Char} {v : Tree} {fuel : Nat} {t : Scan} {toks : List Token}
  {d : Document}

theorem written_of_quoted {single : Bool} (hline : OneLine r)
    (hquoted : ((⟨[], 0, []⟩ : Stack).scan ⟨quoteOf single :: r, 0, 0, 0⟩ none true).quoted single =
      some t)
    (hrun : t.run fuel = some toks) (hd : Compose.document? toks = some d)
    (hd' : d.toTree? = some v) (hv : ¬IsCollection v) :
    ∃ src value s z, quoteOf single :: r = src ++ (s ++ z) ∧ Written src false value ∧
      scalarTree? none false value = some v ∧ (∀ c ∈ s, isBlank c = true) ∧
      (z = [] ∨ ∃ note, z = '#' :: note) := by
  obtain ⟨src, val, y, c, rfl, text, hy, hcolumn, rfl⟩ := Scan.quoted_first rfl hline hquoted
  obtain ⟨hval, s, z, hsz, hs, hz⟩ :=
    Scan.exists_comment_of_run hrun hd hd' hv (hy ▸ hline.of_append_right) hcolumn
  refine ⟨quoteOf single :: src, val, s, z, ?_, .quoted text, hval, hs, hz⟩
  rw [← hsz, hy, List.cons_append]

/-- Where a plain scalar is all that a line holds, it is written as its text, and blanks and a
comment may follow. -/
theorem written_of_plain (hline : OneLine (x :: r)) (hgap : isGap x = false) (hhash : x ≠ '#')
    (hmark : x ≠ byteOrderMark) (hmarker : Cursor.atMarker ⟨x :: r, 0, 0, 0⟩ = false)
    (hbegins : Scan.BeginsWord x r)
    (hplain : ((⟨[], 0, []⟩ : Stack).scan ⟨x :: r, 0, 0, 0⟩ none true).plain = some t)
    (hrun : t.run fuel = some toks) (hd : Compose.document? toks = some d)
    (hd' : d.toTree? = some v) (hv : ¬IsCollection v) :
    ∃ src s z, x :: r = src ++ (s ++ z) ∧ Written src true src ∧
      scalarTree? none true src = some v ∧
      (∀ c ∈ s, isBlank c = true) ∧ (z = [] ∨ ∃ note, z = '#' :: note) ∧ (s = [] → z = []) := by
  obtain ⟨res, hread, rfl⟩ := Scan.plain_first rfl hline hgap hmarker hplain
  cases hread with
  | stop stops =>
    -- Nothing was read, so that the text should be at its end.
    have hstay : reach false ⟨x :: r, 0, 0, 0⟩ = (false, ⟨x :: r, 0, 0, 0⟩) :=
      reach_of_token rfl hgap hhash fun _ => hmark
    obtain ⟨hnil, -⟩ := Scan.scalar_of_run hrun hd hd' hv (hstay ▸ hmarker) Scan.placeAt_optional
    rw [hstay] at hnil
    simp at hnil
  | @text src s left rest filled plain hash blank stops apart =>
    have hsrc : x :: r = src ++ (s ++ left) := rest
    have hleft : ((⟨x :: r, 0, 0, 0⟩ : Cursor).skip (src.length + s.length)).rest = left := by
      rw [← Cursor.skip_skip, Cursor.skip_rest, Cursor.skip_rest_of_append rest, List.drop_left]
    have hcolumn : 0 < ((⟨x :: r, 0, 0, 0⟩ : Cursor).skip (src.length + s.length)).column := by
      have hpos := List.length_pos_iff.2 filled
      rw [Cursor.skip_column]
      omega
    have hline' : OneLine left := (hsrc ▸ hline).of_append_right.of_append_right
    obtain ⟨hval, s', z, hsz, hs', hz⟩ :=
      Scan.exists_comment_of_run hrun hd hd' hv (hleft.symm ▸ hline') hcolumn
    have hcomment : left = [] ∨ ∃ note, left = '#' :: note :=
      stops.eq_comment (hleft.symm.trans hsz) hs' hz
    have hcolon : left.head? ≠ some ':' := by
      rcases hcomment with rfl | ⟨note, rfl⟩ <;> simp
    refine ⟨src, s, left, hsrc, written_of_begins hbegins hsrc filled (plain hcolon) blank
      hcomment apart, hval, blank, hcomment, fun hs => hcomment.resolve_right ?_⟩
    rintro ⟨note, hnote⟩
    exact apart hs (by rw [hnote]; rfl)

/-- A text of one line that is read as a scalar holds one as it is written, and behind it at most
blanks and a comment. -/
theorem exists_written_of_readTree? (h : readTree? (x :: r) = some v) (hv : ¬IsCollection v)
    (hbreaks : ∀ c ∈ x :: r, c ≠ '\r' ∧ c ≠ '\u0085') (hline : OneLine (x :: r))
    (hgap : isGap x = false) (hhash : x ≠ '#') (hmark : x ≠ byteOrderMark)
    (hmarker : Cursor.atMarker ⟨x :: r, 0, 0, 0⟩ = false) (hsupported : x ∉ "[\x7b&*!|>%".toList) :
    ∃ src plain value s z, x :: r = src ++ (s ++ z) ∧ Written src plain value ∧
      scalarTree? none plain value = some v ∧ (∀ c ∈ s, isBlank c = true) ∧
      (z = [] ∨ ∃ note, z = '#' :: note) ∧ (plain = true → s = [] → z = []) := by
  obtain ⟨toks, d, htoks, hd, hd'⟩ := exists_run_of_readTree? h hbreaks
  -- The first token begins with the first character.
  have hstart : (Scan.start (x :: r)).toToken.expireAll =
      some ((⟨[], 0, []⟩ : Stack).scan ⟨x :: r, 0, 0, 0⟩ none true) := by
    have hstay : reach true ⟨x :: r, 0, 0, 0⟩ = (true, ⟨x :: r, 0, 0, 0⟩) :=
      reach_of_token rfl hgap hhash fun _ => hmark
    have hnext := Scan.toToken_scan (b := ⟨[], 0, []⟩) ⟨x :: r, 0, 0, 0⟩ none true
    rw [hstay] at hnext
    exact hnext
  rw [Scan.run, hstart] at htoks
  simp only [Stack.closeBlocks_scan, Stack.scan_cursor] at htoks
  rw [Stack.close_of_le (Nat.zero_le _)] at htoks
  split at htoks
  case h_2 => simp at htoks
  case h_1 t hread =>
    rcases Scan.readToken_first hmarker hsupported hread
      with ⟨u, hu, hor⟩ | ⟨single, rfl, hq⟩ | ⟨hbegins, hp⟩
    · exact absurd (isCollection_of_first (Scan.grows_run htoks) hu hor hd hd') hv
    · have hline' : OneLine r := fun c hc => hline c (List.mem_cons_of_mem _ hc)
      obtain ⟨src, value, s, z, hsrc, hwritten, hval, hs, hz⟩ :=
        written_of_quoted hline' hq htoks hd hd' hv
      exact ⟨src, false, value, s, z, hsrc, hwritten, hval, hs, hz, by simp⟩
    · obtain ⟨src, s, z, hsrc, hwritten, hval, hs, hz, hend⟩ :=
        written_of_plain hline hgap hhash hmark hmarker hbegins hp htoks hd hd' hv
      exact ⟨src, true, src, s, z, hsrc, hwritten, hval, hs, hz, fun _ => hend⟩

end FirstToken

end Workflow.Yaml
