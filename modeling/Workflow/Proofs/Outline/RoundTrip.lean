import Workflow.Document
import Workflow.Proofs.Outline.Reading
import Workflow.Proofs.Outline.Rendering

namespace Workflow.Outline

def EntriesInSubset (es : List (List Char × Doc)) : Prop :=
  ∀ e ∈ es, IsKeyText e.1 ∧ e.2.InSubset

/-- Items can stand without quotes, and none looks like an entry. -/
def ItemsInSubset (items : List Doc) : Prop :=
  (∀ d ∈ items, d.InSubset) ∧ ∀ text, Doc.scalar text ∈ items → ':' ∉ text

theorem Doc.entryTrees_cons (key : List Char) (d : Doc) (es : List (List Char × Doc)) :
    Doc.entryTrees ((key, d) :: es) = (scalarValue key, d.tree) :: Doc.entryTrees es := by
  rw [Doc.entryTrees]

theorem Doc.entryTrees_ne_nil {es : List (List Char × Doc)} (h : es ≠ []) :
    Doc.entryTrees es ≠ [] := by
  cases es with
  | nil => exact absurd rfl h
  | cons e es => simp [Doc.entryTrees]

theorem Doc.trees_ne_nil {items : List Doc} (h : items ≠ []) : Doc.trees items ≠ [] := by
  cases items with
  | nil => exact absurd rfl h
  | cons d items => simp [Doc.trees]

namespace IsScalarText

variable {text : List Char} (h : IsScalarText text)
include h

theorem isBody : IsBody text :=
  ⟨h.filled, Text.tight_iff.2 h.trimmed, fun c hc => (h.bare c hc).2⟩

theorem scalar_eq : scalar text = .ok (scalarValue text) := by
  obtain ⟨v, hv⟩ := h.resolved
  rw [scalarValue, hv]

end IsScalarText

/-- A text without quotes at its start is cut at its first colon. -/
theorem cutAtColon_append {key : List Char} (h : ':' ∉ key) {rest : List Char}
    (hrest : rest = [] ∨ rest.head? = some ' ') :
    cutAtColon (key ++ ':' :: rest) = some (key, rest) := by
  induction key with
  | nil => rcases hrest with rfl | hr <;> simp_all [cutAtColon]
  | cons c r ih =>
    simp only [List.mem_cons, not_or] at h
    have hc : (c == ':') = false := by simpa using Ne.symm h.1
    simp only [List.cons_append, cutAtColon, hc, Bool.false_and, Bool.false_eq_true, if_false,
      ih h.2]

theorem cutAtColon_eq_none {text : List Char} (h : ':' ∉ text) : cutAtColon text = none := by
  induction text with
  | nil => rfl
  | cons c r ih =>
    simp only [List.mem_cons, not_or] at h
    have hc : (c == ':') = false := by simpa using Ne.symm h.1
    simp only [cutAtColon, hc, Bool.false_and, Bool.false_eq_true, if_false, ih h.2]

theorem IsScalarText.cutKey_eq {text : List Char} (h : IsScalarText text) (rest : List Char) :
    cutKey (text ++ rest) = cutAtColon (text ++ rest) := by
  cases text with
  | nil => exact absurd rfl h.filled
  | cons c r => simp [cutKey, (h.bare c (by simp)).2.1]

/-- What stands behind a colon or a hyphen: nothing, or a text after spaces. -/
def IsBehind (text : List Char) : Prop :=
  text = [] ∨ ∃ n s, text = spaces (n + 1) ++ s ∧ IsBody s

theorem bare_nil : Bare [] := by simp [Bare]

theorem bare_singleton {c : Char} (h : isQuote c = false ∧ c ≠ '#') : Bare [c] := by
  simpa [Bare] using h

namespace IsBehind

variable {text : List Char} (h : IsBehind text)
include h

theorem eq_nil_or_head : text = [] ∨ text.head? = some ' ' := by
  rcases h with rfl | ⟨n, s, rfl, -⟩
  · exact Or.inl rfl
  · exact Or.inr (by simp [spaces, List.replicate_succ])

theorem bare : Bare text := by
  rcases h with rfl | ⟨n, s, rfl, hs⟩
  · simp [Bare]
  · exact (bare_spaces _).append hs.bare

/-- Behind a character that is not blank it makes the body of a line. -/
theorem isBody_append {start : List Char} {c : Char} (hstart : Bare start)
    (hfirst : ∀ x ∈ (start ++ [c]).head?, Text.isBlank x = false) (hc : Text.isBlank c = false)
    (hquote : isQuote c = false ∧ c ≠ '#') : IsBody (start ++ c :: text) := by
  have hfront : start ++ c :: text = (start ++ [c]) ++ text := by simp
  refine ⟨by simp, ⟨?_, ?_⟩, ?_⟩
  · intro x hx
    rw [hfront, List.head?_append_of_ne_nil _ (by simp)] at hx
    exact hfirst x hx
  · intro x hx
    rcases h with rfl | ⟨n, s, rfl, hs⟩
    · simp only [List.getLast?_append, List.getLast?_singleton, Option.some_or, Option.mem_some_iff]
        at hx
      exact hx ▸ hc
    · rw [hfront, ← List.append_assoc, List.getLast?_append_of_ne_nil _ hs.filled] at hx
      exact hs.tight.last x hx
  · rw [hfront]
    exact (hstart.append (bare_singleton hquote)).append h.bare

end IsBehind

theorem IsKeyText.isRowText {key text : List Char} (hkey : IsKeyText key) (h : IsBehind text) :
    IsRowText (key ++ ':' :: text) := by
  have hbody := hkey.toIsScalarText.isBody
  refine ⟨h.isBody_append hbody.bare ?_ (by decide) (by decide), ?_⟩
  · intro x hx
    rw [List.head?_append_of_ne_nil _ hbody.filled] at hx
    exact hbody.tight.first x hx
  · cases key with
    | nil => exact absurd rfl hbody.filled
    | cons c r =>
      have hc : c ≠ '-' := by simpa using hkey.hyphenless
      simp [isVoid, marker, hc]

theorem IsBehind.isRowText_item {text : List Char} (h : IsBehind text) :
    IsRowText ('-' :: text) := by
  refine ⟨h.isBody_append bare_nil (by simp; decide) (by decide) (by decide), ?_⟩
  rcases h with rfl | ⟨n, s, rfl, -⟩
  · decide
  · simp [isVoid, marker, spaces, List.replicate_succ]

theorem IsScalarText.isBehind {text : List Char} (h : IsScalarText text) (n : Nat) :
    IsBehind (spaces (n + 1) ++ text) :=
  Or.inr ⟨n, text, rfl, h.isBody⟩

theorem Doc.InSubset.scalarText {text : List Char} (h : (Doc.scalar text).InSubset) :
    IsScalarText text := by
  cases h with
  | scalar text_ok => exact text_ok

theorem Doc.InSubset.items {items : List Doc} (h : (Doc.sequence items).InSubset) :
    ItemsInSubset items := by
  cases h with
  | sequence _ each colonless => exact ⟨each, colonless⟩

theorem Doc.InSubset.items_ne_nil {items : List Doc} (h : (Doc.sequence items).InSubset) :
    items ≠ [] := by
  cases h with
  | sequence filled _ _ => exact filled

theorem Doc.InSubset.entries_ne_nil {es : List (List Char × Doc)} (h : (Doc.mapping es).InSubset) :
    es ≠ [] := by
  cases h with
  | mapping filled _ _ _ => exact filled

theorem Doc.InSubset.distinct {es : List (List Char × Doc)} (h : (Doc.mapping es).InSubset) :
    DistinctKeys (Doc.entryTrees es) := by
  cases h with
  | mapping _ _ _ distinct => exact distinct

theorem Doc.InSubset.entries {es : List (List Char × Doc)} (h : (Doc.mapping es).InSubset) :
    EntriesInSubset es := by
  cases h with
  | mapping _ keys values _ => exact fun e he => ⟨keys e he, values e he⟩

mutual

/-- Every row of a layout is a text that is read whole. -/
theorem EntriesLayout.isRowText {c : Nat} {es : List (List Char × Doc)} {rows : List Row}
    (h : EntriesLayout c es rows) (hes : EntriesInSubset es) : ∀ r ∈ rows, IsRowText r.text := by
  match h with
  | .nil => simp
  | .cons value others =>
    obtain ⟨⟨hkey, hd⟩, hrest⟩ := List.forall_mem_cons.1 hes
    obtain ⟨hbehind, hbelow⟩ := value.isBehind hd
    have hothers := others.isRowText hrest
    intro r hr
    rcases List.mem_cons.1 hr with rfl | hr
    · exact hkey.isRowText hbehind
    · exact (List.mem_append.1 hr).elim (hbelow r) (hothers r)

theorem ValueLayout.isBehind {c : Nat} {d : Doc} {text : List Char} {rows : List Row}
    (h : ValueLayout c d text rows) (hd : d.InSubset) :
    IsBehind text ∧ ∀ r ∈ rows, IsRowText r.text := by
  match h with
  | .scalar => exact ⟨hd.scalarText.isBehind _, by simp⟩
  | .empty => exact ⟨Or.inl rfl, by simp⟩
  | .deeper _ block => exact ⟨Or.inl rfl, block.isRowText hd⟩
  | .level block => exact ⟨Or.inl rfl, block.isRowText hd.items⟩

theorem BlockLayout.isRowText {c : Nat} {d : Doc} {rows : List Row} (h : BlockLayout c d rows)
    (hd : d.InSubset) : ∀ r ∈ rows, IsRowText r.text := by
  match h with
  | .mapping entries => exact entries.isRowText hd.entries
  | .sequence layout => exact layout.isRowText hd.items

theorem ItemsLayout.isRowText {c : Nat} {items : List Doc} {rows : List Row}
    (h : ItemsLayout c items rows) (hitems : ItemsInSubset items) :
    ∀ r ∈ rows, IsRowText r.text := by
  match h with
  | .nil => simp
  | .cons item others =>
    obtain ⟨hbehind, hbelow⟩ := item.isBehind (hitems.1 _ (by simp))
    have hothers := others.isRowText
      ⟨fun d hd => hitems.1 d (by simp [hd]), fun text ht => hitems.2 text (by simp [ht])⟩
    intro r hr
    rcases List.mem_cons.1 hr with rfl | hr
    · exact hbehind.isRowText_item
    · exact (List.mem_append.1 hr).elim (hbelow r) (hothers r)

theorem ItemLayout.isBehind {c : Nat} {d : Doc} {text : List Char} {rows : List Row}
    (h : ItemLayout c d text rows) (hd : d.InSubset) :
    IsBehind text ∧ ∀ r ∈ rows, IsRowText r.text := by
  match h with
  | .scalar => exact ⟨hd.scalarText.isBehind _, by simp⟩
  | .empty => exact ⟨Or.inl rfl, by simp⟩
  | .deeper _ block => exact ⟨Or.inl rfl, block.isRowText hd⟩
  | .mapping entries =>
    obtain ⟨hfirst, hbelow⟩ := List.forall_mem_cons.1 (entries.isRowText hd.entries)
    exact ⟨Or.inr ⟨_, _, rfl, hfirst.toIsBody⟩, hbelow⟩

end

theorem IsBody.trim_spaces_append {s : List Char} (h : IsBody s) (n : Nat) :
    Text.trim (spaces n ++ s) = s := by
  have hstrip := h.trim_stripComment_eq (n := n) (.blank (List.forall_mem_nil _))
  obtain ⟨p, hp⟩ := cutComment_append ((bare_spaces n).append h.bare) [] none
  rw [stripComment, List.append_assoc, ← List.append_assoc, hp] at hstrip
  simpa [cutComment] using hstrip

/-- A key with what stands behind its colon is read as an entry. -/
theorem IsKeyText.readEntry_eq {key text : List Char} (hkey : IsKeyText key) (h : IsBehind text) :
    readEntry (key ++ ':' :: text) = .ok ⟨scalarValue key, Text.trim text⟩ := by
  have hcut : cutKey (key ++ ':' :: text) = some (key, text) := by
    rw [hkey.cutKey_eq, cutAtColon_append hkey.colonless h.eq_nil_or_head]
  have hfilled : key.isEmpty = false := List.isEmpty_eq_false_iff.2 hkey.filled
  simp only [readEntry, hcut, hkey.trimmed, hfilled, Bool.false_eq_true, if_false, hkey.scalar_eq]

theorem IsKeyText.isItem_eq {key : List Char} (hkey : IsKeyText key) (text : List Char) :
    isItem (key ++ text) = false := by
  cases key with
  | nil => exact absurd rfl hkey.filled
  | cons c r =>
    have hc : c ≠ '-' := by simpa using hkey.hyphenless
    simp [isItem, hc]

theorem IsBehind.isItem_eq {text : List Char} (h : IsBehind text) :
    isItem ('-' :: text) = true := by
  rcases h with rfl | ⟨n, s, rfl, -⟩
  · rfl
  · simp [isItem, spaces, List.replicate_succ]

/-- The line is the first of a block's. -/
theorem cutKey_isSome_of_readEntry {text : List Char} {e : Entry} (h : readEntry text = .ok e) :
    (cutKey text).isSome = true := by
  cases hcut : cutKey text with
  | none => simp [readEntry, hcut] at h
  | some cut => rfl

section Behind

variable {l : Line} {c n : Nat} {text : List Char}

theorem Line.itemText_of_spaces (htext : l.text = '-' :: (spaces n ++ text))
    (hhead : text.head? ≠ some ' ') :
    l.itemText = text := by
  rw [Line.itemText, htext, List.drop_one, List.tail_cons, dropSpaces_spaces_append hhead]

/-- What stands behind the hyphen of a row is a row of its own, at the column of its text. -/
theorem Line.unfold_row (hl : l.row = ⟨c, '-' :: (spaces (n + 1) ++ text)⟩)
    (hhead : text.head? ≠ some ' ') :
    l.unfold.row = ⟨c + n + 2, text⟩ := by
  obtain ⟨hcolumn, htext⟩ := Row.mk.inj hl
  have hitem : l.itemText = text := Line.itemText_of_spaces htext hhead
  have hlen : l.text.length - l.itemText.length = n + 2 := by
    rw [hitem, htext]
    simp [spaces]
    omega
  have hc : l.indent = c := hcolumn
  simp only [Line.row, Line.unfold, hlen, hc]
  rw [hitem, Nat.add_assoc]

end Behind

/-- Entries begin with a line that holds a key. -/
theorem EntryLines.cutKey_isSome {c : Nat} {es : List (Tree × Tree)} {l : Line} {ls : List Line}
    (h : EntryLines c es (l :: ls)) : (cutKey l.text).isSome = true := by
  cases h with
  | cons _ _ entry _ _ => exact cutKey_isSome_of_readEntry entry

mutual

/-- A layout is built as entries, items and blocks are, whatever the numbers of its lines. -/
theorem EntriesLayout.entryLines {c : Nat} {es : List (List Char × Doc)} {rows : List Row}
    (h : EntriesLayout c es rows) (hes : EntriesInSubset es) {ls : List Line}
    (hls : ls.map Line.row = rows) : EntryLines c (Doc.entryTrees es) ls := by
  match h with
  | .nil =>
    rw [List.map_eq_nil_iff.1 hls]
    exact .nil
  | @EntriesLayout.cons _ key text d _ _ _ value others =>
    obtain ⟨⟨hkey, hd⟩, hrest⟩ := List.forall_mem_cons.1 hes
    -- The row of the key comes first, then the rows of its value and of the other entries.
    obtain ⟨l, ls, rfl, hl, hls⟩ := List.map_eq_cons_iff.1 hls
    obtain ⟨below, rest, rfl, hbelow, hafter⟩ := List.map_eq_append_iff.1 hls
    obtain ⟨hcolumn, htext⟩ := Row.mk.inj hl
    have hbehind := (value.isBehind hd).1
    have hvalue := value.valueLines hd hbelow
    have hothers := others.entryLines hrest hafter
    rw [Doc.entryTrees_cons]
    refine .cons (e := ⟨scalarValue key, Text.trim text⟩) hcolumn ?_ ?_ hvalue hothers
    · rw [htext]
      exact hkey.isItem_eq _
    · rw [htext]
      exact hkey.readEntry_eq hbehind

theorem ValueLayout.valueLines {c : Nat} {d : Doc} {text : List Char} {rows : List Row}
    (h : ValueLayout c d text rows) (hd : d.InSubset) {ls : List Line}
    (hls : ls.map Line.row = rows) : ValueLines c (Text.trim text) d.tree ls := by
  match h with
  | .scalar =>
    have htext := hd.scalarText
    rw [List.map_eq_nil_iff.1 hls, htext.isBody.trim_spaces_append, Doc.tree]
    exact .scalar htext.filled htext.scalar_eq
  | .empty =>
    rw [List.map_eq_nil_iff.1 hls, Doc.tree]
    exact .null
  | .deeper column block => exact .deeper column (block.blockLines hd hls)
  | .level block =>
    have hitems := block.itemLines hd.items hls
    rw [Doc.tree]
    exact .level hitems (Doc.trees_ne_nil hd.items_ne_nil)

/-- Lines that hold the rows of a document are built as the block of its value. -/
theorem BlockLayout.blockLines {c : Nat} {d : Doc} {rows : List Row} (h : BlockLayout c d rows)
    (hd : d.InSubset) {ls : List Line} (hls : ls.map Line.row = rows) : BlockLines c d.tree ls := by
  match h with
  | .mapping entries =>
    have hentries := entries.entryLines hd.entries hls
    rw [Doc.tree]
    exact .mapping hentries (Doc.entryTrees_ne_nil hd.entries_ne_nil) hd.distinct
  | .sequence layout =>
    have hitems := layout.itemLines hd.items hls
    rw [Doc.tree]
    exact .sequence hitems (Doc.trees_ne_nil hd.items_ne_nil)

theorem ItemsLayout.itemLines {c : Nat} {items : List Doc} {rows : List Row}
    (h : ItemsLayout c items rows) (hitems : ItemsInSubset items) {ls : List Line}
    (hls : ls.map Line.row = rows) : ItemLines c (Doc.trees items) ls := by
  match h with
  | .nil =>
    rw [List.map_eq_nil_iff.1 hls]
    exact .nil
  | .cons item others =>
    obtain ⟨l, ls, rfl, hl, hls⟩ := List.map_eq_cons_iff.1 hls
    obtain ⟨below, rest, rfl, hbelow, hafter⟩ := List.map_eq_append_iff.1 hls
    obtain ⟨hcolumn, htext⟩ := Row.mk.inj hl
    have hd := hitems.1 _ List.mem_cons_self
    have hitem :=
      item.itemLine hd (fun text ht => hitems.2 text (ht ▸ List.mem_cons_self)) hl hbelow
    have hothers := others.itemLines
      ⟨fun d hd => hitems.1 d (by simp [hd]), fun text ht => hitems.2 text (by simp [ht])⟩ hafter
    rw [Doc.trees]
    refine .cons hcolumn ?_ hitem hothers
    rw [htext]
    exact (item.isBehind hd).1.isItem_eq

theorem ItemLayout.itemLine {c : Nat} {d : Doc} {text : List Char} {rows : List Row}
    (h : ItemLayout c d text rows) (hd : d.InSubset)
    (colonless : ∀ text, d = .scalar text → ':' ∉ text) {l : Line}
    (hl : l.row = ⟨c, '-' :: text⟩) {ls : List Line} (hls : ls.map Line.row = rows) :
    ItemLine l d.tree ls := by
  obtain ⟨hcolumn, htext⟩ := Row.mk.inj hl
  match h with
  | @ItemLayout.scalar _ _ text =>
    have hscalar := hd.scalarText
    have hitem : l.itemText = text := Line.itemText_of_spaces htext hscalar.isBody.head_ne_space
    have hcut : cutKey text = none := by
      have hcut := hscalar.cutKey_eq []
      rw [List.append_nil] at hcut
      rw [hcut, cutAtColon_eq_none (colonless text rfl)]
    rw [List.map_eq_nil_iff.1 hls, Doc.tree]
    exact .scalar (hitem ▸ hscalar.filled) (hitem ▸ hcut) (hitem ▸ hscalar.scalar_eq)
  | .empty =>
    rw [List.map_eq_nil_iff.1 hls, Doc.tree]
    refine .null ?_
    rw [Line.itemText, htext]
    rfl
  | .deeper column block =>
    refine .deeper ?_ (hcolumn ▸ column) (block.blockLines hd hls)
    rw [Line.itemText, htext]
    rfl
  | @ItemLayout.mapping _ n text _ _ entries =>
    -- With the hyphen taken off, the line is the first row of the entries.
    have hbody := (entries.isRowText hd.entries _ List.mem_cons_self).toIsBody
    have hrow : l.unfold.row = ⟨c + n + 2, text⟩ := Line.unfold_row hl hbody.head_ne_space
    have hlines : (l.unfold :: ls).map Line.row = ⟨c + n + 2, text⟩ :: ls.map Line.row := by
      rw [List.map_cons, hrow]
    rw [hls] at hlines
    have hentries := entries.entryLines hd.entries hlines
    have hindent : l.unfold.indent = c + n + 2 := congrArg Row.column hrow
    rw [Doc.tree]
    exact .mapping hentries.cutKey_isSome (hindent ▸ hentries) hd.distinct

end

/-- The last character of a key without a value is its colon. -/
theorem ValueLayout.getLast?_key {c : Nat} {d : Doc} {text : List Char} {rows : List Row}
    (h : ValueLayout c d text rows) (hd : ∀ s, d ≠ .scalar s) (key : List Char) :
    (key ++ ':' :: text).getLast? = some ':' := by
  cases h with
  | scalar => exact absurd rfl (hd _)
  | empty => simp
  | deeper => simp
  | level => simp

end Outline

open Outline

/-- The minimal reader reads back every document of its subset, at whatever columns it is laid out
and with whatever blank lines, comments and markers between and behind its rows. -/
theorem loadTree_minimal_of_renders {key : List Char} {d : Doc} {es : List (List Char × Doc)}
    (hdoc : (Doc.mapping ((key, d) :: es)).InSubset) (hd : ∀ text, d ≠ .scalar text) {c : Nat}
    {rows : List Row} (hlayout : BlockLayout c (.mapping ((key, d) :: es)) rows) {text : String}
    (hrenders : Renders rows (Text.lines text.toList)) :
    loadTree .minimal text = .ok (Doc.mapping ((key, d) :: es)).tree := by
  have htext : ∀ r ∈ rows, IsRowText r.text := hlayout.isRowText hdoc
  obtain ⟨ls, hls, hrows⟩ := hrenders.readLines_eq htext 1
  have hentries : EntryLines c (Doc.entryTrees ((key, d) :: es)) ls := by
    obtain ⟨entries⟩ := hlayout
    exact entries.entryLines hdoc.entries hrows
  -- The head of the document is its first row, which holds a key only.
  have hhead : hasMappingHead text.toList = true := by
    cases hlayout with
    | mapping entries =>
      cases entries with
      | cons value others =>
        rw [hasMappingHead, bodies, hrenders.find?_body (htext _ List.mem_cons_self)]
        simpa using value.getLast?_key hd key
  have hread : readBlock ls = .ok (Doc.mapping ((key, d) :: es)).tree := by
    rw [Doc.tree]
    exact readBlock_eq_ok_iff.2 ⟨c, _, rfl, hentries, hdoc.distinct⟩
  obtain ⟨l, below, rfl, -, -⟩ :=
    hentries.exists_cons (Doc.entryTrees_ne_nil (List.cons_ne_nil _ _))
  simp only [loadTree, hhead, if_true, readTree, significantLines, hls, hread]

/-- A sequence at the column of its key, an item that begins with an entry, a block that is deeper
than its key, and a lone hyphen. -/
theorem loadTree_minimal_of_renders_items :
    loadTree .minimal
      "# head\r\n\nsteps: # all\n-   id: a\n    next:\n     b:  x:y\n-\n- [] # none" =
      .ok (Doc.mapping [("steps".toList, .sequence
        [.mapping [("id".toList, .scalar "a".toList),
          ("next".toList, .mapping [("b".toList, .scalar "x:y".toList)])],
        .empty, .scalar "[]".toList])]).tree := by
  have hnext : (Doc.mapping [("b".toList, .scalar "x:y".toList)]).InSubset :=
    .mapping (by decide) (by decide +kernel) (by simpa using .scalar (by decide +kernel))
      (by decide +kernel)
  have hitem : (Doc.mapping [("id".toList, .scalar "a".toList),
      ("next".toList, .mapping [("b".toList, .scalar "x:y".toList)])]).InSubset :=
    .mapping (by decide) (by decide +kernel)
      (by simpa using ⟨.scalar (by decide +kernel), by simpa using hnext⟩) (by decide +kernel)
  have hnextRows : ValueLayout 4 (.mapping [("b".toList, .scalar "x:y".toList)]) []
      [⟨5, "b:  x:y".toList⟩] :=
    .deeper (b := 5) (by decide) (.mapping
      (@EntriesLayout.cons 5 "b".toList "  x:y".toList _ [] [] _ (.scalar (n := 1)) .nil))
  have hitemRows : ItemLayout 0 (.mapping [("id".toList, .scalar "a".toList),
      ("next".toList, .mapping [("b".toList, .scalar "x:y".toList)])]) "   id: a".toList
      [⟨4, "next:".toList⟩, ⟨5, "b:  x:y".toList⟩] :=
    @ItemLayout.mapping 0 2 "id: a".toList _ _
      (@EntriesLayout.cons 4 "id".toList " a".toList _ [] _ _ (.scalar (n := 0))
        (@EntriesLayout.cons 4 "next".toList [] _ _ [] _ hnextRows .nil))
  have hrows : ItemsLayout 0 [_, .empty, .scalar "[]".toList] [⟨0, "-   id: a".toList⟩,
      ⟨4, "next:".toList⟩, ⟨5, "b:  x:y".toList⟩, ⟨0, "-".toList⟩, ⟨0, "- []".toList⟩] :=
    @ItemsLayout.cons 0 _ "   id: a".toList [⟨4, "next:".toList⟩, ⟨5, "b:  x:y".toList⟩]
      _ _ hitemRows
      (@ItemsLayout.cons 0 _ [] [] _ _ .empty
        (@ItemsLayout.cons 0 _ " []".toList [] [] _ (.scalar (n := 0)) .nil))
  have hnone : Trailer [] := .blank (by simp)
  have hnote : ∀ note, Trailer (' ' :: '#' :: note) := fun note => .comment (s := []) (by simp)
  refine loadTree_minimal_of_renders (c := 0) ?_ (by simp)
    (.mapping (@EntriesLayout.cons 0 _ [] _ _ [] _ (.level hrows) .nil)) ?_
  · refine .mapping (by decide) (by decide +kernel) ?_ (by decide +kernel)
    simp only [List.mem_singleton, forall_eq]
    refine .sequence (by decide) ?_ (by simp)
    simpa using ⟨hitem, .empty, .scalar (by decide +kernel)⟩
  · have hlines : Text.lines
        "# head\r\n\nsteps: # all\n-   id: a\n    next:\n     b:  x:y\n-\n- [] # none".toList =
        ["# head".toList, [], "steps: # all".toList, "-   id: a".toList, "    next:".toList,
          "     b:  x:y".toList, "-".toList, "- [] # none".toList] := by
      decide +kernel
    rw [hlines]
    have hlast : Renders [⟨0, "- []".toList⟩] ["- [] # none".toList] :=
      .row (hnote " none".toList) .nil
    exact .filler .comment (.filler (.blank hnone) (.row (hnote " all".toList)
      (.row hnone (.row hnone (.row hnone (.row hnone hlast))))))

end Workflow
