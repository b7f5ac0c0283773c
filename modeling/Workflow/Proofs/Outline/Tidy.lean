import Workflow.Proofs.Outline.Phrases

namespace Workflow.Outline

open Yaml

/-- The text of a line that means the same with the rest of the document around it: a key and what
stands behind its colon, or a scalar behind a hyphen. -/
def ClearText (text : List Char) : Prop :=
  match cutKey text with
  | some (key, rest) => ClearKey key ∧ ClearRest rest
  | none => Apart text

instance : DecidablePred ClearText := fun text =>
  match hcut : cutKey text with
  | some (key, rest) =>
    decidable_of_iff (ClearKey key ∧ ClearRest rest) (by rw [ClearText, hcut])
  | none => decidable_of_iff (Apart text) (by rw [ClearText, hcut])

structure Line.Tidy (l : Line) : Prop where
  unmarked : l.indent = 0 → Cursor.atMarker ⟨l.text, 0, 0, 0⟩ = false
  text : ClearText l.text

instance : DecidablePred Line.Tidy := fun l =>
  decidable_of_iff ((l.indent = 0 → Cursor.atMarker ⟨l.text, 0, 0, 0⟩ = false) ∧ ClearText l.text)
    ⟨fun ⟨unmarked, text⟩ => ⟨unmarked, text⟩, fun h => ⟨h.unmarked, h.text⟩⟩

theorem ClearText.key_rest {text key rest : List Char} (h : ClearText text)
    (hcut : cutKey text = some (key, rest)) :
    ClearKey key ∧ ClearRest rest := by
  rwa [ClearText, hcut] at h

theorem ClearText.apart {text : List Char} (h : ClearText text) (hcut : cutKey text = none) :
    Apart text := by
  rwa [ClearText, hcut] at h

def Line.inner (l : Line) : Line :=
  if isItem l.text then l.unfold else l

/-- The text of a line as it is cut out of its line. -/
structure Line.Cut (l : Line) : Prop where
  unbroken : Unbroken l.text
  first : l.text.head? ≠ some ' '
  last : ∀ c ∈ l.text.getLast?, Text.isBlank c = false

theorem head?_dropSpaces (s : List Char) : (dropSpaces s).head? ≠ some ' ' := by
  intro hhead
  have hnot := List.head?_dropWhile_not (· == ' ') s
  rw [dropSpaces] at hhead
  rw [hhead] at hnot
  simp at hnot

theorem Line.Cut.unfold {l : Line} (h : l.Cut) : l.unfold.Cut := by
  have hsuffix : l.itemText <:+ l.text :=
    (List.dropWhile_suffix _).trans (List.drop_suffix 1 l.text)
  refine ⟨h.unbroken.of_subset hsuffix.subset, head?_dropSpaces _, fun c hc => ?_⟩
  obtain ⟨t, ht⟩ := hsuffix
  refine h.last c ?_
  have hlast : l.itemText.getLast? = some c := hc
  rw [← ht, List.getLast?_append, hlast]
  rfl

/-- Where no mark of documents is in the text of an entry, none is made by what stands behind it. -/
theorem atMarker_eq_false_of_cutKey {text key rest y : List Char} {c : Cursor}
    (hcut : cutKey text = some (key, rest)) (h : Cursor.atMarker ⟨text, 0, 0, 0⟩ = false)
    (hc : c.rest = text ++ y) : c.atMarker = false := by
  obtain ⟨rfl, -⟩ := cutKey_eq_some hcut
  rw [← Bool.not_eq_true] at h ⊢
  intro hmarker
  refine h ?_
  obtain ⟨-, x, r, hx, hrest, hgap⟩ := Cursor.atMarker_iff.1 hmarker
  rw [hc, List.append_assoc] at hrest
  -- The colon is not one of the three characters of the mark.
  have hcolon : x ≠ ':' := by rcases hx with rfl | rfl <;> decide
  obtain ⟨key, rfl⟩ : ∃ k, key = x :: x :: x :: k := by
    rcases key with _ | ⟨a, _ | ⟨b, _ | ⟨c, key⟩⟩⟩
    · exact absurd (List.cons.inj hrest).1.symm hcolon
    · exact absurd (List.cons.inj (List.cons.inj hrest).2).1.symm hcolon
    · exact absurd (List.cons.inj (List.cons.inj (List.cons.inj hrest).2).2).1.symm hcolon
    · simp only [List.cons_append, List.cons.injEq] at hrest
      obtain ⟨rfl, rfl, rfl, -⟩ := hrest
      exact ⟨key, rfl⟩
  simp only [List.cons_append, List.cons.injEq, true_and] at hrest
  refine Cursor.atMarker_iff.2 ⟨rfl, x, key ++ ':' :: rest, hx, rfl, ?_⟩
  rw [← hrest] at hgap
  cases key with
  | nil => exact hgap
  | cons d key => exact hgap

theorem isGap_eq_false {c : Char} (h : Text.isBlank c = false) : isGap c = false := by
  rw [← Bool.not_eq_true]
  intro hgap
  simp only [isGap, Yaml.isBlank, isBreak, Bool.or_eq_true, beq_iff_eq] at hgap
  rcases hgap with (rfl | rfl) | (rfl | rfl) | rfl <;> exact absurd h (by decide)

/-- No text that is trimmed begins with a space. -/
theorem head?_trim_ne_space (s : List Char) : (Text.trim s).head? ≠ some ' ' :=
  fun hhead => absurd ((Text.tight_trim s).first ' ' hhead) (by decide)

/-- A clear key is an atom with blanks behind it. -/
theorem ClearKey.exists_atom {key : List Char} {k : Tree} (clear : ClearKey key)
    (unbroken : Unbroken key) (filled : Text.trim key ≠ []) (h : scalar (Text.trim key) = .ok k) :
    ∃ src s plain ks, key = src ++ s ∧ Atom src plain k ks ∧ ∀ x ∈ s, isBlank x = true := by
  obtain ⟨t, hkey, ht⟩ := Text.exists_trim_append key
  rw [Text.takeWhile_eq_nil clear.front, List.nil_append] at hkey
  have hblank : ∀ x ∈ t, isBlank x = true := isBlank_of_tail fun x hx => clear.back x (ht x hx)
  obtain ⟨ks, phrase⟩ := exists_phrase_of_scalar h filled
    (unbroken.of_subset (Text.trim_subset key)) (head?_trim_ne_space key) clear.apart
  have hplain := clear.uncommented
  generalize Text.trim key = text at phrase hplain hkey
  -- A comment would begin in the key.
  cases phrase with
  | comment => exact absurd hplain (not_uncommented_hash _)
  | noted written _ blank apart _ => exact absurd hplain (not_uncommented_noted written blank apart)
  | @atom src s plain _ _ atom blank =>
    refine ⟨src, s ++ t, plain, ks, by rw [hkey, List.append_assoc], atom, fun x hx => ?_⟩
    rcases List.mem_append.1 hx with hx | hx
    · exact blank x hx
    · exact hblank x hx

namespace Line

variable {l : Line}

theorem Cut.last_rest {key rest : List Char} (h : l.Cut) (hcut : cutKey l.text = some (key, rest)) :
    ∀ c ∈ rest.getLast?, Text.isBlank c = false := by
  intro c hc
  obtain ⟨htext, -⟩ := cutKey_eq_some hcut
  refine h.last c ?_
  rw [htext, List.getLast?_append, List.getLast?_cons, Option.mem_def.1 hc]
  rfl

/-- A tidy line means to the scanner what it means to the reader of outlines. -/
theorem Tidy.clearEntry (tidy : l.Tidy) (cut : l.Cut) : l.ClearEntry where
  marker := by
    intro e he hindent c y hc
    obtain ⟨key, rest, hcut, -, -, -⟩ := readEntry_eq_ok he
    exact atMarker_eq_false_of_cutKey hcut (tidy.unmarked hindent) hc
  key := by
    intro e he
    obtain ⟨key, rest, hcut, hfilled, hkey, hrest⟩ := readEntry_eq_ok he
    obtain ⟨htext, hspace⟩ := cutKey_eq_some hcut
    obtain ⟨clear, clear_rest⟩ := tidy.text.key_rest hcut
    have hkeys : key ⊆ l.text := by
      rw [htext]
      exact List.subset_append_left _ _
    obtain ⟨src, s, plain, ks, hsrc, atom, blank⟩ :=
      clear.exists_atom (cut.unbroken.of_subset hkeys) hfilled hkey
    have htrim := Text.takeWhile_append_trim (cut.last_rest hcut)
    have hgap : ∀ x ∈ rest.takeWhile Text.isBlank, isBlank x = true :=
      isBlank_of_tail clear_rest.front
    have hbehind : rest.takeWhile Text.isBlank = [] → Text.trim rest = [] := by
      intro hnone
      rcases hspace with rfl | hhead
      · rfl
      · rw [hnone, List.nil_append] at htrim
        rw [← htrim] at hhead
        exact absurd hhead (head?_trim_ne_space rest)
    -- The parts of the line, put together again: the key, the colon, the gap and the value.
    have entry := EntryText.mk atom blank (hsrc ▸ clear.within) hgap hbehind
    rw [htrim, ← List.append_assoc, ← hsrc, ← htext, ← hrest] at entry
    exact entry
  value := by
    intro e v he hfilled hv
    obtain ⟨key, rest, hcut, -, -, hrest⟩ := readEntry_eq_ok he
    obtain ⟨htext, -⟩ := cutKey_eq_some hcut
    obtain ⟨-, -, apart⟩ := tidy.text.key_rest hcut
    rw [hrest] at hfilled hv ⊢
    refine exists_phrase_of_scalar hv hfilled (cut.unbroken.of_subset fun c hc => ?_)
      (head?_trim_ne_space rest) apart
    rw [htext]
    exact List.mem_append_right _ (List.mem_cons_of_mem _ (Text.trim_subset rest hc))

/-- A tidy line with a key begins with a token, so that the scanner stops at its column. -/
theorem Tidy.startsToken (tidy : l.Tidy) (colon : (cutKey l.text).isSome = true) :
    StartsToken l.text := by
  obtain ⟨⟨key, rest⟩, hcut⟩ := Option.isSome_iff_exists.1 colon
  obtain ⟨htext, -⟩ := cutKey_eq_some hcut
  obtain ⟨clear, -⟩ := tidy.text.key_rest hcut
  -- Before an empty key nothing stands, so that the colon is the first character.
  cases key with
  | nil => exact ⟨':', rest, htext, by decide, by decide, by decide⟩
  | cons x key =>
    have hblank : Text.isBlank x = false := clear.front x rfl
    obtain ⟨s, htrim⟩ := Text.exists_trim_cons (r := key) hblank
    refine ⟨x, key ++ ':' :: rest, htext, isGap_eq_false hblank, ?_, ?_⟩
    · rintro rfl
      have hplain := clear.uncommented
      rw [htrim] at hplain
      exact not_uncommented_hash s hplain
    · rintro rfl
      have hfirst := clear.apart.1
      rw [htrim] at hfirst
      exact hfirst rfl

/-- The lines of a tidy text are clear. -/
theorem Cut.clear (cut : l.Cut) (tidy : l.inner.Tidy) : l.Clear where
  entry := by
    intro hitem
    rw [Line.inner, hitem] at tidy
    exact tidy.clearEntry cut
  bare := by
    intro hitem hbare
    obtain ⟨r, hr, -⟩ := exists_of_isItem hitem
    obtain ⟨n, hn, -⟩ := Line.text_eq_of_isItem hitem
    rw [hbare, List.append_nil, hr, List.drop_succ_cons, List.drop_zero] at hn
    -- The line is trimmed, so no space stands behind a bare hyphen.
    cases n with
    | zero => rw [hr, hn]; rfl
    | succ n =>
      have hlast : l.text.getLast? = some ' ' := by
        rw [hr, hn, spaces, List.replicate_succ', ← List.cons_append, List.getLast?_concat]
      exact absurd (cut.last ' ' hlast) (by decide)
  starts := by
    intro hitem hcolon
    rw [Line.inner, if_pos hitem] at tidy
    exact tidy.startsToken hcolon
  unfolds := by
    intro hitem _
    rw [Line.inner, if_pos hitem] at tidy
    exact tidy.clearEntry cut.unfold
  scalar := by
    intro hitem hfilled hcut v hv
    rw [Line.inner, if_pos hitem] at tidy
    exact exists_phrase_of_scalar hv hfilled cut.unfold.unbroken cut.unfold.first
      (tidy.text.apart hcut)

end Line

end Workflow.Outline
