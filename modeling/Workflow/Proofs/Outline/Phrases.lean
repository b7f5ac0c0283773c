import Workflow.Proofs.Outline.Tokens
import Workflow.Proofs.Yaml.LoneScalar
import Workflow.Proofs.Text.Trim
import Mathlib.Data.List.Chain
/-!
Scalars and entries of an outline as the scanner of YAML reads them. What the reader of outlines
gives to YAML is a text of its own; on the line the same text has the same value, if it is apart
from the marks of documents and no comment begins in a key.
-/

namespace Workflow.Outline

open Yaml

def Unbroken (text : List Char) : Prop :=
  ∀ c ∈ text, isBreak c = false ∧ c ≠ '\r' ∧ c ≠ '\u0085'

instance : DecidablePred Unbroken := fun text =>
  decidable_of_iff (text.all (fun c => !isBreak c && c != '\r' && c != '\u0085') = true)
    (by simp [Unbroken, and_assoc])

theorem Unbroken.oneLine {text : List Char} (h : Unbroken text) : OneLine text :=
  fun c hc => (h c hc).1

theorem Unbroken.of_subset {s text : List Char} (h : Unbroken text) (hs : s ⊆ text) : Unbroken s :=
  fun c hc => h c (hs hc)

/-- A text that begins with nothing that has a meaning at the start of a document only: the mark of
the order of octets, or a mark of documents, unless it is all of the text. -/
def Apart (text : List Char) : Prop :=
  text.head? ≠ some byteOrderMark ∧
    (text = marker ∨ text = ['.', '.', '.'] ∨ Cursor.atMarker ⟨text, 0, 0, 0⟩ = false)

instance : DecidablePred Apart := fun text =>
  inferInstanceAs (Decidable (_ ∧ (_ ∨ _ ∨ Cursor.atMarker ⟨text, 0, 0, 0⟩ = false)))

inductive ScalarRead (text : List Char) : Tree → Prop
  | sequence (text_eq : text = ['[', ']']) : ScalarRead text (.sequence [])
  | mapping (text_eq : text = ['\x7b', '\x7d']) : ScalarRead text (.mapping [])
  | mark (text_eq : text = marker ∨ text = ['.', '.', '.']) :
      ScalarRead text (.string (String.ofList text))
  | yaml {v : Tree} (supported : beginsUnsupported text = false) (read : readTree? text = some v)
      (single : ¬IsCollection v) (unmarked : text ≠ marker ∧ text ≠ ['.', '.', '.']) :
      ScalarRead text v

/-- A scalar of an outline is one of a few things to YAML. -/
theorem scalarRead_of_scalar {text : List Char} {v : Tree} (h : scalar text = .ok v) :
    ScalarRead text v := by
  rw [scalar] at h
  -- One case for each way a scalar is read. The refusals are no results.
  split at h
  · exact Except.ok.inj h ▸ .sequence ‹_›
  split at h
  · exact Except.ok.inj h ▸ .mapping ‹_›
  split at h
  · rename_i hmark
    exact Except.ok.inj h ▸ .mark (by simpa using hmark)
  split at h
  · simp at h
  rename_i hmark hsupported
  split at h
  · simp at h
  · simp at h
  · simp at h
  · simp at h
  · rename_i value hsequence hmapping _ hread
    obtain rfl := Except.ok.inj h
    refine .yaml (by simpa using hsupported) hread ?_ (by simpa using hmark)
    rintro (⟨items, rfl⟩ | ⟨entries, rfl⟩)
    · exact hsequence items rfl
    · exact hmapping entries rfl

/-- The marks of documents are words where they stand behind something. -/
theorem written_mark {x : Char} (h : x = '-' ∨ x = '.') : Written [x, x, x] true [x, x, x] := by
  rcases h with rfl | rfl
  · exact .plain (Or.inr ⟨Or.inl rfl, rfl⟩)
      (.word ⟨by simp, by simp [isGap, isBlank, isBreak], by simp⟩)
  · exact .plain (Or.inl rfl) (.word ⟨by simp, by simp [isGap, isBlank, isBreak], by simp⟩)

/-- A scalar that is read as a text of its own is a phrase, if it begins with nothing that has a
meaning there only. -/
theorem exists_phrase_of_readTree? {x : Char} {r : List Char} {v : Tree}
    (read : readTree? (x :: r) = some v) (single : ¬IsCollection v)
    (supported : beginsUnsupported (x :: r) = false) (unbroken : Unbroken (x :: r))
    (space : x ≠ ' ') (hmark : x ≠ byteOrderMark)
    (hmarker : Cursor.atMarker ⟨x :: r, 0, 0, 0⟩ = false) :
    ∃ ts, Phrase (x :: r) v ts := by
  have hbreaks : ∀ c ∈ x :: r, c ≠ '\r' ∧ c ≠ '\u0085' := fun c hc => (unbroken c hc).2
  by_cases hhash : x = '#'
  · subst hhash
    have hnote : OneLine r := fun c hc => unbroken.oneLine c (List.mem_cons_of_mem _ hc)
    rw [eq_null_of_readTree? read hbreaks hnote]
    exact ⟨[], .comment hnote⟩
  by_cases hgap : isGap x = true
  · -- Neither a space nor a break stands here, and a tab begins no token.
    have htab : x = '\t' := by
      simpa [isGap, isBlank, space, unbroken.oneLine x List.mem_cons_self] using hgap
    subst htab
    rw [readTree?_tab hbreaks] at read
    exact absurd read (Option.some_ne_none v).symm
  · obtain ⟨src, plain, value, s, z, hsrc, written, hvalue, blank, hz, hnext⟩ :=
      exists_written_of_readTree? read single hbreaks unbroken.oneLine (by simpa using hgap) hhash
      hmark hmarker (by simpa [beginsUnsupported] using supported)
    rw [hsrc]
    rcases hz with rfl | ⟨note, rfl⟩
    · rw [List.append_nil]
      exact ⟨_, .atom (.scalar written hvalue) blank⟩
    · have hnote : OneLine note := fun c hc => unbroken.oneLine c (by simp [hsrc, hc])
      exact ⟨_, .noted written hvalue blank (fun hp hs => by simpa using hnext hp hs) hnote⟩

/-- A scalar of the reader of outlines is a phrase for the scanner. -/
theorem exists_phrase_of_scalar {text : List Char} {v : Tree} (h : scalar text = .ok v)
    (filled : text ≠ []) (unbroken : Unbroken text) (space : text.head? ≠ some ' ')
    (apart : Apart text) :
    ∃ ts, Phrase text v ts := by
  have hwhole {plain : Bool} {ts : List Token} (atom : Atom text plain v ts) :
      Phrase text v ts := by
    have phrase := Phrase.atom (s := []) atom (by simp)
    rwa [List.append_nil] at phrase
  -- Empty collections and marks of documents are phrases by themselves; all else was read as a text
  -- of its own.
  cases scalarRead_of_scalar h with
  | sequence text_eq =>
    subst text_eq
    exact ⟨_, hwhole .sequence⟩
  | mapping text_eq =>
    subst text_eq
    exact ⟨_, hwhole .mapping⟩
  | mark text_eq =>
    rcases text_eq with rfl | rfl
    · exact ⟨_, hwhole (.scalar (written_mark (Or.inl rfl)) rfl)⟩
    · exact ⟨_, hwhole (.scalar (written_mark (Or.inr rfl)) rfl)⟩
  | yaml supported read single unmarked =>
    obtain ⟨hfirst, hmarker⟩ := apart
    replace hmarker := hmarker.resolve_left unmarked.1 |>.resolve_left unmarked.2
    obtain ⟨x, r, rfl⟩ := List.exists_cons_of_ne_nil filled
    exact exists_phrase_of_readTree? read single supported unbroken (by simpa using space)
      (by simpa using hfirst) hmarker

def Spaced (tabs : Bool) (s : List Char) : Prop :=
  ∀ c ∈ s, c = ' ' ∨ tabs = true ∧ c = '\t'

instance (tabs : Bool) : DecidablePred (Spaced tabs) := fun s =>
  decidable_of_iff (s.all (fun c => c == ' ' || tabs && c == '\t') = true) (by simp [Spaced])

theorem Spaced.exists_spaces {s : List Char} (h : Spaced false s) : ∃ n, s = spaces n :=
  ⟨_, eq_replicate_of_tail h⟩

/-- What trimming leaves out is spaces in front and blanks behind. -/
theorem exists_spaces_trim_append {tabs : Bool} {s : List Char}
    (front : Spaced false (s.takeWhile Text.isBlank))
    (back : Spaced tabs (s.rtakeWhile Text.isBlank)) :
    ∃ n t, s = spaces n ++ (Text.trim s ++ t) ∧ Spaced tabs t := by
  obtain ⟨n, hn⟩ := front.exists_spaces
  obtain ⟨t, hs, ht⟩ := Text.exists_trim_append s
  rw [hn] at hs
  exact ⟨n, t, hs, fun c hc => back c (ht c hc)⟩

/-- No comment begins in the text of a key, or behind its closing quote if it is a quoted one. -/
def Uncommented : List Char → Prop
  | [] => True
  | x :: r =>
    if isQuote x then '#' ∉ behindQuoted (x == '\'') false r
    else x ≠ '#' ∧ (x :: r).IsChain fun a b => b = '#' → isBlank a = false

instance : DecidablePred Uncommented
  | [] => isTrue trivial
  | x :: r => inferInstanceAs (Decidable (if isQuote x then '#' ∉ behindQuoted (x == '\'') false r
      else x ≠ '#' ∧ (x :: r).IsChain fun a b => b = '#' → isBlank a = false))

theorem not_uncommented_hash (note : List Char) : ¬Uncommented ('#' :: note) := by
  intro h
  exact h.1 rfl

/-- A scalar with a comment behind it is not without a comment. -/
theorem not_uncommented_noted {src s value note : List Char} {plain : Bool}
    (written : Written src plain value) (blank : ∀ x ∈ s, isBlank x = true)
    (apart : plain = true → s ≠ []) :
    ¬Uncommented (src ++ (s ++ '#' :: note)) := by
  -- Behind a plain scalar it is the blank in front of the hash that makes a comment of it.
  cases written with
  | @plain x r begins text =>
    have hquote : isQuote x = false := by
      rw [← Bool.not_eq_true]
      intro hquote
      have hx : x = '"' ∨ x = '\'' := by simpa [isQuote] using hquote
      rcases begins with hindicator | ⟨hother, -⟩
      · rcases hx with rfl | rfl <;> exact absurd hindicator (by decide)
      · rcases hx with rfl | rfl <;> exact absurd hother (by decide)
    obtain ⟨t, y, hty⟩ := (List.eq_nil_or_concat s).resolve_left (apart rfl)
    rw [List.concat_eq_append] at hty
    subst hty
    have hsplit : x :: r ++ (t ++ [y] ++ '#' :: note) = x :: r ++ t ++ y :: '#' :: note := by simp
    rw [List.cons_append, Uncommented, hquote]
    rintro ⟨-, hchain⟩
    have hchain : (x :: r ++ (t ++ [y] ++ '#' :: note)).IsChain fun a b => b = '#' →
        isBlank a = false :=
      hchain
    rw [hsplit, List.isChain_split, List.isChain_cons_cons] at hchain
    have hblank := blank y (by simp)
    rw [hchain.2.1 rfl] at hblank
    simp at hblank
  | @quoted single src val text =>
    have hquote : isQuote (quoteOf single) = true := by cases single <;> rfl
    have hsingle : (quoteOf single == '\'') = single := by cases single <;> rfl
    rw [List.cons_append, Uncommented, if_pos hquote, hsingle, text.behindQuoted_append]
    · simp
    · rintro - hhead
      cases s with
      | nil => exact absurd (Option.some.inj hhead) (by decide)
      | cons y s =>
        have hy := blank y List.mem_cons_self
        rw [Option.some.inj hhead] at hy
        exact absurd hy (by decide)

/-- The text of a key that needs no more than its line. -/
structure ClearKey (key : List Char) : Prop where
  front : ∀ c ∈ key.head?, Text.isBlank c = false
  back : Spaced true (key.rtakeWhile Text.isBlank)
  within : octetCount key ≤ 1024
  apart : Apart (Text.trim key)
  uncommented : Uncommented (Text.trim key)

instance : DecidablePred ClearKey := fun key =>
  -- Only the first character is asked for; deciding `front` as it stands may try all there are.
  decidable_of_iff ((key.head?.all fun c => !Text.isBlank c) = true ∧
      Spaced true (key.rtakeWhile Text.isBlank) ∧
      octetCount key ≤ 1024 ∧ Apart (Text.trim key) ∧ Uncommented (Text.trim key))
    ⟨fun ⟨front, back, within, apart, uncommented⟩ =>
        ⟨by simpa [Option.all_eq_true] using front, back, within, apart, uncommented⟩,
      fun h =>
        ⟨by simpa [Option.all_eq_true] using h.front, h.back, h.within, h.apart, h.uncommented⟩⟩

/-- What stands behind a colon needs no more than its line. -/
structure ClearRest (rest : List Char) : Prop where
  front : Spaced true (rest.takeWhile Text.isBlank)
  apart : Apart (Text.trim rest)

instance : DecidablePred ClearRest := fun rest =>
  decidable_of_iff (Spaced true (rest.takeWhile Text.isBlank) ∧ Apart (Text.trim rest))
    ⟨fun ⟨front, apart⟩ => ⟨front, apart⟩, fun h => ⟨h.front, h.apart⟩⟩

theorem cutAtColon_eq_some {text key rest : List Char} (h : cutAtColon text = some (key, rest)) :
    text = key ++ ':' :: rest ∧ (rest = [] ∨ rest.head? = some ' ') := by
  induction text generalizing key with
  | nil => simp [cutAtColon] at h
  | cons c r ih =>
    rw [cutAtColon] at h
    split at h
    · rename_i hcolon
      obtain ⟨rfl, rfl⟩ := Prod.mk.inj (Option.some.inj h)
      simp only [Bool.and_eq_true, beq_iff_eq, Bool.or_eq_true, List.isEmpty_iff] at hcolon
      exact ⟨by rw [hcolon.1]; rfl, hcolon.2⟩
    · split at h
      · rename_i key' rest' hcut
        obtain ⟨rfl, rfl⟩ := Prod.mk.inj (Option.some.inj h)
        obtain ⟨hr, hrest⟩ := ih hcut
        exact ⟨by rw [hr]; rfl, hrest⟩
      · simp at h

theorem cutAfterQuote_eq_some {quote : Char} {text key rest : List Char}
    (h : cutAfterQuote quote text = some (key, rest)) :
    text = key ++ ':' :: rest ∧ (rest = [] ∨ rest.head? = some ' ') := by
  induction text generalizing key with
  | nil => simp [cutAfterQuote] at h
  | cons c r ih =>
    rw [cutAfterQuote] at h
    split at h
    · rename_i key' rest' hcut
      obtain ⟨rfl, rfl⟩ := Prod.mk.inj (Option.some.inj h)
      have hr : r = key' ++ ':' :: rest' ∧ (rest' = [] ∨ rest'.head? = some ' ') := by
        split at hcut
        · exact cutAtColon_eq_some hcut
        · exact ih hcut
      exact ⟨by rw [hr.1]; rfl, hr.2⟩
    · simp at h

/-- A line is cut at a colon with a space or nothing behind it. -/
theorem cutKey_eq_some {text key rest : List Char} (h : cutKey text = some (key, rest)) :
    text = key ++ ':' :: rest ∧ (rest = [] ∨ rest.head? = some ' ') := by
  cases text with
  | nil => simp [cutKey] at h
  | cons c r =>
    rw [cutKey] at h
    split at h
    · split at h
      · rename_i key' rest' hcut
        obtain ⟨rfl, rfl⟩ := Prod.mk.inj (Option.some.inj h)
        obtain ⟨hr, hrest⟩ := cutAfterQuote_eq_some hcut
        exact ⟨by rw [hr]; rfl, hrest⟩
      · simp at h
    · exact cutAtColon_eq_some h

end Workflow.Outline
