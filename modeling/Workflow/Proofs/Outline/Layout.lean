import Workflow.Proofs.Outline.Structure
/-!
Documents of the subset that an outline can hold, and the ways to write one down. A document is laid
out as rows at columns of any choice, and rows become lines of a text among blank lines and
comments.
-/

namespace Workflow.Outline

inductive Doc
  | scalar (text : List Char)
  | empty
  | sequence (items : List Doc)
  | mapping (entries : List (List Char × Doc))

/-- The value of the text of a scalar; null if it is none. -/
def scalarValue (text : List Char) : Tree :=
  match scalar text with
  | .ok value => value
  | .error _ => .null

mutual

def Doc.tree : Doc → Tree
  | scalar text => scalarValue text
  | empty => .null
  | sequence items => .sequence (trees items)
  | mapping entries => .mapping (entryTrees entries)

def Doc.trees : List Doc → List Tree
  | [] => []
  | d :: rest => d.tree :: trees rest

def Doc.entryTrees : List (List Char × Doc) → List (Tree × Tree)
  | [] => []
  | (key, d) :: rest => (scalarValue key, d.tree) :: entryTrees rest

end

/-- A text that can stand for a scalar without quotes. -/
structure IsScalarText (text : List Char) : Prop where
  filled : text ≠ []
  trimmed : Text.trim text = text
  bare : ∀ c ∈ text, c ≠ '\n' ∧ isQuote c = false ∧ c ≠ '#'
  resolved : ∃ v, scalar text = .ok v

/-- A text that can stand for a key without quotes. -/
structure IsKeyText (text : List Char) : Prop extends IsScalarText text where
  colonless : ':' ∉ text
  hyphenless : text.head? ≠ some '-'

/-- Whether a text can stand for a scalar can be computed. -/
theorem isScalarText_iff {text : List Char} :
    IsScalarText text ↔ text ≠ [] ∧ Text.trim text = text ∧
      (text.all fun c => c != '\n' && !isQuote c && c != '#') = true ∧
      (scalar text).isOk = true := by
  constructor
  · intro h
    obtain ⟨v, hv⟩ := h.resolved
    exact ⟨h.filled, h.trimmed, by simpa [and_assoc] using h.bare, by rw [hv]; rfl⟩
  · rintro ⟨hfilled, htrimmed, hbare, hok⟩
    refine ⟨hfilled, htrimmed, by simpa [and_assoc] using hbare, ?_⟩
    cases hs : scalar text with
    | error problem => simp [hs, Except.isOk, Except.toBool] at hok
    | ok v => exact ⟨v, rfl⟩

instance : DecidablePred IsScalarText := fun _ => decidable_of_iff' _ isScalarText_iff

instance : DecidablePred IsKeyText := fun text =>
  decidable_of_iff (IsScalarText text ∧ ':' ∉ text ∧ text.head? ≠ some '-')
    ⟨fun ⟨h, hcolon, hhyphen⟩ => ⟨h, hcolon, hhyphen⟩,
      fun h => ⟨h.toIsScalarText, h.colonless, h.hyphenless⟩⟩

inductive Doc.InSubset : Doc → Prop
  | scalar {text : List Char} (text_ok : IsScalarText text) : InSubset (scalar text)
  | empty : InSubset empty
  | sequence {items : List Doc} (filled : items ≠ []) (each : ∀ d ∈ items, InSubset d)
      (colonless : ∀ text, Doc.scalar text ∈ items → ':' ∉ text) : InSubset (sequence items)
  | mapping {entries : List (List Char × Doc)} (filled : entries ≠ [])
      (keys : ∀ e ∈ entries, IsKeyText e.1) (values : ∀ e ∈ entries, InSubset e.2)
      (distinct : DistinctKeys (Doc.entryTrees entries)) : InSubset (mapping entries)

structure Row where
  column : Nat
  text : List Char

def spaces (n : Nat) : List Char :=
  List.replicate n ' '

mutual

/-- Entries at column `c` and the rows that hold them. -/
inductive EntriesLayout : (c : Nat) → List (List Char × Doc) → List Row → Prop
  | nil {c : Nat} : EntriesLayout c [] []
  | cons {c : Nat} {key text : List Char} {d : Doc} {below rest : List Row}
      {es : List (List Char × Doc)} (value : ValueLayout c d text below)
      (others : EntriesLayout c es rest) :
      EntriesLayout c ((key, d) :: es) (⟨c, key ++ ':' :: text⟩ :: (below ++ rest))

/-- The value of a key at column `c`: the text behind the colon and the rows below. -/
inductive ValueLayout : (c : Nat) → Doc → (text : List Char) → List Row → Prop
  | scalar {c n : Nat} {text : List Char} : ValueLayout c (.scalar text) (spaces (n + 1) ++ text) []
  | empty {c : Nat} : ValueLayout c .empty [] []
  | deeper {c b : Nat} {d : Doc} {below : List Row} (column : c < b)
      (block : BlockLayout b d below) :
      ValueLayout c d [] below
  | level {c : Nat} {items : List Doc} {below : List Row} (block : ItemsLayout c items below) :
      ValueLayout c (.sequence items) [] below

inductive BlockLayout : (c : Nat) → Doc → List Row → Prop
  | mapping {c : Nat} {es : List (List Char × Doc)} {rows : List Row}
      (entries : EntriesLayout c es rows) : BlockLayout c (.mapping es) rows
  | sequence {c : Nat} {items : List Doc} {rows : List Row} (layout : ItemsLayout c items rows) :
      BlockLayout c (.sequence items) rows

inductive ItemsLayout : (c : Nat) → List Doc → List Row → Prop
  | nil {c : Nat} : ItemsLayout c [] []
  | cons {c : Nat} {d : Doc} {text : List Char} {below rest : List Row} {items : List Doc}
      (item : ItemLayout c d text below) (others : ItemsLayout c items rest) :
      ItemsLayout c (d :: items) (⟨c, '-' :: text⟩ :: (below ++ rest))

inductive ItemLayout : (c : Nat) → Doc → (text : List Char) → List Row → Prop
  | scalar {c n : Nat} {text : List Char} : ItemLayout c (.scalar text) (spaces (n + 1) ++ text) []
  | empty {c : Nat} : ItemLayout c .empty [] []
  | deeper {c b : Nat} {d : Doc} {below : List Row} (column : c < b)
      (block : BlockLayout b d below) :
      ItemLayout c d [] below
  /-- The first key stands behind the hyphen, and the other keys stand at its column. -/
  | mapping {c n : Nat} {text : List Char} {es : List (List Char × Doc)} {below : List Row}
      (entries : EntriesLayout (c + n + 2) es (⟨c + n + 2, text⟩ :: below)) :
      ItemLayout c (.mapping es) (spaces (n + 1) ++ text) below

end

/-- What may stand behind the text of a line: white space, and a comment after a space. -/
inductive Trailer : List Char → Prop
  | blank {s : List Char} (blank : ∀ c ∈ s, Text.isBlank c = true) : Trailer s
  | comment {s note : List Char} (blank : ∀ c ∈ s, Text.isBlank c = true) :
      Trailer (s ++ ' ' :: '#' :: note)

/-- A line that holds nothing: it is blank, a comment or a marker of documents. -/
inductive Filler : List Char → Prop
  | blank {line : List Char} (blank : Trailer line) : Filler line
  | comment {note : List Char} : Filler ('#' :: note)
  | marker {n : Nat} {after : List Char} (trailer : Trailer after) :
      Filler (spaces n ++ marker ++ after)

/-- The lines hold the rows in their order, and nothing else. -/
inductive Renders : List Row → List (List Char) → Prop
  | nil : Renders [] []
  | row {r : Row} {after : List Char} {rows : List Row} {lines : List (List Char)}
      (trailer : Trailer after) (others : Renders rows lines) :
      Renders (r :: rows) ((spaces r.column ++ r.text ++ after) :: lines)
  | filler {line : List Char} {rows : List Row} {lines : List (List Char)} (filler : Filler line)
      (others : Renders rows lines) : Renders rows (line :: lines)

end Workflow.Outline
