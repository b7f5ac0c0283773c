import Workflow.Proofs.Outline.Offset
import Workflow.Proofs.Outline.Phrases

namespace Workflow.Outline

/-- How many octets a text is longer than a part of it. -/
def lessOctets (whole part : List Char) : Checked Nat :=
  if (octets part).length ≤ (octets whole).length then
    some ((octets whole).length - (octets part).length)
  else none

/-- A line up to the offset of its comment. -/
def stripAt (line : List Char) : Checked (List Char) := do
  match ← commentOffset line with
  | none => return line
  | some offset => return (← splitOctets offset line).1

def mappingHeadAt : List (List Char) → Checked Bool
  | [] => some false
  | line :: rest => do
    let body := Text.trim (← stripAt line)
    if isVoid body then mappingHeadAt rest else return body.getLast? == some ':'

def readLineAt (number : Nat) (line : List Char) : Checked (Except Fault (Option Line)) := do
  let content := Text.trimEnd (← stripAt line)
  let body := dropSpaces content
  if isVoid body then return .ok none
  else if body.head? == some '\t' then return .error ⟨number, .tabIndentation⟩
  else return .ok (some ⟨number, ← lessOctets content body, body⟩)

def readLinesAt (number : Nat) : List (List Char) → Checked (Except Fault (List Line))
  | [] => some (.ok [])
  | line :: rest => do
    match ← readLineAt number line with
    | .error fault => return .error fault
    | .ok first =>
      match ← readLinesAt (number + 1) rest with
      | .error fault => return .error fault
      | .ok others => return .ok (first.toList ++ others)

/-- The key before the offset of the colon, and what stands behind the colon. -/
def readEntryAt (text : List Char) : Checked (Except Problem Entry) := do
  match ← colonOffset text with
  | none => return .error .missingColon
  | some offset =>
    let key := Text.trim (← splitOctets offset text).1
    if key.isEmpty then return .error .emptyKey
    else
      match scalar key with
      | .error problem => return .error problem
      | .ok key => return .ok ⟨key, Text.trim (← splitOctets (offset + 1) text).2⟩

def itemTextAt (text : List Char) : Checked (List Char) := do
  return dropSpaces (← splitOctets 1 text).2

section columns

theorem length_octets_of_lt {s : List Char} (h : ∀ c ∈ s, c.toNat < 128) :
    (octets s).length = s.length := by
  induction s with
  | nil => rfl
  | cons c r ih =>
    rw [List.forall_mem_cons] at h
    rw [octets_cons, utf8EncodeChar_of_lt h.1, List.singleton_append, List.length_cons,
      List.length_cons, ih h.2]

/-- In front of ASCII characters, columns in octets are columns in characters. -/
theorem lessOctets_append {before : List Char} (h : ∀ c ∈ before, c.toNat < 128) (s : List Char) :
    lessOctets (before ++ s) s = some ((before ++ s).length - s.length) := by
  rw [lessOctets, octets_append, List.length_append, List.length_append, length_octets_of_lt h,
    if_pos (Nat.le_add_left _ _), Nat.add_sub_cancel, Nat.add_sub_cancel]

theorem spaces_lt {n : Nat} : ∀ c ∈ spaces n, c.toNat < 128 := by
  intro c hc
  obtain rfl := List.eq_of_mem_replicate hc
  decide

theorem lessOctets_dropSpaces (s : List Char) :
    lessOctets s (dropSpaces s) = some (s.length - (dropSpaces s).length) := by
  obtain ⟨n, hs⟩ := exists_spaces_append s
  have hless := lessOctets_append (spaces_lt (n := n)) (dropSpaces s)
  rwa [← hs] at hless

variable {line : Line}

/-- No slice behind a hyphen is out of range. -/
theorem itemTextAt_eq (h : isItem line.text = true) :
    itemTextAt line.text = some line.itemText := by
  obtain ⟨behind, htext, -⟩ := exists_of_isItem h
  have hcut : splitOctets 1 ('-' :: behind) = some (['-'], behind) :=
    splitOctets_length ['-'] behind
  rw [itemTextAt, Line.itemText, htext, hcut]
  rfl

theorem lessOctets_itemText (h : isItem line.text = true) :
    lessOctets line.text line.itemText = some (line.text.length - line.itemText.length) := by
  obtain ⟨behind, htext, -⟩ := exists_of_isItem h
  obtain ⟨n, hbehind, -⟩ := line.text_eq_of_isItem h
  have hwhole : line.text = '-' :: spaces n ++ line.itemText := by
    rw [List.cons_append, ← hbehind, htext]
    rfl
  have hascii : ∀ c ∈ '-' :: spaces n, c.toNat < 128 :=
    List.forall_mem_cons.2 ⟨by decide, spaces_lt⟩
  have hless := lessOctets_append hascii line.itemText
  rwa [← hwhole] at hless

end columns

section lines

/-- No slice before a comment is out of range. -/
theorem stripAt_eq (line : List Char) : stripAt line = some (stripComment line) := by
  obtain ⟨found, hscan, hkeeps⟩ := scanFrom_cutComment [] line none (by simp)
  have hoffset : commentOffset line = some found := hscan
  rw [stripAt, hoffset, stripComment]
  change Keeps [] line (cutComment none none line) found at hkeeps
  generalize cutComment none none line = kept at hkeeps
  cases hkeeps with
  | all => rfl
  | cut split =>
    subst split
    simp [splitOctets_length]

theorem mappingHeadAt_lines (text : List Char) :
    mappingHeadAt (Text.lines text) = some (hasMappingHead text) := by
  rw [hasMappingHead, bodies]
  induction Text.lines text with
  | nil => rfl
  | cons line rest ih =>
    rw [mappingHeadAt, stripAt_eq, List.map_cons, List.find?_cons]
    cases hvoid : isVoid (Text.trim (stripComment line)) <;> simp [hvoid, ih]

theorem readLineAt_eq (number : Nat) (line : List Char) :
    readLineAt number line = some (readLine number line) := by
  rw [readLineAt, stripAt_eq, readLine, content]
  dsimp only [Option.bind_eq_bind, Option.bind_some]
  rw [lessOctets_dropSpaces]
  split
  · rfl
  split <;> rfl

/-- No index is out of range while lines are read. -/
theorem readLinesAt_eq (number : Nat) (lines : List (List Char)) :
    readLinesAt number lines = some (readLines number lines) := by
  induction lines generalizing number with
  | nil => rfl
  | cons line rest ih =>
    rw [readLinesAt, readLineAt_eq, readLines, ih]
    cases readLine number line with
    | error fault => rfl
    | ok first => cases readLines (number + 1) rest <;> rfl

end lines

/-- No slice of a key, and none behind a colon, is out of range. -/
theorem readEntryAt_eq (text : List Char) : readEntryAt text = some (readEntry text) := by
  rw [readEntryAt, readEntry, colonOffset_eq]
  cases hcut : cutKey text with
  | none => rfl
  | some cut =>
    obtain ⟨key, rest⟩ := cut
    obtain ⟨rfl, -⟩ := cutKey_eq_some hcut
    -- The colon is one octet, so what follows it begins one octet behind the key.
    have hbehind : splitOctets ((octets key).length + 1) (key ++ ':' :: rest) =
        some (key ++ [':'], rest) := by
      have hlength : (octets key).length + 1 = (octets (key ++ [':'])).length :=
        (length_octets_concat key ':').symm
      rw [List.append_cons, hlength]
      exact splitOctets_length (key ++ [':']) rest
    dsimp only [Option.map_some, Option.bind_eq_bind, Option.bind_some]
    rw [splitOctets_length, hbehind]
    dsimp only [Option.bind_some]
    split
    · rfl
    · cases scalar (Text.trim key) <;> rfl

end Workflow.Outline
