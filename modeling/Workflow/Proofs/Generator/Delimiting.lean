import Workflow.Proofs.Generator.Reading
/-!
Literals delimit themselves. A scanner that knows the delimiter, and that a backslash hides the
character behind it, finds the end of a literal whatever follows it, and what it passed over stands
for the text. So two texts that begin with literals are equal only if the literals stand for one
text and the rests are equal.
-/

namespace Workflow.Generator

/-- What a scanner passes over behind the opening delimiter of a literal, and what follows the
closing one. A backslash and the character behind it are passed over together, so that character
closes nothing. -/
def cutBody (delimiter : Char) : List Char → Option (List Char × List Char)
  | [] => none
  | '\\' :: [] => none
  | '\\' :: c :: r => (cutBody delimiter r).map fun (body, rest) => ('\\' :: c :: body, rest)
  | c :: r =>
    if c = delimiter then some ([], r)
    else (cutBody delimiter r).map fun (body, rest) => (c :: body, rest)

def cutLiteral (delimiter : Char) (s : List Char) : Option (List Char × List Char) :=
  (dropWord [delimiter] s).bind (cutBody delimiter)

def undoEscapes : List Char → Option (List Char)
  | [] => some []
  | '\\' :: [] => none
  | '\\' :: c :: r =>
    match unescape? c, undoEscapes r with
    | some x, some text => some (x :: text)
    | _, _ => none
  | c :: r => (undoEscapes r).map (c :: ·)

theorem ne_backslash {d : Char} (hd : d = '\'' ∨ d = '"') : d ≠ '\\' := by
  rcases hd with rfl | rfl <;> decide

theorem cutBody_cons {c : Char} (hc : c ≠ '\\') (d : Char) (r : List Char) :
    cutBody d (c :: r) =
      if c = d then some ([], r) else (cutBody d r).map fun (body, rest) => (c :: body, rest) :=
  cutBody.eq_4 d c r (by simp [hc]) (by simp [hc])

theorem undoEscapes_cons {c : Char} (hc : c ≠ '\\') (r : List Char) :
    undoEscapes (c :: r) = (undoEscapes r).map (c :: ·) :=
  undoEscapes.eq_4 c r (by simp [hc]) (by simp [hc])

/-- To read a literal in one pass is to cut off its body and to undo the escapes in that. -/
theorem closeLiteral_eq (d : Char) (s : List Char) :
    closeLiteral d s =
      (cutBody d s).bind fun (body, rest) => (undoEscapes body).map fun text => (text, rest) := by
  -- The reader branches where the scanner does. Only at an unknown escape it stops while the
  -- scanner goes on, and then the escapes of the body cannot be undone either.
  fun_induction cutBody d s with
  | case1 => rfl
  | case2 => rfl
  | case3 c r ih =>
    rw [closeLiteral, ih]
    cases cutBody d r with
    | none => cases unescape? c <;> rfl
    | some p => cases hc : unescape? c <;> cases hp : undoEscapes p.1 <;> simp [undoEscapes, hc, hp]
  | case4 r hlone hpair =>
    rw [closeLiteral.eq_4 d d r hlone hpair, if_pos rfl]
    rfl
  | case5 c r hlone hpair hopen ih =>
    have hc : c ≠ '\\' := by
      intro h
      cases r with
      | nil => exact hlone h rfl
      | cons x r => exact hpair x r h rfl
    rw [closeLiteral.eq_4 d c r hlone hpair, if_neg hopen, ih]
    cases cutBody d r with
    | none => rfl
    | some p => cases hp : undoEscapes p.1 <;> simp [undoEscapes_cons hc, hp]

/-- What stands for one character is passed over as a whole. -/
theorem cutBody_escapeIn {d : Char} (c : Char) {s body rest : List Char}
    (h : cutBody d s = some (body, rest)) :
    cutBody d (escapeIn d c ++ s) = some (escapeIn d c ++ body, rest) := by
  rcases escapeIn_cases d c with ⟨x, hx⟩ | ⟨hc, hb, hne⟩
  · rw [hx, List.cons_append, List.singleton_append, cutBody, h]
    rfl
  · rw [hc, List.singleton_append, cutBody_cons hb, if_neg hne, h]
    rfl

/-- The scanner stops at the closing delimiter and at no character of the body. -/
theorem cutBody_flatMap {d : Char} (hd : d ≠ '\\') (text rest : List Char) :
    cutBody d (text.flatMap (escapeIn d) ++ d :: rest) =
      some (text.flatMap (escapeIn d), rest) := by
  induction text with
  | nil => rw [List.flatMap_nil, List.nil_append, cutBody_cons hd, if_pos rfl]
  | cons c text ih =>
    rw [List.flatMap_cons, List.append_assoc]
    exact cutBody_escapeIn c ih

theorem undoEscapes_flatMap {d : Char} (hd : d = '\'' ∨ d = '"') (text : List Char) :
    undoEscapes (text.flatMap (escapeIn d)) = some text := by
  -- In one pass the literal is read as its text, and the body that is cut off is all that was read.
  have hread := closeLiteral_flatMap hd text []
  rw [closeLiteral_eq, cutBody_flatMap (ne_backslash hd), Option.bind_some] at hread
  obtain ⟨read, hundo, heq⟩ := Option.map_eq_some_iff.1 hread
  rw [hundo, (Prod.mk.inj heq).1]

/-- Between its delimiters a literal has a body that stands for the text, and a scanner cuts just
that body off whatever follows the literal. -/
def Delimited (delimiter : Char) (literal text : String) : Prop :=
  ∃ body, literal.toList = delimiter :: (body ++ [delimiter]) ∧ undoEscapes body =
    some text.toList ∧
    ∀ rest : String, cutLiteral delimiter (literal ++ rest).toList = some (body, rest.toList)

theorem delimited_literal {d : Char} (hd : d = '\'' ∨ d = '"') (text : String) :
    Delimited d (String.ofList (literal d text.toList)) text := by
  refine ⟨text.toList.flatMap (escapeIn d), ?_, undoEscapes_flatMap hd text.toList, ?_⟩
  · rw [String.toList_ofList, literal]
  · intro rest
    have hcut := cutBody_flatMap (ne_backslash hd) text.toList rest.toList
    simpa [cutLiteral, literal, dropWord] using hcut

/-- A delimiter behind the literal of a backslash is not taken for one behind a backslash. -/
example : cutLiteral '\'' (quote "\\" ++ "'").toList = some (['\\', '\\'], ['\'']) := by decide

/-- What the scanner finds depends on the whole text alone, and it finds both the literal and the
rest. -/
theorem Delimited.append_inj {d : Char} {l m s t u v : String} (hl : Delimited d l s)
    (hm : Delimited d m t) (h : l ++ u = m ++ v) : s = t ∧ u = v := by
  obtain ⟨body, -, hundo, hcut⟩ := hl
  obtain ⟨other, -, hundo', hcut'⟩ := hm
  have hsame : some (body, u.toList) = some (other, v.toList) := by
    rw [← hcut u, ← hcut' v, h]
  obtain ⟨rfl, hrest⟩ := Prod.mk.inj (Option.some.inj hsame)
  have htext : s.toList = t.toList := Option.some.inj (hundo.symm.trans hundo')
  exact ⟨String.toList_inj.1 htext, String.toList_inj.1 hrest⟩

/-- A way to write texts as literals on one line, such that a literal shows where it ends and what
it stands for. -/
structure SelfDelimiting (delimiter : Char) (write : String → String) : Prop where
  delimited : ∀ text, Delimited delimiter (write text) text
  unbroken : ∀ text, '\n' ∉ (write text).toList ∧ '\r' ∉ (write text).toList
  append_eq_iff : ∀ s t u v : String, write s ++ u = write t ++ v ↔ s = t ∧ u = v

/-- If no literal breaks its line, being delimited is enough to be found again whatever follows. -/
theorem SelfDelimiting.of_delimited {d : Char} {write : String → String}
    (hd : ∀ text, Delimited d (write text) text) (hu : ∀ text, Unbroken (write text).toList) :
    SelfDelimiting d write where
  delimited := hd
  unbroken text :=
    ⟨fun h => absurd (hu text _ h) (by decide), fun h => absurd (hu text _ h) (by decide)⟩
  append_eq_iff s t u v := by
    constructor
    · intro h
      exact (hd s).append_inj (hd t) h
    · rintro ⟨rfl, rfl⟩
      rfl

/-- The literals of generated code, in either kind of quotes, end where a scanner first meets the
delimiter, if it passes over the character behind each backslash. They stand for the text they were
written from and hold no line break, and a text that begins with a literal determines both the
literal and what follows it. -/
theorem literals_delimit_themselves :
    SelfDelimiting '\'' quote ∧ SelfDelimiting '"' doubleQuote := by
  constructor
  · exact .of_delimited (delimited_literal (Or.inl rfl)) unbroken_quote
  · exact .of_delimited (delimited_literal (Or.inr rfl)) unbroken_doubleQuote

end Workflow.Generator
