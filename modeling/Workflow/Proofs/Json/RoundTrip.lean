import Workflow.Json.Reader
import Mathlib.Data.List.Nodup

namespace Workflow.Json

section texts

theorem readHex4_code {n : Nat} (h : n < 32) (r : List Char) :
    readHex4 ('0' :: '0' :: hexDigit (n / 16) :: hexDigit (n % 16) :: r) = some (n, r) := by
  have hcode : ∀ n < 32, Number.readNat? 16 ['0', '0', hexDigit (n / 16), hexDigit (n % 16)] =
      some n := by
    decide
  rw [readHex4, hcode n h]
  rfl

theorem eq_ofNat {c : Char} {n : Nat} (h : c.toNat = n) : c = Char.ofNat n := by
  rw [← h, Char.ofNat_toNat]

/-- A written character is read as that character, with one unit of fuel. -/
theorem readQuoted_escapeChar (c : Char) (fuel : Nat) (read r : List Char) :
    readQuoted (fuel + 1) read (escapeChar c ++ r) = readQuoted fuel (c :: read) r := by
  -- One case for each way in which a character is written; the last one stands for itself.
  unfold escapeChar
  split
  · rename_i h
    simp [h, readQuoted, simpleEscape?]
  split
  · rename_i h
    simp [h, readQuoted, simpleEscape?]
  split
  · rename_i h
    simp [h, readQuoted, simpleEscape?]
  split
  · rename_i h
    simp [h, readQuoted, simpleEscape?]
  split
  · rename_i h
    simp [h, readQuoted, simpleEscape?]
  split
  · rename_i h
    simp [eq_ofNat h, readQuoted, simpleEscape?]
  split
  · rename_i h
    simp [eq_ofNat h, readQuoted, simpleEscape?]
  split
  · rename_i h
    have hcode := readHex4_code h r
    have hlow : ¬0xDC00 ≤ c.toNat ∧ ¬0xD800 ≤ c.toNat := by omega
    simp [readQuoted, readUnicodeEscape, hcode, hlow.1, hlow.2, Char.ofNat_toNat]
  · rename_i hquote hslash _ _ _ _ _ hprintable
    simp [readQuoted, hquote, hslash, hprintable]

/-- Escaped characters are read up to the closing quote, and not beyond it. -/
theorem readQuoted_flatMap (cs : List Char) {fuel : Nat} (hf : cs.length < fuel)
    (read r : List Char) :
    readQuoted fuel read (cs.flatMap escapeChar ++ '"' :: r) =
      some (String.ofList (read.reverse ++ cs), r) := by
  induction cs generalizing fuel read with
  | nil =>
    obtain ⟨fuel, rfl⟩ : ∃ n, fuel = n + 1 := ⟨fuel - 1, by omega⟩
    simp [readQuoted]
  | cons c cs ih =>
    rw [List.length_cons] at hf
    obtain ⟨fuel, rfl⟩ : ∃ n, fuel = n + 1 := ⟨fuel - 1, by omega⟩
    rw [List.flatMap_cons, List.append_assoc, readQuoted_escapeChar, ih (by omega)]
    simp

theorem length_le_flatMap_escapeChar (cs : List Char) :
    cs.length ≤ (cs.flatMap escapeChar).length := by
  induction cs with
  | nil => exact Nat.le_refl _
  | cons c cs ih =>
    have hchar : 1 ≤ (escapeChar c).length := by
      unfold escapeChar
      split_ifs <;> simp
    rw [List.flatMap_cons, List.length_append, List.length_cons]
    omega

/-- The reader of texts undoes quoting, whatever follows. -/
theorem readString_quoted (s : String) (r : List Char) :
    readString (s.toList.flatMap escapeChar ++ '"' :: r) = some (s, r) := by
  have hlength := length_le_flatMap_escapeChar s.toList
  rw [readString, readQuoted_flatMap]
  · rw [List.reverse_nil, List.nil_append, String.ofList_toList]
  · rw [List.length_append]
    omega

theorem quoted_append (s : String) (r : List Char) :
    quoted s ++ r = '"' :: (s.toList.flatMap escapeChar ++ '"' :: r) := by
  simp [quoted]

end texts

/-- Values without numbers, at most `depth` containers deep and with one field of each name. -/
inductive Textual : (depth : Nat) → Json → Prop
  | null {depth : Nat} : Textual depth null
  | bool {depth : Nat} (value : Bool) : Textual depth (bool value)
  | string {depth : Nat} (value : String) : Textual depth (string value)
  | array {depth : Nat} {items : List Json} (textual : ∀ item ∈ items, Textual depth item) :
    Textual (depth + 1) (array items)
  | object {depth : Nat} {fields : List (String × Json)} (distinct : (fields.map Prod.fst).Nodup)
      (textual : ∀ field ∈ fields, Textual depth field.2) : Textual (depth + 1) (object fields)

def Begins (s : List Char) : Prop :=
  ∃ c r, s = c :: r ∧ c ∉ [' ', '\n', '\t', '\r', ']']

theorem Begins.append {s : List Char} (h : Begins s) (r : List Char) : Begins (s ++ r) := by
  obtain ⟨c, rest, rfl, hc⟩ := h
  exact ⟨c, rest ++ r, rfl, hc⟩

theorem Begins.skipSpace_eq {s : List Char} (h : Begins s) : skipSpace s = s := by
  obtain ⟨c, rest, rfl, hc⟩ := h
  simp only [List.mem_cons, List.not_mem_nil, or_false, not_or] at hc
  simp [skipSpace, hc]

theorem Begins.ne_close {s : List Char} (h : Begins s) (r : List Char) : s ≠ ']' :: r := by
  obtain ⟨c, rest, rfl, hc⟩ := h
  rintro heq
  exact hc (by simp [(List.cons.inj heq).1])

theorem Textual.begins {depth : Nat} {j : Json} (h : Textual depth j) : Begins j.write := by
  cases h with
  | null => exact ⟨'n', ['u', 'l', 'l'], by simp [write], by decide⟩
  | bool value =>
    cases value with
    | true => exact ⟨'t', ['r', 'u', 'e'], by simp [write], by decide⟩
    | false => exact ⟨'f', ['a', 'l', 's', 'e'], by simp [write], by decide⟩
  | string value => exact ⟨'"', _, by rw [write, quoted], by decide⟩
  | array textual => exact ⟨'[', _, by rw [write], by decide⟩
  | object distinct textual => exact ⟨'\x7b', _, by rw [write], by decide⟩

/-- The value is read back at this depth from its written form, with fuel for twice its length. -/
def ReadsBack (depth : Nat) (j : Json) : Prop :=
  ∀ fuel r, 2 * j.write.length ≤ fuel → readValue fuel depth (j.write ++ r) = some (j, r)

section containers

variable {depth : Nat}

theorem writeItems_cons_cons (item next : Json) (items : List Json) :
    writeItems (item :: next :: items) = item.write ++ ',' :: writeItems (next :: items) := by
  rw [writeItems]
  simp

/-- Items that are read back one by one are read back as an array. -/
theorem readItems_writeItems {item : Json} {items : List Json}
    (hitems : ∀ j ∈ item :: items, ReadsBack depth j) (fuel : Nat)
    (hf : 2 * (writeItems (item :: items)).length + 1 ≤ fuel) (read : List Json) (r : List Char) :
    readItems fuel depth read (writeItems (item :: items) ++ ']' :: r) =
      some (array (read.reverse ++ item :: items), r) := by
  induction items generalizing item fuel read with
  | nil =>
    obtain ⟨fuel, rfl⟩ : ∃ n, fuel = n + 1 := ⟨fuel - 1, by omega⟩
    rw [writeItems] at hf ⊢
    have hitem := hitems item List.mem_cons_self fuel (']' :: r) (by omega)
    simp [readItems, hitem, skipSpace]
  | cons next items ih =>
    obtain ⟨fuel, rfl⟩ : ∃ n, fuel = n + 1 := ⟨fuel - 1, by omega⟩
    rw [List.forall_mem_cons] at hitems
    rw [writeItems_cons_cons, List.length_append, List.length_cons] at hf
    have hitem := hitems.1 fuel (',' :: (writeItems (next :: items) ++ ']' :: r)) (by omega)
    have hrest := ih hitems.2 fuel (by omega) (item :: read)
    rw [writeItems_cons_cons, List.append_assoc, List.cons_append, readItems, hitem]
    simpa [skipSpace] using hrest

theorem writeFields_cons_cons (field next : String × Json) (fields : List (String × Json)) :
    writeFields (field :: next :: fields) =
      quoted field.1 ++ ':' :: (field.2.write ++ ',' :: writeFields (next :: fields)) := by
  rw [writeFields]
  simp

theorem setField_of_notMem {fields : List (String × Json)} {name : String}
    (h : name ∉ fields.map Prod.fst) (value : Json) :
    setField fields name value = fields ++ [(name, value)] := by
  rw [setField, List.filter_eq_self.2]
  intro field hfield
  have hne : field.1 ≠ name := fun heq => h (heq ▸ List.mem_map_of_mem hfield)
  simpa using hne

/-- The name and the value of the field that comes next are read. Behind a comma the reader goes on,
and behind a closing brace it is done. -/
theorem readFields_field {field : String × Json} (hfield : ReadsBack depth field.2) {fuel : Nat}
    (hf : 2 * field.2.write.length ≤ fuel) {read : List (String × Json)}
    (fresh : field.1 ∉ read.map Prod.fst) (r : List Char) :
    readFields (fuel + 1) depth read (quoted field.1 ++ ':' :: (field.2.write ++ ',' :: r)) =
        readFields fuel depth (read ++ [field]) r ∧
      readFields (fuel + 1) depth read (quoted field.1 ++ ':' :: (field.2.write ++ '\x7d' :: r)) =
        some (object (read ++ [field]), r) := by
  obtain ⟨name, value⟩ := field
  have hquote (s : List Char) : skipSpace ('"' :: s) = '"' :: s := rfl
  have hcolon (s : List Char) : skipSpace (':' :: s) = ':' :: s := rfl
  have hcomma : skipSpace (',' :: r) = ',' :: r := rfl
  have hbrace : skipSpace ('\x7d' :: r) = '\x7d' :: r := rfl
  constructor
  · rw [quoted_append, readFields, hquote]
    simp only [readString_quoted, hcolon, hfield fuel (',' :: r) hf, setField_of_notMem fresh,
      hcomma]
  · rw [quoted_append, readFields, hquote]
    simp only [readString_quoted, hcolon, hfield fuel ('\x7d' :: r) hf, setField_of_notMem fresh,
      hbrace]

/-- Fields with different names are read back in their order. -/
theorem readFields_writeFields {field : String × Json} {fields : List (String × Json)}
    (hfields : ∀ f ∈ field :: fields, ReadsBack depth f.2) (fuel : Nat)
    (hf : 2 * (writeFields (field :: fields)).length + 1 ≤ fuel) (read : List (String × Json))
    (distinct : ((read ++ field :: fields).map Prod.fst).Nodup) (r : List Char) :
    readFields fuel depth read (writeFields (field :: fields) ++ '\x7d' :: r) =
      some (object (read ++ field :: fields), r) := by
  have fresh : field.1 ∉ read.map Prod.fst := by
    rw [List.map_append, List.nodup_append] at distinct
    exact fun hmem => distinct.2.2 _ hmem field.1 (by simp) rfl
  -- Names that were read are carried along, so that each further one is new.
  induction fields generalizing field fuel read with
  | nil =>
    obtain ⟨fuel, rfl⟩ : ∃ n, fuel = n + 1 := ⟨fuel - 1, by omega⟩
    rw [writeFields, List.length_append, List.length_cons] at hf
    rw [writeFields, List.append_assoc, List.cons_append]
    exact (readFields_field (hfields field List.mem_cons_self) (by omega) fresh r).2
  | cons next fields ih =>
    obtain ⟨fuel, rfl⟩ : ∃ n, fuel = n + 1 := ⟨fuel - 1, by omega⟩
    rw [List.forall_mem_cons] at hfields
    rw [writeFields_cons_cons, List.length_append, List.length_cons, List.length_append,
      List.length_cons] at hf
    rw [List.append_cons] at distinct
    have hfresh : next.1 ∉ (read ++ [field]).map Prod.fst := by
      rw [List.map_append, List.nodup_append] at distinct
      exact fun hmem => distinct.2.2 _ hmem next.1 (by simp) rfl
    have hrest := ih hfields.2 fuel (by omega) (read ++ [field]) distinct hfresh
    have hvalue : 2 * field.2.write.length ≤ fuel := by omega
    have hfirst :=
      (readFields_field hfields.1 hvalue fresh (writeFields (next :: fields) ++ '\x7d' :: r)).1
    rw [writeFields_cons_cons, List.append_assoc, List.cons_append, List.append_assoc,
      List.cons_append, hfirst, hrest]
    simp

theorem begins_writeItems {item : Json} (h : Textual depth item) (items : List Json) :
    Begins (writeItems (item :: items)) := by
  cases items with
  | nil =>
    rw [writeItems]
    exact h.begins
  | cons next items =>
    rw [writeItems_cons_cons]
    exact h.begins.append _

theorem readValue_array {s : List Char} (h : Begins s) (fuel : Nat) :
    readValue (fuel + 1) (depth + 1) ('[' :: s) = readItems fuel depth [] s := by
  have hopen : skipSpace ('[' :: s) = '[' :: s := rfl
  rw [readValue, hopen]
  simp only [Nat.add_one_ne_zero, if_false, h.skipSpace_eq, Nat.add_sub_cancel]
  split
  · exact absurd rfl (h.ne_close _)
  · rfl

theorem readValue_object (fuel : Nat) (s : List Char) :
    readValue (fuel + 1) (depth + 1) ('\x7b' :: '"' :: s) = readFields fuel depth []
    ('"' :: s) := by
  have hopen : skipSpace ('\x7b' :: '"' :: s) = '\x7b' :: '"' :: s := rfl
  have hquote : skipSpace ('"' :: s) = '"' :: s := rfl
  rw [readValue, hopen]
  simp only [Nat.add_one_ne_zero, if_false, hquote, Nat.add_sub_cancel]
  rfl

theorem exists_writeFields_eq (field : String × Json) (fields : List (String × Json)) :
    ∃ s, writeFields (field :: fields) = '"' :: s := by
  cases fields with
  | nil => exact ⟨_, by rw [writeFields, quoted_append]⟩
  | cons next fields => exact ⟨_, by rw [writeFields_cons_cons, quoted_append]⟩

end containers

/-- Such a value is read back from its written form, whatever follows. -/
theorem Textual.readsBack {depth : Nat} {j : Json} (h : Textual depth j) : ReadsBack depth j := by
  -- Every value takes one unit of fuel, and a container hands the rest on to what it holds.
  induction h with
  | null =>
    intro fuel r hf
    obtain ⟨fuel, rfl⟩ : ∃ n, fuel = n + 1 := ⟨fuel - 1, by simp [write] at hf; omega⟩
    simp [write, readValue, skipSpace]
  | bool value =>
    intro fuel r hf
    obtain ⟨fuel, rfl⟩ : ∃ n, fuel = n + 1 :=
      ⟨fuel - 1, by cases value <;> simp [write] at hf <;> omega⟩
    cases value <;> simp [write, readValue, skipSpace]
  | string value =>
    intro fuel r hf
    obtain ⟨fuel, rfl⟩ : ∃ n, fuel = n + 1 := ⟨fuel - 1, by simp [write, quoted] at hf; omega⟩
    rw [write, quoted_append, readValue]
    simp [skipSpace, readString_quoted]
  | array textual ih =>
    intro fuel r hf
    rename_i depth items
    rw [write, List.length_cons, List.length_append, List.length_singleton] at hf
    obtain ⟨fuel, rfl⟩ : ∃ n, fuel = n + 1 := ⟨fuel - 1, by omega⟩
    rw [write, List.cons_append, List.append_assoc]
    cases items with
    | nil => simp [writeItems, readValue, skipSpace]
    | cons item items =>
      have hbegins := begins_writeItems (textual item List.mem_cons_self) items
      rw [readValue_array (hbegins.append _), List.singleton_append,
        readItems_writeItems ih fuel (by omega)]
      rfl
  | object distinct textual ih =>
    intro fuel r hf
    rename_i depth fields
    rw [write, List.length_cons, List.length_append, List.length_singleton] at hf
    obtain ⟨fuel, rfl⟩ : ∃ n, fuel = n + 1 := ⟨fuel - 1, by omega⟩
    rw [write, List.cons_append, List.append_assoc]
    cases fields with
    | nil => simp [writeFields, readValue, skipSpace]
    | cons field fields =>
      have hfields := readFields_writeFields ih fuel (by omega) [] distinct r
      obtain ⟨s, hs⟩ := exists_writeFields_eq field fields
      rw [hs] at hfields ⊢
      rw [List.cons_append, List.singleton_append, readValue_object]
      exact hfields

/-- Reading undoes writing, for values that nest at most 127 containers. -/
theorem Textual.read?_compact {j : Json} (h : Textual 127 j) : read? j.compact = some j := by
  have hread := h.readsBack (2 * j.write.length + 2) [] (by omega)
  rw [List.append_nil] at hread
  rw [read?, compact, String.toList_ofList, hread]
  rfl

end Workflow.Json
