import Workflow.Generator.Literal
import Mathlib.Tactic.SplitIfs

namespace Workflow.Generator

def IsControl (c : Char) : Prop :=
  c.toNat < 0x20 ∨ 0x7f ≤ c.toNat ∧ c.toNat < 0xa0

/-- A character that no language takes for the end of a line, or hides. -/
structure Printable (c : Char) : Prop where
  control : ¬IsControl c
  line : c ≠ '\u2028'
  paragraph : c ≠ '\u2029'

instance : DecidablePred IsControl := fun c =>
  inferInstanceAs (Decidable (c.toNat < 0x20 ∨ 0x7f ≤ c.toNat ∧ c.toNat < 0xa0))

instance : DecidablePred Printable := fun _ =>
  decidable_of_iff (_ ∧ _ ∧ _) ⟨fun h => ⟨h.1, h.2.1, h.2.2⟩,
    fun h => ⟨h.control, h.line, h.paragraph⟩⟩

theorem printable_of_not_isUnprintable {c : Char} (h : isUnprintable c = false) : Printable c := by
  simp only [isUnprintable, Bool.or_eq_false_iff, Bool.and_eq_false_iff, decide_eq_false_iff_not,
    beq_eq_false_iff_ne] at h
  obtain ⟨⟨⟨hlow, hhigh⟩, hline⟩, hparagraph⟩ := h
  refine ⟨?_, ?_, ?_⟩
  · unfold IsControl
    omega
  · rintro rfl
    exact hline rfl
  · rintro rfl
    exact hparagraph rfl

/-- Every digit of a number is the character of a digit in its base. -/
theorem mem_toDigitsCore {base fuel n : Nat} (hbase : 0 < base) {ds : List Char} {c : Char}
    (h : c ∈ Nat.toDigitsCore base fuel n ds) : c ∈ ds ∨ ∃ k < base, c = Nat.digitChar k := by
  induction fuel generalizing n ds with
  | zero => exact Or.inl h
  | succ fuel ih =>
    have hdigit (hc : c ∈ (n % base).digitChar :: ds) : c ∈ ds ∨ ∃ k < base,
        c = Nat.digitChar k := by
      rcases List.mem_cons.1 hc with rfl | hc
      · exact Or.inr ⟨_, Nat.mod_lt n hbase, rfl⟩
      · exact Or.inl hc
    rw [Nat.toDigitsCore] at h
    split at h
    · exact hdigit h
    · rcases ih h with hc | hk
      · exact hdigit hc
      · exact Or.inr hk

theorem printable_digitChar : ∀ k < 16, Printable (Nat.digitChar k) := by
  decide

/-- A character that is written by its code is printable. -/
theorem printable_codeEscape (c : Char) : ∀ x ∈ codeEscape c, Printable x := by
  intro x hx
  simp only [codeEscape, List.mem_cons, List.mem_append, List.not_mem_nil, or_false] at hx
  rcases hx with rfl | rfl | rfl | hx | rfl
  · decide
  · decide
  · decide
  · obtain hx | ⟨k, hk, rfl⟩ := mem_toDigitsCore (by decide) hx
    · cases hx
    · exact printable_digitChar k hk
  · decide

theorem printable_letter {c : Char} (h : Printable c) : ∀ x ∈ ['\\', c], Printable x :=
  List.forall_mem_cons.2 ⟨by decide, List.forall_mem_singleton.2 h⟩

theorem printable_escapeInComment (c : Char) : ∀ x ∈ escapeInComment c, Printable x := by
  unfold escapeInComment
  split_ifs with htab hfeed hreturn hc
  · exact printable_letter (by decide)
  · exact printable_letter (by decide)
  · exact printable_letter (by decide)
  · exact printable_codeEscape c
  · simpa using printable_of_not_isUnprintable (by simpa using hc)

theorem printable_singleLine (text : String) : ∀ c ∈ (singleLine text).toList, Printable c := by
  intro c hc
  rw [singleLine, String.toList_ofList] at hc
  obtain ⟨x, -, hx⟩ := List.mem_flatMap.1 hc
  exact printable_escapeInComment x c hx

end Workflow.Generator
