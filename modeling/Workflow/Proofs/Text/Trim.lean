import Workflow.Text.Blank
import Mathlib.Data.List.DropRight

namespace Workflow.Text

theorem dropEndWhile_eq_rdropWhile (p : Char → Bool) (s : List Char) :
    dropEndWhile p s = s.rdropWhile p := by
  induction s with
  | nil => rfl
  | cons c r ih =>
    rw [dropEndWhile, ih, List.rdropWhile, List.rdropWhile, List.reverse_cons,
      List.dropWhile_append]
    cases h : r.reverse.dropWhile p with
    | nil => by_cases hp : p c <;> simp [hp]
    | cons a as => cases hr : as.reverse <;> simp [hr]

structure Tight (s : List Char) : Prop where
  first : ∀ c ∈ s.head?, isBlank c = false
  last : ∀ c ∈ s.getLast?, isBlank c = false

theorem trimEnd_eq_self {s : List Char} (h : ∀ c ∈ s.getLast?, isBlank c = false) :
    trimEnd s = s := by
  rw [trimEnd, dropEndWhile_eq_rdropWhile, List.rdropWhile_eq_self_iff]
  intro hs
  simp [h _ (List.getLast?_eq_some_getLast hs)]

theorem trimStart_eq_self {s : List Char} (h : ∀ c ∈ s.head?, isBlank c = false) :
    trimStart s = s := by
  cases s with
  | nil => rfl
  | cons c r => simp [trimStart, h c rfl]

theorem trimEnd_append_of_blank {s t : List Char} (h : ∀ c ∈ t, isBlank c = true) :
    trimEnd (s ++ t) = trimEnd s := by
  rw [trimEnd, trimEnd, dropEndWhile_eq_rdropWhile, dropEndWhile_eq_rdropWhile, List.rdropWhile,
    List.reverse_append, List.dropWhile_append_of_pos (by simpa using h), ← List.rdropWhile]

theorem Tight.trim_eq {s : List Char} (h : Tight s) : trim s = s := by
  rw [trim, trimStart_eq_self h.first, trimEnd_eq_self h.last]

theorem isBlank_getLast_trimEnd {s : List Char} :
    ∀ c ∈ (trimEnd s).getLast?, isBlank c = false := by
  intro c hc
  rw [trimEnd, dropEndWhile_eq_rdropWhile] at hc
  have hne : s.rdropWhile isBlank ≠ [] := by
    intro hnil
    simp [hnil] at hc
  have hlast := List.rdropWhile_last_not isBlank s hne
  rw [List.getLast?_eq_some_getLast hne, Option.mem_some_iff] at hc
  simpa [hc] using hlast

theorem isBlank_head_trimStart {s : List Char} : ∀ c ∈ (trimStart s).head?, isBlank c = false := by
  intro c hc
  have hhead := List.head?_dropWhile_not isBlank s
  rw [trimStart] at hc
  rw [Option.mem_def.1 hc] at hhead
  simpa using hhead

theorem tight_trim (s : List Char) : Tight (trim s) := by
  refine ⟨fun c hc => ?_, isBlank_getLast_trimEnd⟩
  rw [trim] at hc
  have hprefix : trimEnd (trimStart s) <+: trimStart s := dropEndWhile_isPrefix isBlank _
  obtain ⟨t, ht⟩ := hprefix
  refine isBlank_head_trimStart (s := s) c ?_
  rw [← ht, List.head?_append, Option.mem_def.1 hc]
  rfl

theorem tight_iff {s : List Char} : Tight s ↔ trim s = s :=
  ⟨Tight.trim_eq, fun h => h ▸ tight_trim s⟩

instance : DecidablePred Tight := fun _ => decidable_of_iff' _ tight_iff

theorem mem_takeWhile_append {p : Char → Bool} {s t : List Char} {c : Char}
    (h : c ∈ s.takeWhile p) :
    c ∈ (s ++ t).takeWhile p := by
  rw [List.takeWhile_append]
  split
  · exact List.mem_append_left _ ((List.takeWhile_prefix p).subset h)
  · exact h

theorem takeWhile_eq_nil {s : List Char} (h : ∀ c ∈ s.head?, isBlank c = false) :
    s.takeWhile isBlank = [] := by
  cases s with
  | nil => rfl
  | cons c r => exact List.takeWhile_cons_of_neg (by simp [h c rfl])

/-- Trimming leaves out the blanks at both ends. -/
theorem exists_trim_append (s : List Char) :
    ∃ t, s = s.takeWhile isBlank ++ (trim s ++ t) ∧ ∀ c ∈ t, c ∈ s.rtakeWhile isBlank := by
  refine ⟨(trimStart s).rtakeWhile isBlank, ?_, fun c hc => ?_⟩
  · rw [trim, trimEnd, dropEndWhile_eq_rdropWhile, List.rdropWhile_append_rtakeWhile, trimStart,
      List.takeWhile_append_dropWhile]
  · rw [List.rtakeWhile, List.mem_reverse] at hc ⊢
    have hs : s.reverse = (trimStart s).reverse ++ (s.takeWhile isBlank).reverse := by
      rw [← List.reverse_append, trimStart, List.takeWhile_append_dropWhile]
    rw [hs]
    exact mem_takeWhile_append hc

/-- A text of which trimming leaves nothing is blank. -/
theorem takeWhile_eq_self_of_trim {s : List Char} (h : trim s = []) : s.takeWhile isBlank = s := by
  have hstart : trimStart s = [] := by
    rw [trim, trimEnd, dropEndWhile_eq_rdropWhile, List.rdropWhile_eq_nil_iff] at h
    by_contra hne
    obtain ⟨c, r, hcr⟩ := List.exists_cons_of_ne_nil hne
    have hc := isBlank_head_trimStart (s := s) c (by rw [hcr]; rfl)
    rw [h c (by rw [hcr]; exact List.mem_cons_self)] at hc
    simp at hc
  rw [trimStart] at hstart
  have hall := List.takeWhile_append_dropWhile (p := isBlank) (l := s)
  rwa [hstart, List.append_nil] at hall

/-- Trimming keeps a first character that is not blank. -/
theorem exists_trim_cons {c : Char} {r : List Char} (hc : isBlank c = false) :
    ∃ s, trim (c :: r) = c :: s := by
  have hnone : (c :: r).takeWhile isBlank = [] := takeWhile_eq_nil (by simpa using hc)
  obtain ⟨t, hall, -⟩ := exists_trim_append (c :: r)
  rw [hnone, List.nil_append] at hall
  cases htrim : trim (c :: r) with
  | nil =>
    rw [takeWhile_eq_self_of_trim htrim] at hnone
    simp at hnone
  | cons d s =>
    rw [htrim] at hall
    exact ⟨s, by rw [(List.cons.inj hall).1]⟩

theorem trim_subset (s : List Char) : trim s ⊆ s := by
  intro c hc
  obtain ⟨t, hs, -⟩ := exists_trim_append s
  rw [hs]
  exact List.mem_append_right _ (List.mem_append_left _ hc)

/-- Where no blank stands at the end, trimming leaves out the blanks in front. -/
theorem takeWhile_append_trim {s : List Char} (h : ∀ c ∈ s.getLast?, isBlank c = false) :
    s.takeWhile isBlank ++ trim s = s := by
  have hstart : trim s = trimStart s := by
    refine trimEnd_eq_self fun c hc => h c ?_
    obtain ⟨t, ht⟩ := List.dropWhile_suffix (l := s) isBlank
    have hlast : (s.dropWhile isBlank).getLast? = some c := hc
    rw [← ht, List.getLast?_append, hlast]
    rfl
  rw [hstart]
  exact List.takeWhile_append_dropWhile

end Workflow.Text
