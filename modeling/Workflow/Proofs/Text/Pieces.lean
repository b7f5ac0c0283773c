import Workflow.Text.Lines

namespace Workflow

theorem Text.splitAt_eq_splitOnP (separator : Char) (s : List Char) :
    Text.splitAt separator s = s.splitOnP (· == separator) := by
  induction s with
  | nil => rfl
  | cons c r ih =>
    have hrest : ∃ piece pieces, r.splitOnP (· == separator) = piece :: pieces := by
      rw [← ih]
      exact List.exists_cons_of_ne_nil (splitAt_ne_nil separator r)
    obtain ⟨piece, pieces, hr⟩ := hrest
    by_cases hc : c = separator
    · have hhead := List.splitOnP_append_cons (p := (· == separator)) [] r (beq_iff_eq.2 hc)
      rw [List.nil_append] at hhead
      rw [hhead, Text.splitAt, if_pos hc, ih]
      rfl
    · rw [Text.splitAt, if_neg hc, ih, List.splitOnP_cons_eq_if_modifyHead, hr,
        if_neg (by simpa using hc)]
      rfl

theorem Text.splitAt_append (separator : Char) (s t : List Char) :
    Text.splitAt separator (s ++ separator :: t) = Text.splitAt separator s ++
      Text.splitAt separator t := by
  simp only [splitAt_eq_splitOnP]
  exact List.splitOnP_append_cons s t (beq_self_eq_true separator)

theorem Text.splitAt_eq_singleton {separator : Char} {s : List Char} (h : separator ∉ s) :
    Text.splitAt separator s = [s] := by
  rw [splitAt_eq_splitOnP]
  apply List.splitOnP_eq_singleton
  intro c hc
  exact beq_false_of_ne fun heq => h (heq ▸ hc)

/-- No piece holds the separator. -/
theorem Text.notMem_of_mem_splitAt {separator : Char} {s piece : List Char}
    (h : piece ∈ Text.splitAt separator s) : separator ∉ piece := by
  induction s generalizing piece with
  | nil =>
    rw [Text.splitAt, List.mem_singleton] at h
    simp [h]
  | cons c r ih =>
    rw [Text.splitAt] at h
    split at h
    · rcases List.mem_cons.1 h with rfl | h
      · simp
      · exact ih h
    · rename_i hc
      split at h
      · rename_i hnil
        exact absurd hnil (splitAt_ne_nil separator r)
      · rename_i first pieces hr
        rcases List.mem_cons.1 h with rfl | h
        · have hfirst : separator ∉ first := ih (hr ▸ List.mem_cons_self)
          simp [hfirst, Ne.symm hc]
        · exact ih (hr ▸ List.mem_cons_of_mem first h)

theorem Text.joinWith_append_singleton {separator : List Char} {pieces : List (List Char)}
    (hp : pieces ≠ []) (last : List Char) :
    Text.joinWith separator (pieces ++ [last]) = Text.joinWith separator pieces ++
      separator ++ last := by
  induction pieces with
  | nil => exact absurd rfl hp
  | cons piece rest ih =>
    cases rest with
    | nil => rfl
    | cons next rest =>
      have hjoin (pieces : List (List Char)) : Text.joinWith separator (piece :: next :: pieces) =
          piece ++ separator ++ Text.joinWith separator (next :: pieces) := rfl
      have hrest := ih (List.cons_ne_nil next rest)
      rw [List.cons_append, List.cons_append, hjoin, hjoin, ← List.cons_append, hrest]
      simp only [List.append_assoc]

/-- Pieces that hold nothing to split at are found again where they were joined. -/
theorem Text.splitOnP_joinWith {p : Char → Bool} {separator : Char} (hsep : p separator = true)
    {pieces : List (List Char)} (hne : pieces ≠ [])
    (h : ∀ piece ∈ pieces, ∀ c ∈ piece, p c = false) :
    (Text.joinWith [separator] pieces).splitOnP p = pieces := by
  induction pieces with
  | nil => exact absurd rfl hne
  | cons piece rest ih =>
    obtain ⟨hpiece, hrest⟩ := List.forall_mem_cons.1 h
    cases rest with
    | nil => exact List.splitOnP_eq_singleton hpiece
    | cons next rest =>
      have hjoin : Text.joinWith [separator] (piece :: next :: rest) =
          piece ++ separator :: Text.joinWith [separator] (next :: rest) := by
        simp [Text.joinWith]
      rw [hjoin, List.splitOnP_append_cons_of_forall_mem hpiece separator hsep,
        ih (List.cons_ne_nil next rest) hrest]

theorem Text.splitAt_joinWith {separator : Char} {pieces : List (List Char)} (hne : pieces ≠ [])
    (h : ∀ piece ∈ pieces, separator ∉ piece) :
    Text.splitAt separator (Text.joinWith [separator] pieces) = pieces := by
  rw [splitAt_eq_splitOnP]
  refine splitOnP_joinWith (p := (· == separator)) (beq_self_eq_true separator) hne ?_
  intro piece hpiece c hc
  exact beq_false_of_ne fun heq => h piece hpiece (heq ▸ hc)

end Workflow
