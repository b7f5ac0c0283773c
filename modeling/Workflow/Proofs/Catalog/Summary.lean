import Workflow.Catalog.Batch
import Mathlib.Data.String.Basic

namespace Workflow

namespace Summary

theorem failureLE_iff {a b : String × String} :
    failureLE a b = true ↔ a.1 < b.1 ∨ a.1 = b.1 ∧ a.2 ≤ b.2 := by
  simp [failureLE]

theorem failureLE_trans (a b c : String × String) (hab : failureLE a b = true)
    (hbc : failureLE b c = true) :
    failureLE a c = true := by
  rw [failureLE_iff] at hab hbc ⊢
  rcases hab with hab | ⟨hab, hab'⟩
  · rcases hbc with hbc | ⟨hbc, -⟩
    · exact Or.inl (lt_trans hab hbc)
    · exact Or.inl (hbc ▸ hab)
  · rcases hbc with hbc | ⟨hbc, hbc'⟩
    · exact Or.inl (hab ▸ hbc)
    · exact Or.inr ⟨hab.trans hbc, le_trans hab' hbc'⟩

theorem failureLE_total (a b : String × String) : (failureLE a b || failureLE b a) = true := by
  rw [Bool.or_eq_true, failureLE_iff, failureLE_iff]
  rcases lt_trichotomy a.1 b.1 with h | h | h
  · exact Or.inl (Or.inl h)
  · rcases le_total a.2 b.2 with h' | h'
    · exact Or.inl (Or.inr ⟨h, h'⟩)
    · exact Or.inr (Or.inr ⟨h.symm, h'⟩)
  · exact Or.inr (Or.inl h)

theorem failureLE_antisymm {a b : String × String} (hab : failureLE a b = true)
    (hba : failureLE b a = true) :
    a = b := by
  rw [failureLE_iff] at hab hba
  rcases hab with hab | ⟨hab, hab'⟩
  · rcases hba with hba | ⟨hba, -⟩
    · exact absurd hba (lt_asymm hab)
    · exact absurd hba.symm (ne_of_lt hab)
  · rcases hba with hba | ⟨-, hba'⟩
    · exact absurd hab.symm (ne_of_lt hba)
    · exact Prod.ext hab (le_antisymm hab' hba')

theorem compiledPath?_eq_some_iff {r : String × Outcome} {path : String} :
    compiledPath? r = some path ↔ ∃ a, r = (path, .ok a) := by
  obtain ⟨p, o⟩ := r
  cases o with
  | ok artifacts => simp [compiledPath?]
  | error message => simp [compiledPath?]

theorem failedPath?_eq_some_iff {r : String × Outcome} {failure : String × String} :
    failedPath? r = some failure ↔ r = (failure.1, .error failure.2) := by
  obtain ⟨p, o⟩ := r
  cases o with
  | ok artifacts => simp [failedPath?]
  | error message => simp [failedPath?, Prod.ext_iff]

theorem mem_compiled_iff {results : List (String × Outcome)} {path : String} :
    path ∈ (ofResults results).compiled ↔ ∃ a, (path, .ok a) ∈ results := by
  simp only [ofResults, List.mem_mergeSort, List.mem_filterMap, compiledPath?_eq_some_iff]
  constructor
  · rintro ⟨_, hmem, a, rfl⟩
    exact ⟨a, hmem⟩
  · rintro ⟨a, hmem⟩
    exact ⟨_, hmem, a, rfl⟩

theorem mem_failed_iff {results : List (String × Outcome)} {path message : String} :
    (path, message) ∈ (ofResults results).failed ↔ (path, .error message) ∈ results := by
  simp only [ofResults, List.mem_mergeSort, List.mem_filterMap, failedPath?_eq_some_iff]
  constructor
  · rintro ⟨_, hmem, rfl⟩
    exact hmem
  · intro hmem
    exact ⟨_, hmem, rfl⟩

theorem compiled_pairwise_le (results : List (String × Outcome)) :
    (ofResults results).compiled.Pairwise (· ≤ ·) := by
  have htrans (a b c : String) (hab : decide (a ≤ b) = true) (hbc : decide (b ≤ c) = true) :
      decide (a ≤ c) = true :=
    decide_eq_true (le_trans (of_decide_eq_true hab) (of_decide_eq_true hbc))
  have htotal (a b : String) : (decide (a ≤ b) || decide (b ≤ a)) = true := by
    simpa using le_total a b
  have hsorted := List.pairwise_mergeSort htrans htotal (results.filterMap compiledPath?)
  exact hsorted.imp of_decide_eq_true

theorem failed_pairwise_failureLE (results : List (String × Outcome)) :
    (ofResults results).failed.Pairwise fun a b => failureLE a b = true :=
  List.pairwise_mergeSort failureLE_trans failureLE_total _

/-- A summary does not depend on the order in which the jobs end. -/
theorem ofResults_eq_of_perm {xs ys : List (String × Outcome)} (h : xs.Perm ys) :
    ofResults xs = ofResults ys := by
  have hcompiled : (ofResults xs).compiled = (ofResults ys).compiled := by
    apply List.Perm.eq_of_pairwise _ (compiled_pairwise_le xs) (compiled_pairwise_le ys)
    · exact (List.mergeSort_perm _ _).trans ((h.filterMap _).trans (List.mergeSort_perm _ _).symm)
    · intro a b _ _ hab hba
      exact le_antisymm hab hba
  have hfailed : (ofResults xs).failed = (ofResults ys).failed := by
    apply List.Perm.eq_of_pairwise _ (failed_pairwise_failureLE xs) (failed_pairwise_failureLE ys)
    · exact (List.mergeSort_perm _ _).trans ((h.filterMap _).trans (List.mergeSort_perm _ _).symm)
    · intro a b _ _ hab hba
      exact failureLE_antisymm hab hba
  calc ofResults xs = ⟨(ofResults xs).compiled, (ofResults xs).failed⟩ := rfl
    _ = ⟨(ofResults ys).compiled, (ofResults ys).failed⟩ := by rw [hcompiled, hfailed]
    _ = ofResults ys := rfl

/-- What is kept of results for different paths is about different paths. -/
theorem nodup_map_filterMap {β : Type} {results : List (String × Outcome)}
    (nodup : (results.map Prod.fst).Nodup) {f : String × Outcome → Option β} {g : β → String}
    (hf : ∀ r b, f r = some b → g b = r.1) : ((results.filterMap f).map g).Nodup := by
  rw [List.Nodup, List.pairwise_map, List.pairwise_filterMap]
  apply (List.pairwise_map.1 nodup).imp
  intro r r' hne b hb b' hb' heq
  rw [hf r b hb, hf r' b' hb'] at heq
  exact hne heq

/-- Those that compiled stand in ascending order, and none of them twice if the paths differ. -/
theorem compiled_pairwise_lt {results : List (String × Outcome)}
    (nodup : (results.map Prod.fst).Nodup) :
    (ofResults results).compiled.Pairwise (· < ·) := by
  have hnodup : (ofResults results).compiled.Nodup := by
    rw [ofResults, (List.mergeSort_perm _ _).nodup_iff]
    have hpath : ∀ r b, compiledPath? r = some b → id b = r.1 := by
      intro r b hb
      obtain ⟨a, rfl⟩ := compiledPath?_eq_some_iff.1 hb
      rfl
    have hpaths := nodup_map_filterMap nodup hpath
    rwa [List.map_id] at hpaths
  apply ((compiled_pairwise_le results).and hnodup).imp
  rintro a b ⟨hle, hne⟩
  exact lt_of_le_of_ne hle hne

theorem failed_pairwise_lt {results : List (String × Outcome)}
    (nodup : (results.map Prod.fst).Nodup) :
    ((ofResults results).failed.map Prod.fst).Pairwise (· < ·) := by
  have hnodup : ((ofResults results).failed.map Prod.fst).Nodup := by
    rw [ofResults, ((List.mergeSort_perm _ _).map Prod.fst).nodup_iff]
    apply nodup_map_filterMap nodup
    intro r b hb
    rw [failedPath?_eq_some_iff.1 hb]
  rw [List.Nodup, List.pairwise_map] at hnodup
  rw [List.pairwise_map]
  apply ((failed_pairwise_failureLE results).and hnodup).imp
  rintro a b ⟨hle, hne⟩
  rcases failureLE_iff.1 hle with hlt | ⟨heq, -⟩
  · exact hlt
  · exact absurd heq hne

end Summary

end Workflow
