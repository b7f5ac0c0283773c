import Workflow.Table

namespace Workflow

/-- Where no key has two values, the value under a key is that of its entry. -/
theorem lookup_eq_some_iff_mem {κ α : Type} [DecidableEq κ] {entries : List (κ × α)}
    (nodup : (entries.map Prod.fst).Nodup) {key : κ} {value : α} :
    entries.lookup key = some value ↔ (key, value) ∈ entries := by
  rw [List.lookup_eq_some_iff]
  constructor
  · rintro ⟨before, after, rfl, -⟩
    exact List.mem_append_right _ List.mem_cons_self
  · intro hmem
    obtain ⟨before, after, rfl⟩ := List.append_of_mem hmem
    refine ⟨before, after, rfl, ?_⟩
    intro entry hentry
    rw [List.map_append, List.nodup_append] at nodup
    have hne := nodup.2.2 entry.1 (List.mem_map_of_mem hentry) key List.mem_cons_self
    exact bne_iff_ne.2 hne.symm

/-- A look-up does not depend on the order of entries with different keys. -/
theorem lookup_eq_of_perm {κ α : Type} [DecidableEq κ] {xs ys : List (κ × α)} (h : xs.Perm ys)
    (nodup : (ys.map Prod.fst).Nodup) (key : κ) : xs.lookup key = ys.lookup key := by
  have hxs : (xs.map Prod.fst).Nodup := (h.map Prod.fst).nodup_iff.2 nodup
  apply Option.ext
  intro value
  rw [lookup_eq_some_iff_mem hxs, lookup_eq_some_iff_mem nodup, h.mem_iff]

namespace Table

variable {κ α : Type}

theorem length_keys (t : Table κ α) : t.keys.length = t.size :=
  List.length_map _

theorem isEmpty_iff (t : Table κ α) : t.isEmpty = true ↔ t.size = 0 := by
  rw [isEmpty, size, List.isEmpty_iff, List.length_eq_zero_iff]

theorem nodup_entries (t : Table κ α) : t.entries.Nodup := by
  have hkeys := List.pairwise_map.1 t.nodup
  exact hkeys.imp fun hne heq => hne (congrArg Prod.fst heq)

variable [DecidableEq κ]

theorem get?_eq_some_iff (t : Table κ α) {key : κ} {value : α} :
    t.get? key = some value ↔ (key, value) ∈ t.entries :=
  lookup_eq_some_iff_mem t.nodup

theorem mem_keys_iff (t : Table κ α) {key : κ} :
    key ∈ t.keys ↔ ∃ value, t.get? key = some value := by
  simp only [keys, List.mem_map, get?_eq_some_iff]
  constructor
  · rintro ⟨⟨k, value⟩, hmem, rfl⟩
    exact ⟨value, hmem⟩
  · rintro ⟨value, hmem⟩
    exact ⟨_, hmem, rfl⟩

/-- Of values that are entered one after the other, the last one under a key stays; what the table
held before is found where there is none. -/
theorem get?_foldl_insert (keyOf : α → κ) (values : List α) (t : Table κ α) (key : κ) :
    (values.foldl (fun m value => m.insert (keyOf value) value) t).get? key =
      (values.reverse.find? (keyOf · = key)).or (t.get? key) := by
  induction values generalizing t with
  | nil => rfl
  | cons value rest ih =>
    rw [List.foldl_cons, ih, get?_insert, List.reverse_cons, List.find?_append, Option.or_assoc]
    congr 1
    by_cases hkey : keyOf value = key
    · simp [hkey]
    · simp [hkey, Ne.symm hkey]

theorem get?_eq_of_perm {t u : Table κ α} (h : t.entries.Perm u.entries) (key : κ) :
    t.get? key = u.get? key :=
  lookup_eq_of_perm h u.nodup key

theorem perm_of_get?_eq {t u : Table κ α} (h : ∀ key, t.get? key = u.get? key) :
    t.entries.Perm u.entries := by
  rw [List.perm_ext_iff_of_nodup t.nodup_entries u.nodup_entries]
  rintro ⟨key, value⟩
  rw [← get?_eq_some_iff, ← get?_eq_some_iff, h]

end Table

end Workflow
