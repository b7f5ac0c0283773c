import Workflow.Proofs.Invariant
import Workflow.Proofs.Table
import Mathlib.Data.Finset.Card

namespace Workflow

/-- The first step with the id stands between the two lists. -/
structure FirstWith (steps : List Step) (id : String) (s : Step) : Prop where
  split : ∃ before after, steps = before ++ s :: after ∧ ∀ t ∈ before, t.id ≠ id
  named : s.id = id

structure LastWith (steps : List Step) (id : String) (s : Step) : Prop where
  split : ∃ before after, steps = before ++ s :: after ∧ ∀ t ∈ after, t.id ≠ id
  named : s.id = id

/-- The last step of a list is the first one from its end. -/
theorem lastWith_iff_reverse {steps : List Step} {id : String} {s : Step} :
    LastWith steps id s ↔ FirstWith steps.reverse id s := by
  constructor
  · rintro ⟨⟨before, after, rfl, hafter⟩, hid⟩
    refine ⟨⟨after.reverse, before.reverse, by simp, ?_⟩, hid⟩
    simpa using hafter
  · rintro ⟨⟨before, after, hsteps, hbefore⟩, hid⟩
    refine ⟨⟨after.reverse, before.reverse, ?_, ?_⟩, hid⟩
    · rw [← List.reverse_reverse steps, hsteps]
      simp
    · simpa using hbefore

/-- The search finds the step before which no step has the id. -/
theorem find?_eq_some_iff_firstWith {steps : List Step} {id : String} {s : Step} :
    steps.find? (·.id = id) = some s ↔ FirstWith steps id s := by
  rw [List.find?_eq_some_iff_append]
  constructor
  · rintro ⟨hid, before, after, hsteps, hbefore⟩
    refine ⟨⟨before, after, hsteps, ?_⟩, by simpa using hid⟩
    simpa using hbefore
  · rintro ⟨⟨before, after, hsteps, hbefore⟩, hid⟩
    refine ⟨by simpa using hid, before, after, hsteps, ?_⟩
    simpa using hbefore

theorem isSome_find?_iff {steps : List Step} {id : String} :
    (steps.find? (·.id = id)).isSome ↔ id ∈ steps.map Step.id := by
  simp [List.find?_isSome]

namespace Process

/-- Entering a step over one with its id makes the map answer as a search from the last step on. -/
theorem get?_stepMap (p : Process) (id : String) :
    p.stepMap.get? id = p.steps.reverse.find? (·.id = id) := by
  rw [stepMap, Table.get?_foldl_insert, Table.get?_empty, Option.or_none]

theorem isSome_step?_iff (p : Process) (id : String) : (p.step? id).isSome ↔ id ∈ p.ids :=
  isSome_find?_iff

theorem isSome_get?_stepMap_iff (p : Process) (id : String) :
    (p.stepMap.get? id).isSome ↔ id ∈ p.ids := by
  rw [get?_stepMap, isSome_find?_iff, List.map_reverse, List.mem_reverse, ids]

/-- The keys of the map are the ids, each of them once. -/
theorem size_stepMap (p : Process) : p.stepMap.size = p.ids.toFinset.card := by
  have hkeys : p.stepMap.keys.toFinset = p.ids.toFinset := by
    ext id
    rw [List.mem_toFinset, List.mem_toFinset, Table.mem_keys_iff, ← isSome_get?_stepMap_iff,
      Option.isSome_iff_exists]
  rw [← hkeys, ← Table.length_keys]
  exact (List.toFinset_card_of_nodup p.stepMap.nodup).symm

theorem size_stepMap_eq_length_iff (p : Process) :
    p.stepMap.size = p.steps.length ↔ p.ids.Nodup := by
  have hlength : p.ids.length = p.steps.length := List.length_map _
  rw [size_stepMap, ← hlength]
  exact Multiset.toFinset_card_eq_card_iff_nodup

namespace WellFormed

variable {p : Process} (h : p.WellFormed)

include h

/-- No other step has the id of a step, so a search in any order of the steps ends at that step. -/
theorem find?_id {steps : List Step} (hperm : steps.Perm p.steps) {s : Step} (hs : s ∈ p.steps) :
    steps.find? (·.id = s.id) = some s := by
  obtain ⟨before, after, hsteps⟩ := List.append_of_mem (hperm.mem_iff.2 hs)
  have hnodup : (steps.map Step.id).Nodup := (hperm.map Step.id).nodup_iff.2 h.distinct
  refine find?_eq_some_iff_firstWith.2 ⟨⟨before, after, hsteps, ?_⟩, rfl⟩
  intro t ht
  rw [hsteps, List.map_append, List.nodup_append] at hnodup
  exact hnodup.2.2 t.id (List.mem_map_of_mem ht) s.id (by simp)

theorem step?_id {s : Step} (hs : s ∈ p.steps) : p.step? s.id = some s :=
  h.find?_id (List.Perm.refl _) hs

theorem get?_stepMap_id {s : Step} (hs : s ∈ p.steps) : p.stepMap.get? s.id = some s := by
  rw [get?_stepMap]
  exact h.find?_id (List.reverse_perm _) hs

/-- Where ids are distinct the first step with an id is the last one. -/
theorem step?_eq_get?_stepMap (id : String) : p.step? id = p.stepMap.get? id := by
  cases hfound : p.step? id with
  | some s =>
    have hid : s.id = id := (find?_eq_some_iff_firstWith.1 hfound).named
    rw [← hid, h.get?_stepMap_id (List.mem_of_find?_eq_some hfound)]
  | none =>
    have habsent : id ∉ p.ids := by
      rw [← isSome_step?_iff, hfound]
      simp
    rw [← isSome_get?_stepMap_iff, Bool.not_eq_true, Option.isSome_eq_false_iff,
      Option.isNone_iff_eq_none] at habsent
    exact habsent.symm

end WellFormed

/-- Looking an id up in the list of steps leads to the first step with that id, and in the map to
the last. Both find something exactly if a step has the id. The map has as many entries as there are
different ids, which is the number of steps if and only if no id is repeated. In an accepted process
the two always answer alike, and every step is found under its own id. -/
theorem lookups_agree (p : Process) :
    (∀ id s, p.step? id = some s ↔ FirstWith p.steps id s) ∧
    (∀ id s, p.stepMap.get? id = some s ↔ LastWith p.steps id s) ∧
    (∀ id, (p.step? id).isSome ↔ id ∈ p.ids) ∧
    (∀ id, (p.stepMap.get? id).isSome ↔ id ∈ p.ids) ∧
    p.stepMap.size = p.ids.toFinset.card ∧
    (p.stepMap.size = p.steps.length ↔ p.ids.Nodup) ∧
    (p.check = .ok () →
      (∀ id, p.step? id = p.stepMap.get? id) ∧
      ∀ s ∈ p.steps, p.step? s.id = some s ∧ p.stepMap.get? s.id = some s) := by
  refine ⟨fun id s => find?_eq_some_iff_firstWith, fun id s => ?_, p.isSome_step?_iff,
    p.isSome_get?_stepMap_iff, p.size_stepMap, p.size_stepMap_eq_length_iff, ?_⟩
  · rw [get?_stepMap, find?_eq_some_iff_firstWith, lastWith_iff_reverse]
  · intro haccepted
    have h := wellFormed_of_check haccepted
    exact ⟨h.step?_eq_get?_stepMap, fun s hs => ⟨h.step?_id hs, h.get?_stepMap_id hs⟩⟩

/-- A task that leads to an end, accepted: both look-ups find the end under its id. -/
theorem lookups_agree_pair :
    let s : Step := { id := "review", kind := .task, actor := some "editor", next := some "done" }
    let e : Step := { id := "done", kind := .finish }
    let p : Process := ⟨"article", [s, e]⟩
    p.check = .ok () ∧ p.step? "done" = p.stepMap.get? "done" ∧ p.step? "done" = some e := by
  intro s e p
  have haccepted : p.check = .ok () := by decide
  have hagree := (lookups_agree p).2.2.2.2.2.2 haccepted
  exact ⟨haccepted, hagree.1 "done", (hagree.2 e (by simp [p])).1⟩

end Process

end Workflow
