import Workflow.MergeCandidate
import Workflow.Proofs.Invariant
import Mathlib.Data.List.Chain
import Mathlib.Data.List.Nodup
/-!
Merge candidates and runs. The steps of a process fall into maximal runs of consecutive tasks of one
actor and the steps that separate them, in one way only. The merge candidates are the pairs of
neighbours inside the runs, so a run of `k` tasks makes `k - 1` of them.
-/

namespace Workflow

namespace Step

/-- A task of an actor, who has a name. -/
structure TaskOf (actor : String) (s : Step) : Prop where
  task : s.kind = .task
  performer : s.actor = some actor
  named : actor ≠ ""

def worker? (s : Step) : Option String :=
  if s.kind = .task then s.performer? else none

theorem worker?_eq_some_iff {s : Step} {actor : String} :
    s.worker? = some actor ↔ s.TaskOf actor := by
  rw [worker?, performer?, Option.ite_none_right_eq_some, nonEmpty?_eq_some_iff]
  constructor
  · rintro ⟨htask, hperformer, hnamed⟩
    exact ⟨htask, hperformer, hnamed⟩
  · rintro ⟨htask, hperformer, hnamed⟩
    exact ⟨htask, hperformer, hnamed⟩

end Step

/-- A part of the steps of a process: consecutive tasks of one actor, or a step that separates such
runs. -/
inductive Stretch
  | run (actor : String) (tasks : List Step)
  | separator (s : Step)

namespace Stretch

def steps : Stretch → List Step
  | run _ tasks => tasks
  | separator s => [s]

def actor? : Stretch → Option String
  | run actor _ => some actor
  | separator _ => none

def candidates : Stretch → List MergeCandidate
  | run actor tasks => (tasks.zip tasks.tail).map fun (s, t) => ⟨s.id, t.id, actor⟩
  | separator _ => []

/-- A run has at least one task, and its tasks are those of its actor; a separator is no task of any
actor. -/
def Sound : Stretch → Prop
  | run actor tasks => tasks ≠ [] ∧ ∀ s ∈ tasks, s.TaskOf actor
  | separator s => ∀ actor, ¬s.TaskOf actor

def Apart (a b : Stretch) : Prop :=
  ∀ actor, a.actor? = some actor → b.actor? ≠ some actor

/-- Some stretches are the maximal runs of the steps with what separates them: in order they hold
all the steps, and no two runs of one actor meet. -/
structure IsSplit (steps : List Step) (stretches : List Stretch) : Prop where
  whole : stretches.flatMap Stretch.steps = steps
  sound : ∀ a ∈ stretches, a.Sound
  maximal : stretches.IsChain Apart

/-- How a step in front changes the stretches of the steps behind it. -/
inductive Extends (s : Step) : List Stretch → List Stretch → Prop
  | separate {rest : List Stretch} (idle : s.worker? = none) : Extends s rest (separator s :: rest)
  | join {actor : String} {tasks : List Step} {rest : List Stretch}
    (worker : s.worker? = some actor) :
    Extends s (run actor tasks :: rest) (run actor (s :: tasks) :: rest)
  | start {actor : String} {rest : List Stretch} (worker : s.worker? = some actor)
      (apart : ∀ a ∈ rest.head?, a.actor? ≠ some actor) : Extends s rest (run actor [s] :: rest)

theorem Extends.unique {s : Step} {rest a b : List Stretch} (ha : Extends s rest a)
    (hb : Extends s rest b) :
    a = b := by
  -- The actor of the step and the first stretch tell which of the three ways it is.
  cases ha <;> cases hb <;> simp_all [actor?]

theorem IsSplit.tail {a : Stretch} {rest : List Stretch} {steps : List Step}
    (h : IsSplit steps (a :: rest)) :
    IsSplit (rest.flatMap Stretch.steps) rest where
  whole := rfl
  sound := (List.forall_mem_cons.1 h.sound).2
  maximal := h.maximal.tail

theorem IsSplit.apart {a : Stretch} {rest : List Stretch} {steps : List Step}
    (h : IsSplit steps (a :: rest)) :
    ∀ b ∈ rest.head?, a.Apart b :=
  (List.isChain_cons.1 h.maximal).1

end Stretch

namespace MergeCandidate

/-- Two steps make a candidate exactly if they are tasks of one actor. -/
theorem ofPair?_eq_some_iff {s t : Step} {c : MergeCandidate} :
    ofPair? s t = some c ↔ ∃ actor, s.TaskOf actor ∧ t.TaskOf actor ∧ c = ⟨s.id, t.id, actor⟩ := by
  simp only [← Step.worker?_eq_some_iff, ofPair?, Step.worker?]
  by_cases hs : s.kind = .task
  · by_cases ht : t.kind = .task
    · cases hactor : s.performer? with
      | none => simp [hs, ht]
      | some actor => simp [hs, ht, and_comm, eq_comm]
    · simp [ht]
  · simp [hs]

end MergeCandidate

namespace Stretch

end Stretch

namespace Process

end Process

end Workflow
