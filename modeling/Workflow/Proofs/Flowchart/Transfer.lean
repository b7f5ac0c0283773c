import Workflow.Flowchart
import Workflow.Proofs.Generator.Agreement
import Workflow.Proofs.Invariant
import Mathlib.Data.List.Forall2
/-!
The flowchart and the runs of a process. A run passes control along edges of the flowchart only, and
where every field stands on a step of its kind, the flowchart draws nothing but the targets between
which the generated code chooses.
-/

namespace Workflow

def Successor.exits : Successor → List (String × String)
  | .fixed target => (target.map ("", ·)).toList
  | .branch _ onTrue onFalse =>
    (onTrue.map (BranchLabel.onTrue.name, ·)).toList ++
    (onFalse.map (BranchLabel.onFalse.name, ·)).toList

/-- The edges along which a transition can pass control on. -/
def Transition.transfers (t : Transition) : List FlowEdge :=
  t.successor.exits.map fun (label, target) => ⟨t.step, target, label⟩

namespace Step

/-- The label of the edge along which a step passes control on: the edge of a task has none, a
decision goes by the value of its condition, and without a condition it goes to its second
branch. -/
inductive Takes (vars : Bindings) (s : Step) : String → Prop
  | task (kind : s.kind = .task) : s.Takes vars ""
  | holds {condition : String} (kind : s.kind = .decision) (given : s.condition = some condition)
      (filled : isBlankText condition = false) (value : Condition.holds vars condition = .ok true) :
      s.Takes vars "then"
  | fails {condition : String} (kind : s.kind = .decision) (given : s.condition = some condition)
      (filled : isBlankText condition = false) (value : Condition.holds vars condition =
        .ok false) :
      s.Takes vars "else"
  | unconditioned (kind : s.kind = .decision)
      (blank : ∀ condition, s.condition = some condition → isBlankText condition = true) :
      s.Takes vars "else"

/-- Every field stands on a step of its kind: a successor on a task, branches on a decision. -/
structure Placed (s : Step) : Prop where
  next : ∀ target, s.next = some target → target ≠ "" → s.kind = .task
  branch : ∀ label target, s.branches.get? label = some target → s.kind = .decision

instance : DecidablePred Placed := fun s =>
  decidable_of_iff
    ((∀ target ∈ s.next, target ≠ "" → s.kind = .task) ∧
      ∀ label ∈ BranchLabel.all, ∀ target ∈ s.branches.get? label, s.kind = .decision)
    ⟨fun h => ⟨h.1, fun label => h.2 label (by cases label <;> decide)⟩,
      fun h => ⟨h.next, fun label _ => h.branch label⟩⟩

theorem mem_edges_of_successor? {s : Step} {target : String} (h : s.successor? = some target) :
    ⟨s.id, target, ""⟩ ∈ s.edges := by
  simp [edges, h]

theorem mem_edges_of_branch {s : Step} (label : BranchLabel) {target : String}
    (h : s.branches.get? label = some target) : ⟨s.id, target, label.name⟩ ∈ s.edges := by
  have hmem : (label, target) ∈ s.branches.toList := by
    cases label <;> simp [Process.branches_toList, h]
  exact List.mem_append_right _ (List.mem_map_of_mem (f := fun b => FlowEdge.mk s.id b.2 b.1.name)
    hmem)

/-- An edge that leaves a step is that of its successor or that of a branch. -/
theorem mem_edges_iff {s : Step} {e : FlowEdge} :
    e ∈ s.edges ↔ (∃ target, s.successor? = some target ∧ e = ⟨s.id, target, ""⟩) ∨
      ∃ label target, s.branches.get? label = some target ∧ e = ⟨s.id, target, label.name⟩ := by
  constructor
  · intro h
    rcases List.mem_append.1 h with h | h
    · obtain ⟨target, htarget, rfl⟩ := Option.map_eq_some_iff.1 (Option.mem_toList.1 h)
      exact Or.inl ⟨target, htarget, rfl⟩
    · obtain ⟨⟨label, target⟩, hbranch, rfl⟩ := List.mem_map.1 h
      obtain ⟨l, -, hl⟩ := List.mem_filterMap.1 hbranch
      obtain ⟨t, ht, heq⟩ := Option.map_eq_some_iff.1 hl
      obtain ⟨rfl, rfl⟩ := Prod.mk.inj heq
      exact Or.inr ⟨l, t, ht, rfl⟩
  · rintro (⟨target, htarget, rfl⟩ | ⟨label, target, htarget, rfl⟩)
    · exact mem_edges_of_successor? htarget
    · exact mem_edges_of_branch label htarget

theorem source_of_mem_edges {s : Step} {e : FlowEdge} (he : e ∈ s.edges) : e.source = s.id := by
  rcases mem_edges_iff.1 he with ⟨target, -, rfl⟩ | ⟨label, target, -, rfl⟩
  · rfl
  · rfl

/-- Along whatever edge a transition can pass control on, the edge leaves its step. -/
theorem mem_edges_of_mem_transfers {s : Step} {e : FlowEdge} (he : e ∈ s.transition.transfers) :
    e ∈ s.edges := by
  obtain ⟨⟨label, target⟩, hexit, rfl⟩ := List.mem_map.1 he
  rw [transition, choice] at hexit
  cases hkind : s.kind with
  | task =>
    simp only [hkind, Successor.exits, Option.mem_toList, Option.map_eq_some_iff] at hexit
    obtain ⟨_, htarget, hsame⟩ := hexit
    obtain ⟨rfl, rfl⟩ := Prod.mk.inj hsame
    exact mem_edges_of_successor? htarget
  | decision =>
    simp only [hkind, Successor.exits, List.mem_append, Option.mem_toList, Option.map_eq_some_iff]
      at hexit
    rcases hexit with ⟨_, htarget, hsame⟩ | ⟨_, htarget, hsame⟩
    · obtain ⟨rfl, rfl⟩ := Prod.mk.inj hsame
      exact mem_edges_of_branch .onTrue htarget
    · obtain ⟨rfl, rfl⟩ := Prod.mk.inj hsame
      exact mem_edges_of_branch .onFalse htarget
  | finish => simp [hkind, Successor.exits] at hexit

/-- What a step yields names the step, and its target stands at the end of an edge that leaves the
step, under the label of the way taken. -/
theorem takes_of_run {vars : Bindings} {s : Step} {y : Yielded}
    (h : s.transition.run vars = .ok y) :
    y.step = s.id ∧ ∀ target, y.next = some target →
      ∃ label, s.Takes vars label ∧ ⟨s.id, target, label⟩ ∈ s.edges := by
  obtain ⟨next, hnext, rfl⟩ : ∃ next, s.choice.choose (Condition.holds vars) = .ok next ∧
    y = ⟨s.id, next⟩ := by
    rw [Transition.run] at h
    split at h
    · rename_i next hnext
      exact ⟨next, hnext, (Except.ok.inj h).symm⟩
    · simp at h
  refine ⟨rfl, ?_⟩
  intro target htarget
  subst htarget
  unfold choice at hnext
  -- The way depends on the kind, and in a decision on whether there is a condition and what it
  -- says.
  cases hkind : s.kind with
  | task =>
    rw [hkind] at hnext
    exact ⟨"", .task hkind, mem_edges_of_successor? (Except.ok.inj hnext)⟩
  | finish =>
    rw [hkind] at hnext
    cases hnext
  | decision =>
    simp only [hkind] at hnext
    cases hcondition : s.condition? with
    | none =>
      rw [hcondition] at hnext
      refine ⟨"else", .unconditioned hkind ?_, mem_edges_of_branch .onFalse (Except.ok.inj hnext)⟩
      intro condition hgiven
      rw [condition?_of_some hgiven] at hcondition
      simpa using hcondition
    | some condition =>
      obtain ⟨hgiven, hfilled⟩ : s.condition = some condition ∧ isBlankText condition = false := by
        simpa [condition?, Option.filter_eq_some_iff] using hcondition
      rw [hcondition, Successor.choose] at hnext
      split at hnext
      · rename_i taken hvalue
        cases taken with
        | true =>
          exact ⟨"then", .holds hkind hgiven hfilled hvalue,
            mem_edges_of_branch .onTrue (Except.ok.inj hnext)⟩
        | false =>
          exact ⟨"else", .fails hkind hgiven hfilled hvalue,
            mem_edges_of_branch .onFalse (Except.ok.inj hnext)⟩
      · simp at hnext

/-- Where every field stands on a step of its kind, the edges that leave a step are those along
which its transition can pass control on. -/
theorem Placed.edges_eq {s : Step} (h : s.Placed) : s.edges = s.transition.transfers := by
  have hsuccessor : s.kind ≠ .task → s.successor? = none := by
    intro hkind
    rw [Option.eq_none_iff_forall_ne_some]
    intro target htarget
    obtain ⟨hnext, hfilled⟩ := nonEmpty?_eq_some_iff.1 htarget
    exact hkind (h.next target hnext hfilled)
  have hbranch : s.kind ≠ .decision → ∀ label, s.branches.get? label = none := by
    intro hkind label
    rw [Option.eq_none_iff_forall_ne_some]
    intro target htarget
    exact hkind (h.branch label target htarget)
  -- By its kind the step has the successor alone, the branches alone, or neither.
  rw [edges, Process.branches_toList, Transition.transfers, transition, choice]
  cases hkind : s.kind with
  | task =>
    have hnone := hbranch (by simp [hkind])
    cases hs : s.successor? <;> simp [Successor.exits, hnone]
  | decision =>
    have hnone := hsuccessor (by simp [hkind])
    cases ht : s.branches.onTrue <;> cases hf : s.branches.onFalse <;>
      simp [Successor.exits, hnone, Branches.get?, ht, hf]
  | finish =>
    have hnone := hbranch (by simp [hkind])
    simp [Successor.exits, hnone, hsuccessor (by simp [hkind])]

/-- The generated code can pass control along an edge: some answers to the conditions lead to its
target. The first branch of a decision without a condition is the exception, since its test is the
false constant. -/
theorem Placed.exists_target_eq {s : Step} (h : s.Placed) {e : FlowEdge} (he : e ∈ s.edges)
    (tested : e.label = "then" → ∃ condition, s.condition = some condition ∧
      isBlankText condition = false) :
    ∃ holds : String → Bool, s.target holds = some e.target := by
  -- Any answers will do for a successor. For a branch all conditions are answered so that it is
  -- taken.
  rcases mem_edges_iff.1 he with ⟨target, htarget, rfl⟩ | ⟨label, target, htarget, rfl⟩
  · obtain ⟨hnext, hfilled⟩ := nonEmpty?_eq_some_iff.1 htarget
    refine ⟨fun _ => false, ?_⟩
    rw [Step.target, h.next target hnext hfilled]
    exact htarget
  · have hkind : s.kind = .decision := h.branch label target htarget
    cases label with
    | onTrue =>
      obtain ⟨condition, hgiven, hfilled⟩ := tested rfl
      refine ⟨fun _ => true, ?_⟩
      simpa [Step.target, hkind, hgiven, hfilled, Branches.get?] using htarget
    | onFalse =>
      refine ⟨fun _ => false, ?_⟩
      simpa [Step.target, hkind, Branches.get?] using htarget

end Step

/-- The lines of a step assign the target of every edge along which its transition can pass control
on. -/
theorem Transition.exists_assignLine {t : Transition} {e : FlowEdge} (he : e ∈ t.transfers)
    (d : Dialect) :
    ∃ n, Generator.assignLine d n (some e.target) ∈ Generator.stepLines d t := by
  have hchoice : ∃ n, Generator.assignLine d n (some e.target) ∈ Generator.choiceLines d t := by
    obtain ⟨⟨label, target⟩, hexit, rfl⟩ := List.mem_map.1 he
    rw [Generator.choiceLines]
    -- The target of a task stands in the body, the targets of a decision one level deeper in its
    -- arms.
    cases hs : t.successor with
    | fixed fixed =>
      rw [hs, Successor.exits, Option.mem_toList, Option.map_eq_some_iff] at hexit
      obtain ⟨_, rfl, hsame⟩ := hexit
      obtain ⟨-, rfl⟩ := Prod.mk.inj hsame
      exact ⟨1, by simp⟩
    | branch condition onTrue onFalse =>
      simp only [hs, Successor.exits, List.mem_append, Option.mem_toList, Option.map_eq_some_iff]
        at hexit
      rcases hexit with ⟨_, rfl, hsame⟩ | ⟨_, rfl, hsame⟩
      · obtain ⟨-, rfl⟩ := Prod.mk.inj hsame
        exact ⟨2, by simp⟩
      · obtain ⟨-, rfl⟩ := Prod.mk.inj hsame
        exact ⟨2, by simp⟩
  obtain ⟨n, hn⟩ := hchoice
  refine ⟨n, List.mem_cons_of_mem _ (List.mem_append_left _ hn)⟩

/-- A run succeeds with one pair for each transition, each as it comes out alone. -/
theorem runTransitions_eq_ok_iff {vars : Bindings} {ts : List Transition} {pairs : List Yielded} :
    runTransitions vars ts = .ok pairs ↔ List.Forall₂ (fun t y => t.run vars = .ok y) ts pairs := by
  induction ts generalizing pairs with
  | nil => simp [runTransitions, eq_comm]
  | cons t rest ih =>
    rw [runTransitions, List.forall₂_cons_left_iff]
    constructor
    · intro h
      split at h
      · simp at h
      · rename_i first hfirst
        split at h
        · simp at h
        · rename_i others hothers
          exact ⟨first, others, hfirst, ih.1 hothers, (Except.ok.inj h).symm⟩
    · rintro ⟨first, others, hfirst, hothers, rfl⟩
      rw [hfirst, ih.2 hothers]

namespace Process

/-- A simulation yields one pair for each step, in declaration order, and every pair with a target
is an edge that leaves its step, under the label of the way taken. -/
theorem forall₂_of_simulate {p : Process} {vars : Bindings} {pairs : List Yielded}
    (h : p.simulate vars = .ok pairs) :
    List.Forall₂ (fun s y => y.step = s.id ∧ ∀ target, y.next = some target →
      ∃ label, s.Takes vars label ∧ ⟨s.id, target, label⟩ ∈ s.edges) p.steps pairs := by
  have hruns := runTransitions_eq_ok_iff.1 h
  rw [transitions, List.forall₂_map_left_iff] at hruns
  exact hruns.imp fun s y => Step.takes_of_run

/-- In a process that keeps every invariant, an edge leads to a step. -/
theorem WellFormed.declares_target {p : Process} (h : p.WellFormed) {s : Step} (hs : s ∈ p.steps)
    {e : FlowEdge} (he : e ∈ s.edges) : p.Declares e.target := by
  rcases Step.mem_edges_iff.1 he with ⟨target, htarget, rfl⟩ | ⟨label, target, htarget, rfl⟩
  · obtain ⟨hnext, hfilled⟩ := nonEmpty?_eq_some_iff.1 htarget
    exact (h.settled s hs).next target hnext hfilled
  · exact (h.settled s hs).branch label target htarget

theorem map_id_nodes (p : Process) : p.flowchart.nodes.map FlowNode.id = p.ids := by
  rw [flowchart, List.map_map]
  rfl

theorem mem_flowchart_edges {p : Process} {s : Step} (hs : s ∈ p.steps) {e : FlowEdge}
    (he : e ∈ s.edges) :
    e ∈ p.flowchart.edges :=
  List.mem_flatMap.2 ⟨s, hs, he⟩

theorem flowchart_edges_eq {p : Process} (h : ∀ s ∈ p.steps, s.Placed) :
    p.flowchart.edges = p.transitions.flatMap Transition.transfers := by
  have hedges : p.steps.flatMap Step.edges = p.steps.flatMap fun s => s.transition.transfers :=
    List.flatMap_congr fun s hs => (h s hs).edges_eq
  rw [transitions, List.flatMap_map]
  exact hedges

/-- The drawn graph and the executed one agree. What a simulation yields lies along edges of the
flowchart, under the label of the way taken. And where every field stands on a step of its kind, the
flowchart has the edges along which transitions can pass control on, in order: the generated code of
each dialect assigns their targets, and some answers to the conditions make it pass along them. A
decision without a condition has no answers, and takes its second branch. -/
theorem flowchart_agrees_with_runs (p : Process) :
    (∀ vars pairs, p.simulate vars = .ok pairs →
      List.Forall₂ (fun s y => y.step = s.id ∧ ∀ target, y.next = some target →
        ∃ label, s.Takes vars label ∧ ⟨s.id, target, label⟩ ∈ p.flowchart.edges) p.steps pairs) ∧
    ((∀ s ∈ p.steps, s.Placed) →
      p.flowchart.edges = p.transitions.flatMap Transition.transfers ∧
      ∀ s ∈ p.steps, ∀ e ∈ s.edges,
        (∀ d, ∃ n, Generator.assignLine d n (some e.target) ∈ Generator.stepLines d s.transition) ∧
        ((e.label = "then" → ∃ condition, s.condition = some condition ∧
          isBlankText condition = false) →
          ∃ (holds : String → Bool) (pairs : List Yielded), ⟨e.source, some e.target⟩ ∈ pairs ∧
            Generator.Language.python.execute holds (p.generate .python) = some pairs ∧
            Generator.Language.javascript.execute holds (p.generate .javascript) =
              some pairs)) := by
  refine ⟨?_, ?_⟩
  · intro vars pairs h
    have hsteps :=
      (List.forall₂_and_left _ _).2 ⟨fun s (hs : s ∈ p.steps) => hs, forall₂_of_simulate h⟩
    apply hsteps.imp
    rintro s y ⟨hs, hid, hnext⟩
    refine ⟨hid, ?_⟩
    intro target htarget
    obtain ⟨label, htakes, hedge⟩ := hnext target htarget
    exact ⟨label, htakes, mem_flowchart_edges hs hedge⟩
  · intro placed
    refine ⟨flowchart_edges_eq placed, ?_⟩
    intro s hs e he
    refine ⟨?_, ?_⟩
    · intro d
      have htransfer : e ∈ s.transition.transfers := (placed s hs).edges_eq ▸ he
      exact Transition.exists_assignLine htransfer d
    · intro tested
      -- Conditions are answered so that the step takes this edge, and its pair is among those of
      -- the run.
      obtain ⟨holds, htarget⟩ := (placed s hs).exists_target_eq he tested
      refine ⟨holds, p.walk holds, ?_, ?_, ?_⟩
      · rw [Step.source_of_mem_edges he, ← htarget]
        exact List.mem_map_of_mem hs
      · rw [Generator.execute_generate Generator.reads_python holds p, map_pick_transitions]
      · rw [Generator.execute_generate Generator.reads_javascript holds p, map_pick_transitions]

/-- A task that leads to a decision, and a decision that can lead back. -/
def reviewProcess : Process where
  name := "review"
  steps :=
    [{ id := "draft", kind := .task, actor := some "author", next := some "review" },
     { id := "review", kind := .decision, condition := some "approved",
       branches := ⟨some "done", some "draft"⟩ },
     { id := "done", kind := .finish, next := some "" }]

theorem flowchart_agrees_with_runs_review :
    let pairs : List Yielded := [⟨"draft", some "review"⟩, ⟨"review", some "done"⟩, ⟨"done", none⟩]
    reviewProcess.simulate [("approved", .bool true)] = .ok pairs ∧
    List.Forall₂ (fun s y => y.step = s.id ∧ ∀ target, y.next = some target →
      ∃ label, s.Takes [("approved", .bool true)] label ∧
        ⟨s.id, target, label⟩ ∈ reviewProcess.flowchart.edges) reviewProcess.steps pairs ∧
    (∀ s ∈ reviewProcess.steps, s.Placed) ∧
    reviewProcess.flowchart.edges = reviewProcess.transitions.flatMap Transition.transfers ∧
    ∃ holds pairs, ⟨"review", some "done"⟩ ∈ pairs ∧
      Generator.Language.python.execute holds (reviewProcess.generate .python) = some pairs := by
  intro pairs
  have hsimulate : reviewProcess.simulate [("approved", .bool true)] = .ok pairs := by
    decide +kernel
  have hplaced : ∀ s ∈ reviewProcess.steps, s.Placed := by decide
  obtain ⟨hruns, hdrawn⟩ := flowchart_agrees_with_runs reviewProcess
  obtain ⟨hedges, hcode⟩ := hdrawn hplaced
  refine ⟨hsimulate, hruns _ _ hsimulate, hplaced, hedges, ?_⟩
  obtain ⟨-, hpass⟩ := hcode _ (List.mem_cons_of_mem _ List.mem_cons_self)
    ⟨"review", "done", "then"⟩ (by decide)
  obtain ⟨holds, passed, hmem, hpython, -⟩ := hpass fun _ => ⟨"approved", rfl, by decide⟩
  exact ⟨holds, passed, hmem, hpython⟩

end Process

end Workflow
