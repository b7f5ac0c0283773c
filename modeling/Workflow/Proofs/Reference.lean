import Workflow.Proofs.Compilation
import Workflow.Proofs.Flowchart.Transfer
import Workflow.Proofs.MergeCandidate
import Mathlib.Data.List.Nodup

namespace Workflow

namespace Process

def DeclaresOnce (p : Process) (id : String) : Prop :=
  p.ids.count id = 1

namespace WellFormed

variable {p : Process} (h : p.WellFormed)

include h

theorem declaresOnce {id : String} (hid : p.Declares id) : p.DeclaresOnce id :=
  List.count_eq_one_of_mem h.distinct ((p.mem_ids_iff id).2 hid)

theorem eq_of_id_eq {s t : Step} (hs : s ∈ p.steps) (ht : t ∈ p.steps) (hid : s.id = t.id) :
    s = t :=
  List.inj_on_of_nodup_map h.distinct hs ht hid

theorem declaresOnce_target {s : Step} (hs : s ∈ p.steps) {e : FlowEdge} (he : e ∈ s.edges) :
    p.DeclaresOnce e.target :=
  h.declaresOnce (h.declares_target hs he)

theorem declaresOnce_exit {t : Transition} (ht : t ∈ p.transitions) {exit : String × String}
    (hexit : exit ∈ t.successor.exits) : p.DeclaresOnce exit.2 := by
  obtain ⟨s, hs, rfl⟩ := List.mem_map.1 ht
  have htransfer : ⟨s.id, exit.2, exit.1⟩ ∈ s.transition.transfers := List.mem_map_of_mem hexit
  exact h.declaresOnce_target hs (Step.mem_edges_of_mem_transfers htransfer)

/-- Where a simulated step goes, exactly one step is declared. -/
theorem declaresOnce_next {vars : Bindings} {pairs : List Yielded}
    (hsimulate : p.simulate vars = .ok pairs) {y : Yielded} (hy : y ∈ pairs) {id : String}
    (hnext : y.next = some id) : p.DeclaresOnce id := by
  obtain ⟨i, hi, rfl⟩ := List.mem_iff_getElem.1 hy
  have hruns := forall₂_of_simulate hsimulate
  have hlength := hruns.length_eq
  obtain ⟨-, hedges⟩ := List.Forall₂.get hruns (by omega) hi
  obtain ⟨label, -, hedge⟩ := hedges id hnext
  exact h.declaresOnce_target (List.get_mem _ _) hedge

end WellFormed

end Process

/-- The two steps of a merge candidate are tasks of its actor. -/
theorem MergeCandidate.exists_steps {steps : List Step} {c : MergeCandidate}
    (hc : c ∈ ofSteps steps) :
    (∃ s ∈ steps, s.id = c.first ∧ s.kind = .task ∧ s.actor = some c.actor) ∧
      ∃ s ∈ steps, s.id = c.second ∧ s.kind = .task ∧ s.actor = some c.actor := by
  induction steps with
  | nil => simp [ofSteps] at hc
  | cons s rest ih =>
    cases rest with
    | nil => simp [ofSteps] at hc
    | cons t rest =>
      rw [ofSteps, List.mem_append, Option.mem_toList] at hc
      rcases hc with hpair | hc
      · obtain ⟨actor, hs, ht, rfl⟩ := ofPair?_eq_some_iff.1 hpair
        exact ⟨⟨s, by simp, rfl, hs.task, hs.performer⟩, t, by simp, rfl, ht.task, ht.performer⟩
      · obtain ⟨⟨u, hu, hfirst⟩, v, hv, hsecond⟩ := ih hc
        exact ⟨⟨u, List.mem_cons_of_mem s hu, hfirst⟩, v, List.mem_cons_of_mem s hv, hsecond⟩

/-- The id of each step of a merge candidate is that of exactly one step, a task of the candidate's
actor. -/
theorem Process.WellFormed.merges {p : Process} (h : p.WellFormed) {c : MergeCandidate}
    (hc : c ∈ p.mergeCandidates) {id : String} (hid : id = c.first ∨ id = c.second) :
    p.DeclaresOnce id ∧ ∀ s ∈ p.steps, s.id = id → s.kind = .task ∧ s.actor = some c.actor := by
  obtain ⟨s, hs, rfl, htask, hactor⟩ :
      ∃ s ∈ p.steps, s.id = id ∧ s.kind = .task ∧ s.actor = some c.actor := by
    obtain ⟨hfirst, hsecond⟩ := MergeCandidate.exists_steps hc
    rcases hid with rfl | rfl
    · exact hfirst
    · exact hsecond
  refine ⟨h.declaresOnce ⟨s, hs, rfl⟩, ?_⟩
  intro t ht hsame
  obtain rfl := h.eq_of_id_eq ht hs hsame
  exact ⟨htask, hactor⟩

/-- A document is accepted only with a process that keeps every invariant. -/
theorem check_of_acceptProcess {reader : Reader} {text : String} {p : Process}
    (h : acceptProcess reader text = .ok p) : p.check = .ok () := by
  rw [acceptProcess] at h
  split at h
  · cases h
  · split at h
    · cases h
    · rename_i hcheck
      cases h
      exact hcheck

namespace Settings

/-- The process of a compiled document keeps every invariant. -/
theorem wellFormed_of_compile {s : Settings} {text : String} {a : Artifacts}
    (h : s.compile text = .ok a) :
    a.process.WellFormed := by
  obtain ⟨p, haccept, rfl⟩ := compile_eq_ok_iff.1 h
  exact Process.wellFormed_of_check (check_of_acceptProcess haccept)

/-- Nothing that is made of a compiled document refers to a step that is missing or to one of
several. Every target that a transition lists, and every one that a simulation yields, is the id of
exactly one step. The nodes of the flowchart have the ids of the steps, each once, and its edges
have both ends among them. Each step of a merge candidate is the one with its id, and a task of the
candidate's actor. -/
theorem compile_settles_references {s : Settings} {text : String} {a : Artifacts}
    (h : s.compile text = .ok a) :
    let p := a.process
    (∀ t ∈ p.transitions, ∀ exit ∈ t.successor.exits, p.DeclaresOnce exit.2) ∧
    (∀ vars pairs, p.simulate vars = .ok pairs →
      ∀ y ∈ pairs, ∀ id, y.next = some id → p.DeclaresOnce id) ∧
    (p.flowchart.nodes.map FlowNode.id = p.steps.map Step.id ∧
      (p.flowchart.nodes.map FlowNode.id).Nodup ∧
      ∀ e ∈ p.flowchart.edges, e.source ∈ p.flowchart.nodes.map FlowNode.id ∧
        e.target ∈ p.flowchart.nodes.map FlowNode.id) ∧
    ∀ c ∈ p.mergeCandidates, ∀ id, id = c.first ∨ id = c.second →
      p.DeclaresOnce id ∧ ∀ s ∈ p.steps, s.id = id → s.kind = .task ∧ s.actor = some c.actor := by
  intro p
  -- All the parts are read off the invariants of the compiled process.
  have hwell : p.WellFormed := wellFormed_of_compile h
  have hnodes : p.flowchart.nodes.map FlowNode.id = p.ids := by
    rw [Process.flowchart, List.map_map]
    rfl
  rw [hnodes]
  refine ⟨?_, ?_, ⟨rfl, hwell.distinct, ?_⟩, ?_⟩
  · intro t ht exit hexit
    exact hwell.declaresOnce_exit ht hexit
  · intro vars pairs hsimulate y hy id hnext
    exact hwell.declaresOnce_next hsimulate hy hnext
  · intro e he
    obtain ⟨u, hu, hedge⟩ := List.mem_flatMap.1 he
    have hsource : e.source = u.id := Step.source_of_mem_edges hedge
    have htarget : 0 < p.ids.count e.target := by
      rw [hwell.declaresOnce_target hu hedge]
      exact Nat.one_pos
    exact ⟨hsource ▸ List.mem_map_of_mem hu, List.count_pos_iff.1 htarget⟩
  · intro c hc id hid
    exact hwell.merges hc hid

/-- A document with two tasks of one actor, of which the second leads back to the first. -/
def orderDocument : String :=
  "process:\n steps: [{id: a, type: task, actor: x}, " ++
    "{id: b, type: task, actor: x, next: a}, {id: c, type: end}]\n"

def orderProcess : Process where
  name := ""
  steps :=
    [{ id := "a", kind := .task, actor := some "x" },
     { id := "b", kind := .task, actor := some "x", next := some "a" },
     { id := "c", kind := .finish }]

theorem compile_settles_references_order :
    ({} : Settings).compile orderDocument = .ok (({} : Settings).made orderProcess) ∧
      (∀ t ∈ orderProcess.transitions, ∀ exit ∈ t.successor.exits,
        orderProcess.DeclaresOnce exit.2) ∧
      (∀ e ∈ orderProcess.flowchart.edges, e.target ∈
        orderProcess.flowchart.nodes.map FlowNode.id) ∧
      ∀ s ∈ orderProcess.steps, s.id = "b" → s.kind = .task ∧ s.actor = some "x" := by
  have hcompile : ({} : Settings).compile orderDocument = .ok (({} : Settings).made orderProcess) :=
    compile_eq_ok_iff.2 ⟨orderProcess, by decide +kernel, rfl⟩
  obtain ⟨htransitions, -, ⟨-, -, hedges⟩, hmerges⟩ := compile_settles_references hcompile
  refine ⟨hcompile, htransitions, ?_, ?_⟩
  · intro e he
    exact (hedges e he).2
  · have hmerge : (⟨"a", "b", "x"⟩ : MergeCandidate) ∈ orderProcess.mergeCandidates := by decide
    exact (hmerges _ hmerge "b" (Or.inr rfl)).2

end Settings

end Workflow
