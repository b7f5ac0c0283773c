import Workflow.Proofs.Flowchart.Transfer
/-!
Reading a flowchart back. All edges stand in one list, and only the id at their start and their
label tell where they belong. Where ids are distinct that is enough: under the id of a step there is
at most one edge with each label, and a flowchart shows the steps that it was drawn from, up to
their conditions.
-/

namespace Workflow

namespace Flowchart

def edgesAt (f : Flowchart) (id label : String) : List FlowEdge :=
  f.edges.filter fun e => e.source = id ∧ e.label = label

/-- The target of the only edge that leaves the step with an id under a label. -/
def target? (f : Flowchart) (id label : String) : Option String :=
  match f.edgesAt id label with
  | [e] => some e.target
  | _ => none

/-- The step that a node stands for, with the targets of the edges that leave it. -/
def stepAt (f : Flowchart) (n : FlowNode) : Step where
  id := n.id
  kind := n.kind
  actor := some n.actor
  next := f.target? n.id ""
  branches := { onTrue := f.target? n.id "then", onFalse := f.target? n.id "else" }

def steps (f : Flowchart) : List Step :=
  f.nodes.map f.stepAt

end Flowchart

namespace Step

/-- A step as far as a flowchart shows it: without its condition, with an empty text for a missing
actor, and without an empty successor. -/
def shown (s : Step) : Step :=
  { s with actor := some (s.actor.getD ""), next := s.next.filter (· ≠ ""), condition := none }

/-- Two steps agree in all that a flowchart shows. A missing actor counts as an empty one, and an
empty successor as a missing one. -/
structure ShownLike (s t : Step) : Prop where
  id : s.id = t.id
  kind : s.kind = t.kind
  actor : s.actor.getD "" = t.actor.getD ""
  successor : s.next.filter (· ≠ "") = t.next.filter (· ≠ "")
  onTrue : s.branches.onTrue = t.branches.onTrue
  onFalse : s.branches.onFalse = t.branches.onFalse

theorem shownLike_of_shown_eq {s t : Step} (h : s.shown = t.shown) : s.ShownLike t := by
  obtain ⟨hid, hkind, hactor, hnext, -, hbranches⟩ := Step.mk.inj h
  obtain ⟨honTrue, honFalse⟩ := Branches.mk.inj hbranches
  exact ⟨hid, hkind, Option.some.inj hactor, hnext, honTrue, honFalse⟩

def edgeTo (s : Step) (label : String) (target : Option String) : List FlowEdge :=
  (target.map fun target => ⟨s.id, target, label⟩).toList

theorem edges_eq_append (s : Step) :
    s.edges = s.edgeTo "" (s.next.filter (· ≠ "")) ++
      (s.edgeTo "then" s.branches.onTrue ++ s.edgeTo "else" s.branches.onFalse) := by
  rw [edges, Process.branches_toList, Branches.get?, Branches.get?]
  cases s.branches.onTrue <;> cases s.branches.onFalse <;> rfl

/-- An edge, if there is one, is among those under a label if and only if the label is its own. -/
theorem filter_edgeTo (s : Step) (own label : String) (target : Option String) :
    (s.edgeTo own target).filter (fun e => e.label = label) =
      if own = label then s.edgeTo own target else [] := by
  cases target with
  | none => simp [edgeTo]
  | some target => simp [edgeTo, List.filter_cons]

/-- Of the edges that leave a step only that of its successor has the empty label. -/
theorem filter_edges_next (s : Step) :
    s.edges.filter (fun e => e.label = "") = s.edgeTo "" (s.next.filter (· ≠ "")) := by
  rw [edges_eq_append, List.filter_append, List.filter_append]
  simp [filter_edgeTo]

theorem filter_edges_then (s : Step) :
    s.edges.filter (fun e => e.label = "then") = s.edgeTo "then" s.branches.onTrue := by
  rw [edges_eq_append, List.filter_append, List.filter_append]
  simp [filter_edgeTo]

theorem filter_edges_else (s : Step) :
    s.edges.filter (fun e => e.label = "else") = s.edgeTo "else" s.branches.onFalse := by
  rw [edges_eq_append, List.filter_append, List.filter_append]
  simp [filter_edgeTo]

end Step

/-- Edges that leave steps with other ids are not among those of an id. -/
theorem filter_edges_eq_nil {steps : List Step} {id : String} (other : ∀ s ∈ steps, s.id ≠ id)
    (label : String) :
    (steps.flatMap Step.edges).filter (fun e => e.source = id ∧ e.label = label) = [] := by
  rw [List.filter_eq_nil_iff]
  intro e he
  obtain ⟨s, hs, hedge⟩ := List.mem_flatMap.1 he
  have hsource : e.source ≠ id := Step.source_of_mem_edges hedge ▸ other s hs
  simp [hsource]

namespace Process

variable {p : Process}

/-- Where ids are distinct, the edges of an id are those that leave its step. -/
theorem edgesAt_eq_filter (nodup : p.ids.Nodup) {s : Step} (hs : s ∈ p.steps) (label : String) :
    p.flowchart.edgesAt s.id label = s.edges.filter fun e => e.label = label := by
  obtain ⟨before, after, here⟩ := List.append_of_mem hs
  rw [ids, here, List.map_append, List.map_cons, List.nodup_append, List.nodup_cons] at nodup
  obtain ⟨-, ⟨hlater, -⟩, hearlier⟩ := nodup
  have hbefore : ∀ u ∈ before, u.id ≠ s.id := fun u hu =>
    hearlier u.id (List.mem_map_of_mem hu) s.id List.mem_cons_self
  have hafter : ∀ u ∈ after, u.id ≠ s.id := fun u hu heq => hlater (heq ▸ List.mem_map_of_mem hu)
  have hown : s.edges.filter (fun e => e.source = s.id ∧ e.label = label) =
      s.edges.filter fun e => e.label = label := by
    apply List.filter_congr
    intro e he
    simp [Step.source_of_mem_edges he]
  rw [Flowchart.edgesAt, flowchart, here, List.flatMap_append, List.flatMap_cons,
    List.filter_append, List.filter_append, filter_edges_eq_nil hbefore, filter_edges_eq_nil hafter,
    hown, List.nil_append, List.append_nil]

theorem target?_of_edgesAt {f : Flowchart} {s : Step} {label : String} {target : Option String}
    (h : f.edgesAt s.id label = s.edgeTo label target) : f.target? s.id label = target := by
  rw [Flowchart.target?, h]
  cases target <;> rfl

/-- The edges that leave the place of a step are those of the step, each under its label. -/
theorem edgesAt_step (nodup : p.ids.Nodup) {s : Step} (hs : s ∈ p.steps) :
    p.flowchart.edgesAt s.id "" = s.edgeTo "" (s.next.filter (· ≠ "")) ∧
      p.flowchart.edgesAt s.id "then" = s.edgeTo "then" s.branches.onTrue ∧
      p.flowchart.edgesAt s.id "else" = s.edgeTo "else" s.branches.onFalse := by
  rw [edgesAt_eq_filter nodup hs, edgesAt_eq_filter nodup hs, edgesAt_eq_filter nodup hs]
  exact ⟨s.filter_edges_next, s.filter_edges_then, s.filter_edges_else⟩

/-- The node of a step, with the edges that leave it, shows the step. -/
theorem stepAt_node (nodup : p.ids.Nodup) {s : Step} (hs : s ∈ p.steps) :
    p.flowchart.stepAt s.node = s.shown := by
  obtain ⟨hnext, hthen, helse⟩ := edgesAt_step nodup hs
  simp only [Flowchart.stepAt, Step.node, Step.shown, target?_of_edgesAt hnext,
    target?_of_edgesAt hthen, target?_of_edgesAt helse]

theorem steps_flowchart (nodup : p.ids.Nodup) : p.flowchart.steps = p.steps.map Step.shown := by
  have hnodes : p.flowchart.nodes = p.steps.map Step.node := rfl
  rw [Flowchart.steps, hnodes, List.map_map]
  exact List.map_congr_left fun s hs => stepAt_node nodup hs

/-- The flowchart of an accepted process loses nothing of it but the conditions. The successor of
a step is the target of the only edge with its id and the empty label, a branch that of the only
edge with its id and the label of the branch, and what is absent has no edge. So the steps can be
read back from the flowchart, and a process with the same flowchart has, position by position,
steps that agree in all that is shown. -/
theorem flowchart_recovers_steps {p : Process} (h : p.check = .ok ()) :
    (∀ s ∈ p.steps,
      p.flowchart.edgesAt s.id "" =
        ((s.next.filter (· ≠ "")).map fun target => ⟨s.id, target, ""⟩).toList ∧
      p.flowchart.edgesAt s.id "then" =
        (s.branches.onTrue.map fun target => ⟨s.id, target, "then"⟩).toList ∧
      p.flowchart.edgesAt s.id "else" =
        (s.branches.onFalse.map fun target => ⟨s.id, target, "else"⟩).toList) ∧
    p.flowchart.steps = p.steps.map Step.shown ∧
    ∀ q : Process, q.flowchart = p.flowchart → List.Forall₂ Step.ShownLike q.steps p.steps := by
  have nodup : p.ids.Nodup := (wellFormed_of_check h).distinct
  refine ⟨fun s hs => edgesAt_step nodup hs, steps_flowchart nodup, ?_⟩
  intro q hq
  have hids : q.ids = p.ids := by rw [← q.map_id_nodes, hq, p.map_id_nodes]
  have hshown : q.steps.map Step.shown = p.steps.map Step.shown := by
    rw [← steps_flowchart nodup, ← steps_flowchart (hids ▸ nodup), hq]
  have hsteps : List.Forall₂ (· = ·) (q.steps.map Step.shown) (p.steps.map Step.shown) := by
    rw [hshown, List.forall₂_eq_eq_eq]
  rw [List.forall₂_map_left_iff, List.forall₂_map_right_iff] at hsteps
  exact hsteps.imp fun s t => Step.shownLike_of_shown_eq

/-- A step that leads to itself, and a decision both of whose branches lead to one step. -/
def loopProcess : Process where
  name := "loop"
  steps :=
    [{ id := "wait", kind := .task, actor := some "clerk", next := some "wait" },
     { id := "ask", kind := .decision, actor := some "", branches := ⟨some "end", some "end"⟩ },
     { id := "end", kind := .finish, next := some "" }]

theorem flowchart_recovers_steps_loop :
    loopProcess.check = .ok () ∧
    loopProcess.flowchart.edgesAt "wait" "" = [⟨"wait", "wait", ""⟩] ∧
    loopProcess.flowchart.edgesAt "ask" "then" = [⟨"ask", "end", "then"⟩] ∧
    loopProcess.flowchart.edgesAt "ask" "else" = [⟨"ask", "end", "else"⟩] ∧
    loopProcess.flowchart.edgesAt "end" "" = [] ∧
    loopProcess.flowchart.steps =
      [{ id := "wait", kind := .task, actor := some "clerk", next := some "wait" },
       { id := "ask", kind := .decision, actor := some "", branches := ⟨some "end", some "end"⟩ },
       { id := "end", kind := .finish, actor := some "" }] ∧
    List.Forall₂ Step.ShownLike
      [{ id := "wait", kind := .task, actor := some "clerk", next := some "wait" },
       { id := "ask", kind := .decision, branches := ⟨some "end", some "end"⟩,
         condition := some "x" },
       { id := "end", kind := .finish }] loopProcess.steps := by
  have hcheck : loopProcess.check = .ok () := by decide
  obtain ⟨hedges, hsteps, halike⟩ := flowchart_recovers_steps hcheck
  obtain ⟨hwait, -, -⟩ := hedges loopProcess.steps[0] (by decide)
  obtain ⟨-, hthen, helse⟩ := hedges loopProcess.steps[1] (by decide)
  obtain ⟨hend, -, -⟩ := hedges loopProcess.steps[2] (by decide)
  exact ⟨hcheck, hwait, hthen, helse, hend, hsteps, halike ⟨"", _⟩ (by decide)⟩

end Process

end Workflow
