import Workflow.Json
import Workflow.Process

namespace Workflow

structure FlowNode where
  id : String
  kind : StepKind
  /-- Empty if the step has no actor. -/
  actor : String
deriving DecidableEq, Repr

structure FlowEdge where
  source : String
  target : String
  /-- Empty for an unconditional edge, the name of the branch otherwise. -/
  label : String
deriving DecidableEq, Repr

structure Flowchart where
  nodes : List FlowNode
  edges : List FlowEdge
deriving DecidableEq, Repr

namespace Step

def node (s : Step) : FlowNode :=
  ⟨s.id, s.kind, s.actor.getD ""⟩

/-- The edges that leave a step: its successor, then its branches. -/
def edges (s : Step) : List FlowEdge :=
  (s.successor?.map fun target => FlowEdge.mk s.id target "").toList ++
    s.branches.toList.map fun (label, target) => ⟨s.id, target, label.name⟩

end Step

def Process.flowchart (p : Process) : Flowchart :=
  ⟨p.steps.map Step.node, p.steps.flatMap Step.edges⟩

def FlowNode.toJson (n : FlowNode) : Json :=
  .object [("id", .string n.id), ("type", .string n.kind.name), ("actor", .string n.actor)]

def FlowEdge.toJson (e : FlowEdge) : Json :=
  .object [("from", .string e.source), ("to", .string e.target), ("label", .string e.label)]

def Flowchart.toJson (f : Flowchart) : Json :=
  .object [("nodes", .array (f.nodes.map FlowNode.toJson)),
    ("edges", .array (f.edges.map FlowEdge.toJson))]

end Workflow
