import Workflow.Yaml.Token

namespace Workflow.Yaml

abbrev Tag := Octets

structure Properties where
  anchor : Option Nat := none
  tag : Option Tag := none

inductive Node
  | aliasOf (anchor : Nat)
  | scalar (properties : Properties) (plain : Bool) (text : List Char)
  | sequence (properties : Properties) (items : List Node)
  | mapping (properties : Properties) (entries : List (Node × Node))

namespace Node

/-- The node of a place where nothing is written. -/
def empty : Node :=
  scalar {} true []

mutual

/-- The number of events that tell of a node: one for a scalar or an alias, a start and an end for a
collection. -/
def eventCount : Node → Nat
  | aliasOf _ => 1
  | scalar .. => 1
  | sequence _ items => 2 + eventCountItems items
  | mapping _ entries => 2 + eventCountEntries entries

def eventCountItems : List Node → Nat
  | [] => 0
  | x :: xs => x.eventCount + eventCountItems xs

def eventCountEntries : List (Node × Node) → Nat
  | [] => 0
  | (k, v) :: xs => k.eventCount + v.eventCount + eventCountEntries xs

end

mutual

/-- The anchors of a document with their nodes, in the order in which the nodes begin. -/
def anchors : Node → List (Nat × Node)
  | aliasOf _ => []
  | scalar p plain text => (p.anchor.map (·, scalar p plain text)).toList
  | sequence p items => (p.anchor.map (·, sequence p items)).toList ++ anchorsOfItems items
  | mapping p entries => (p.anchor.map (·, mapping p entries)).toList ++ anchorsOfEntries entries

def anchorsOfItems : List Node → List (Nat × Node)
  | [] => []
  | x :: xs => x.anchors ++ anchorsOfItems xs

def anchorsOfEntries : List (Node × Node) → List (Nat × Node)
  | [] => []
  | (k, v) :: xs => k.anchors ++ v.anchors ++ anchorsOfEntries xs

end

end Node

structure Document where
  root : Option Node

end Workflow.Yaml
