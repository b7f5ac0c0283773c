namespace Workflow.Text

/-- A set of characters, given by the codes at which it begins and ends, in ascending order; at the
first of them it begins. -/
structure CodeSet where
  edges : List Nat

/-- Whether a character lies in a set: an odd number of edges are not above it. -/
def CodeSet.contains (s : CodeSet) (c : Char) : Bool :=
  (s.edges.takeWhile (· ≤ c.toNat)).length % 2 = 1

end Workflow.Text
