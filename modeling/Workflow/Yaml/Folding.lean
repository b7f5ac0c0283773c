import Workflow.Yaml.Cursor

namespace Workflow.Yaml

structure Gap where
  /-- Whether it holds a line break. -/
  broken : Bool := false
  /-- The blanks, if there is no break; the last one first. -/
  blanks : List Char := []
  /-- The first break; an escaped one is left out. -/
  leading : Option Char := none
  /-- The breaks after the first, the last one first. -/
  trailing : List Char := []

namespace Gap

def escapedBreak : Gap :=
  { broken := true }

def addBlank (g : Gap) (c : Char) : Gap :=
  if g.broken then g else { g with blanks := c :: g.blanks }

def addBreak (g : Gap) (c : Char) : Gap :=
  if g.broken then { g with trailing := c :: g.trailing }
  else { broken := true, leading := some c }

def foldBreaks (leading : Option Char) (trailing : List Char) : List Char :=
  match leading with
  | some '\n' => if trailing.isEmpty then [' '] else trailing
  | some c => c :: trailing
  | none => trailing

def text (g : Gap) : List Char :=
  if g.broken then foldBreaks g.leading g.trailing.reverse else g.blanks.reverse

end Gap

/-- Takes the gap that begins here. A tab after a break and to the left of column `indent` is an
error. -/
def takeGap (indent : Nat) : (fuel : Nat) → Gap → Cursor → Option (Gap × Cursor)
  | 0, _, _ => none
  | fuel + 1, g, c =>
    match c.rest with
    | [] => some (g, c)
    | x :: _ =>
      if isBlank x then
        if g.broken && c.column < indent && x == '\t' then none
        else takeGap indent fuel (g.addBlank x) (c.skip 1)
      else if isBreak x then takeGap indent fuel (g.addBreak x) c.nextLine
      else some (g, c)

end Workflow.Yaml
