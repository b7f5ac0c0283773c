import Workflow.Outline.Key
/-!
Blocks of an outline. Which lines belong to a block is decided by their columns alone: a mapping
takes the lines at its own column, a key without a value the deeper lines after it, or the items at
its own column.
-/

namespace Workflow.Outline

abbrev Result (α : Type) := Except Fault (α × List Line)

def Line.fault (l : Line) (problem : Problem) : Fault :=
  ⟨l.number, problem⟩

def Line.lift {α : Type} (l : Line) : Except Problem α → Except Fault α
  | .ok a => .ok a
  | .error problem => .error (l.fault problem)

def Line.itemText (l : Line) : List Char :=
  dropSpaces (l.text.drop 1)

/-- An item without its hyphen, as a line of its own at the column of its text. -/
def Line.unfold (l : Line) : Line :=
  { l with indent := l.indent + (l.text.length - l.itemText.length), text := l.itemText }

mutual

def block : (fuel : Nat) → (indent : Nat) → List Line → Result Tree
  | 0, _, lines => .ok (.null, lines)
  | fuel + 1, indent, lines =>
    match lines with
    | [] => .ok (.mapping [], [])
    | line :: rest =>
      if isItem line.text then
        match sequence fuel indent [] (line :: rest) with
        | .ok (items, rest) => .ok (.sequence items, rest)
        | .error fault => .error fault
      else
        match mapping fuel indent [] (line :: rest) with
        | .ok (entries, rest) => .ok (.mapping entries, rest)
        | .error fault => .error fault

/-- Reads the entries of a mapping at a column; `read` are those before. A key that is there already
is a fault once its value is read. -/
def mapping : (fuel : Nat) → (indent : Nat) → (read : List (Tree × Tree)) → List Line →
    Result (List (Tree × Tree))
  | 0, _, read, lines => .ok (read, lines)
  | fuel + 1, indent, read, lines =>
    match lines with
    | [] => .ok (read, [])
    | line :: rest =>
      if line.indent < indent then .ok (read, line :: rest)
      else if line.indent > indent then .error (line.fault .unexpectedIndentation)
      else if isItem line.text then .error (line.fault .itemForKey)
      else
        match line.lift (readEntry line.text) with
        | .error fault => .error fault
        | .ok entry =>
          match value fuel indent line entry.rest rest with
          | .error fault => .error fault
          | .ok (value, rest) =>
            if Tree.hasKey read entry.key then
              .error (line.fault (.duplicateKey (keyText entry.key)))
            else mapping fuel indent (read ++ [(entry.key, value)]) rest

def value : (fuel : Nat) → (indent : Nat) → Line → (text : List Char) → List Line → Result Tree
  | 0, _, _, _, lines => .ok (.null, lines)
  | fuel + 1, indent, line, text, lines =>
    if text.isEmpty then nested fuel indent lines
    else
      match line.lift (scalar text) with
      | .ok value => .ok (value, lines)
      | .error fault => .error fault

/-- Reads the value of a key at a column from the lines below it: a deeper block, the items at the
same column, or null. -/
def nested : (fuel : Nat) → (indent : Nat) → List Line → Result Tree
  | 0, _, lines => .ok (.null, lines)
  | fuel + 1, indent, lines =>
    match lines with
    | [] => .ok (.null, [])
    | line :: rest =>
      if line.indent > indent then block fuel line.indent (line :: rest)
      else if line.indent = indent ∧ isItem line.text then
        match sequence fuel indent [] (line :: rest) with
        | .ok (items, rest) => .ok (.sequence items, rest)
        | .error fault => .error fault
      else .ok (.null, line :: rest)

def sequence : (fuel : Nat) → (indent : Nat) → (read : List Tree) → List Line → Result (List Tree)
  | 0, _, read, lines => .ok (read, lines)
  | fuel + 1, indent, read, lines =>
    match lines with
    | [] => .ok (read, [])
    | line :: rest =>
      if line.indent = indent ∧ isItem line.text then
        match item fuel line rest with
        | .ok (value, rest) => sequence fuel indent (read ++ [value]) rest
        | .error fault => .error fault
      else .ok (read, line :: rest)

/-- Reads one item: the block below a lone hyphen, a mapping whose first key stands behind the
hyphen, or a scalar. -/
def item : (fuel : Nat) → Line → List Line → Result Tree
  | 0, _, lines => .ok (.null, lines)
  | fuel + 1, line, lines =>
    if line.itemText.isEmpty then
      match lines with
      | [] => .ok (.null, [])
      | next :: rest =>
        if next.indent > line.indent then block fuel next.indent (next :: rest)
        else .ok (.null, next :: rest)
    else if (cutKey line.itemText).isSome then
      match mapping fuel line.unfold.indent [] (line.unfold :: lines) with
      | .ok (entries, rest) => .ok (.mapping entries, rest)
      | .error fault => .error fault
    else
      match line.lift (scalar line.itemText) with
      | .ok value => .ok (value, lines)
      | .error fault => .error fault

end

/-- Fuel for reading that many lines. Every line is taken once, and at most six calls lie between
two lines that are taken. -/
def fuelFor (lines : List Line) : Nat :=
  6 * lines.length + 6

def readBlock (lines : List Line) : Except Fault Tree :=
  let indent :=
    match lines with
    | line :: _ => line.indent
    | [] => 0
  match mapping (fuelFor lines) indent [] lines with
  | .error fault => .error fault
  | .ok (entries, []) => .ok (.mapping entries)
  | .ok (_, line :: _) => .error (line.fault .unexpectedIndentation)

end Workflow.Outline
