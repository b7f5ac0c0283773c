import Workflow.Proofs.Outline.Checked
import Workflow.Proofs.Outline.Truncation
/-!
The reader of blocks step by step, as one that holds the lines, its position in them, and what waits
for the value that is read now. An item with a key on its line is not taken: its line is written
again, without the hyphen, and read as the first line of a mapping. So a step does one of three
things. It takes the line at the position, or makes that line shorter, or leaves both alone and gets
nearer to a value. A count of what is left to do falls with each of them, whatever the lines are.
-/

namespace Workflow.Outline

inductive BlockCall
  | block (indent : Nat)
  | mapping (indent : Nat) (read : List (Tree × Tree))
  | nested (indent : Nat)
  | sequence (indent : Nat) (read : List Tree)

/-- What waits for a value: an entry whose key was read from a line, or an item. -/
inductive Waiting
  | entry (indent : Nat) (read : List (Tree × Tree)) (line : Line) (key : Tree)
  | item (indent : Nat) (read : List Tree)

inductive Phase
  | call (call : BlockCall)
  | done (value : Tree)
  | failed (fault : Fault)

structure Machine where
  lines : List Line
  position : Nat
  /-- What waits, the innermost first. -/
  waiting : List Waiting
  phase : Phase

namespace Machine

def peek (m : Machine) : Option Line :=
  m.lines[m.position]?

def turnTo (m : Machine) (phase : Phase) : Machine :=
  { m with phase }

def take (m : Machine) (w : Waiting) : Machine :=
  { m with position := m.position + 1, waiting := w :: m.waiting }

def rewrite (m : Machine) (line : Line) : Checked Machine :=
  if m.position < m.lines.length then some { m with lines := m.lines.set m.position line } else none

def toScalar (line : Line) (text : List Char) : Phase :=
  match scalar text with
  | .ok value => .done value
  | .error problem => .failed (line.fault problem)

def readKey (m : Machine) (indent : Nat) (read : List (Tree × Tree)) (line : Line) :
    Checked Machine := do
  match ← readEntryAt line.text with
  | .error problem => return m.turnTo (.failed (line.fault problem))
  | .ok entry =>
    let value := if entry.rest.isEmpty then .call (.nested indent) else toScalar line entry.rest
    return (m.take (.entry indent read line entry.key)).turnTo value

/-- What stands below a lone hyphen. -/
def below (m : Machine) (indent : Nat) : Phase :=
  match m.peek with
  | some next => if next.indent > indent then .call (.block next.indent) else .done .null
  | none => .done .null

def readItem (m : Machine) (indent : Nat) (read : List Tree) (line : Line) : Checked Machine := do
  let text ← itemTextAt line.text
  if text.isEmpty then
    let m := m.take (.item indent read)
    return m.turnTo (m.below indent)
  else
    match ← colonOffset text with
    | none => return (m.take (.item indent read)).turnTo (toScalar line text)
    | some _ =>
      let column := line.indent + (← lessOctets line.text text)
      let m ← m.rewrite ⟨line.number, column, text⟩
      return ⟨m.lines, m.position, .item indent read :: m.waiting, .call (.mapping column [])⟩

def enter (m : Machine) : BlockCall → Checked Machine
  | .block indent =>
    match m.peek with
    | some line =>
      if isItem line.text then return m.turnTo (.call (.sequence indent []))
      else return m.turnTo (.call (.mapping indent []))
    | none => return m.turnTo (.call (.mapping indent []))
  | .mapping indent read =>
    match m.peek with
    | none => return m.turnTo (.done (.mapping read))
    | some line =>
      if line.indent < indent then return m.turnTo (.done (.mapping read))
      else if line.indent > indent then
        return m.turnTo (.failed (line.fault .unexpectedIndentation))
      else if isItem line.text then return m.turnTo (.failed (line.fault .itemForKey))
      else m.readKey indent read line
  | .nested indent =>
    match m.peek with
    | none => return m.turnTo (.done .null)
    | some line =>
      if line.indent > indent then return m.turnTo (.call (.block line.indent))
      else if line.indent = indent ∧ isItem line.text then
        return m.turnTo (.call (.sequence indent []))
      else return m.turnTo (.done .null)
  | .sequence indent read =>
    match m.peek with
    | none => return m.turnTo (.done (.sequence read))
    | some line =>
      if line.indent = indent ∧ isItem line.text then m.readItem indent read line
      else return m.turnTo (.done (.sequence read))

def resume (m : Machine) (value : Tree) : Machine :=
  match m.waiting with
  | [] => m
  | .entry indent read line key :: waiting =>
    let phase :=
      if Tree.hasKey read key then .failed (line.fault (.duplicateKey (keyText key)))
      else .call (.mapping indent (read ++ [(key, value)]))
    { m with waiting, phase }
  | .item indent read :: waiting =>
    { m with waiting, phase := .call (.sequence indent (read ++ [value])) }

/-- One step. Where nothing is left to do, nothing changes. -/
def step (m : Machine) : Checked Machine :=
  match m.phase with
  | .call call => m.enter call
  | .done value => some (m.resume value)
  | .failed _ => some m

def run : Nat → Machine → Checked Machine
  | 0, m => some m
  | n + 1, m => m.step.bind (run n)

def Halted (m : Machine) : Prop :=
  match m.phase with
  | .call _ => False
  | .done _ => m.waiting = []
  | .failed _ => True

section reading

variable {m : Machine} {indent : Nat} {line : Line}

theorem readKey_of_error {read : List (Tree × Tree)} {problem : Problem}
    (h : readEntry line.text = .error problem) :
    m.readKey indent read line = some (m.turnTo (.failed (line.fault problem))) := by
  rw [readKey, readEntryAt_eq, h]
  rfl

theorem readKey_of_ok {read : List (Tree × Tree)} {entry : Entry}
    (h : readEntry line.text = .ok entry) :
    m.readKey indent read line =
      some ((m.take (.entry indent read line entry.key)).turnTo
        (if entry.rest.isEmpty then .call (.nested indent) else toScalar line entry.rest)) := by
  rw [readKey, readEntryAt_eq, h]
  rfl

variable {read : List Tree}

theorem readItem_of_bare (hyphen : isItem line.text = true) (bare : line.itemText = []) :
    m.readItem indent read line =
      some ((m.take (.item indent read)).turnTo ((m.take (.item indent read)).below indent)) := by
  rw [readItem, itemTextAt_eq hyphen, bare]
  rfl

theorem readItem_of_plain (hyphen : isItem line.text = true) (filled : line.itemText ≠ [])
    (plain : cutKey line.itemText = none) :
    m.readItem indent read line =
      some ((m.take (.item indent read)).turnTo (toScalar line line.itemText)) := by
  have hoffset : colonOffset line.itemText = some none := by
    rw [colonOffset_eq, plain, Option.map_none]
  rw [readItem, itemTextAt_eq hyphen]
  dsimp only [Option.bind_eq_bind, Option.bind_some]
  rw [if_neg (List.isEmpty_iff.not.2 filled), hoffset]
  rfl

/-- The line that is written again is there, and its new column is the one of the text behind the
hyphen. -/
theorem readItem_of_colon (here : m.peek = some line) (hyphen : isItem line.text = true)
    (colon : (cutKey line.itemText).isSome = true) :
    m.readItem indent read line = some ⟨m.lines.set m.position line.unfold, m.position,
      .item indent read :: m.waiting, .call (.mapping line.unfold.indent [])⟩ := by
  obtain ⟨cut, hcut⟩ := Option.isSome_iff_exists.1 colon
  have hoffset : colonOffset line.itemText = some (some (octets cut.1).length) := by
    rw [colonOffset_eq, hcut, Option.map_some]
  have filled : ¬line.itemText.isEmpty = true := by
    rw [List.isEmpty_iff]
    intro hnil
    rw [hnil] at hcut
    exact nomatch hcut
  -- The line is written again where it was read, which is within the lines.
  have hwithin : m.position < m.lines.length := (List.getElem?_eq_some_iff.1 here).1
  rw [readItem, itemTextAt_eq hyphen]
  dsimp only [Option.bind_eq_bind, Option.bind_some]
  rw [if_neg filled, hoffset]
  dsimp only [Option.bind_some]
  rw [lessOctets_itemText hyphen]
  dsimp only [Option.bind_some]
  rw [rewrite, if_pos hwithin]
  rfl

end reading

/-- How many steps a phase may be away from a value or the next line. -/
@[simp]
def weight : Phase → Nat
  | .call (.nested _) => 3
  | .call (.block _) => 2
  | .call (.mapping ..) => 1
  | .call (.sequence ..) => 1
  | .done _ => 0
  | .failed _ => 0

inductive Does (m : Machine) : Machine → Prop
  | turns {phase : Phase} (nearer : weight phase < weight m.phase) : Does m (m.turnTo phase)
  | takes {line : Line} {w : Waiting} {phase : Phase} (here : m.peek = some line)
      (last : weight m.phase = 1)
      (near : weight phase ≤ 3) : Does m ((m.take w).turnTo phase)
  | shortens {line : Line} {w : Waiting} (here : m.peek = some line)
      (hyphen : isItem line.text = true)
      (last : weight m.phase = 1) :
      Does m ⟨m.lines.set m.position line.unfold, m.position, w :: m.waiting,
        .call (.mapping line.unfold.indent [])⟩
  | resumes {w : Waiting} {waiting : List Waiting} {phase : Phase}
      (waits : m.waiting = w :: waiting)
      (near : weight phase ≤ 1) : Does m { m with waiting, phase }

theorem weight_toScalar (line : Line) (text : List Char) : weight (toScalar line text) = 0 := by
  rw [toScalar]
  cases scalar text <;> rfl

theorem weight_below_le (m : Machine) (indent : Nat) : weight (m.below indent) ≤ 3 := by
  rw [below]
  split
  · split <;> simp
  · simp

section steps

variable {m : Machine} {indent : Nat} {line : Line}

theorem readKey_does {read : List (Tree × Tree)} (hphase : m.phase = .call (.mapping indent read))
    (here : m.peek = some line) : ∃ m', m.readKey indent read line = some m' ∧ m.Does m' := by
  have hlast : weight m.phase = 1 := by rw [hphase]; rfl
  cases hentry : readEntry line.text with
  | error problem => exact ⟨_, readKey_of_error hentry, .turns (by rw [hlast]; exact Nat.one_pos)⟩
  | ok entry =>
    refine ⟨_, readKey_of_ok hentry, .takes here hlast ?_⟩
    split
    · exact Nat.le_refl 3
    · rw [weight_toScalar]
      exact Nat.zero_le 3

theorem readItem_does {read : List Tree} (hphase : m.phase = .call (.sequence indent read))
    (here : m.peek = some line) (hyphen : isItem line.text = true) :
    ∃ m', m.readItem indent read line = some m' ∧ m.Does m' := by
  have hlast : weight m.phase = 1 := by rw [hphase]; rfl
  by_cases bare : line.itemText = []
  · exact ⟨_, readItem_of_bare hyphen bare, .takes here hlast (weight_below_le _ _)⟩
  cases hcut : cutKey line.itemText with
  | none =>
    refine ⟨_, readItem_of_plain hyphen bare hcut, .takes here hlast ?_⟩
    rw [weight_toScalar]
    exact Nat.zero_le 3
  | some cut =>
    exact ⟨_, readItem_of_colon here hyphen (by rw [hcut]; rfl), .shortens here hyphen hlast⟩

/-- Whatever is called for, the first step of the call succeeds and is one of those that a step can
do. -/
theorem enter_does {call : BlockCall} (hphase : m.phase = .call call) :
    ∃ m', m.enter call = some m' ∧ m.Does m' := by
  have turns {phase : Phase} (h : weight phase < weight (.call call)) :
      ∃ m', some (m.turnTo phase) = some m' ∧ m.Does m' :=
        ⟨_, rfl, .turns (by rw [hphase]; exact h)⟩
  -- All branches turn to a phase of less weight but two, which read a line.
  cases call with
  | block indent =>
    rw [enter]
    split
    · split <;> exact turns (by simp)
    · exact turns (by simp)
  | mapping indent read =>
    rw [enter]
    split
    · exact turns (by simp)
    · split
      · exact turns (by simp)
      split
      · exact turns (by simp)
      split
      · exact turns (by simp)
      · exact readKey_does hphase ‹_›
  | nested indent =>
    rw [enter]
    split
    · exact turns (by simp)
    · split
      · exact turns (by simp)
      split <;> exact turns (by simp)
  | sequence indent read =>
    rw [enter]
    split
    · exact turns (by simp)
    · rename_i here
      split
      · rename_i hitem
        exact readItem_does hphase here hitem.2
      · exact turns (by simp)

/-- No step is out of range, and one is made wherever something is left to do. -/
theorem step_does (m : Machine) :
    ∃ m', m.step = some m' ∧ (m.Halted ∧ m' = m ∨ ¬m.Halted ∧ m.Does m') := by
  cases hphase : m.phase with
  | call call =>
    obtain ⟨m', hstep, hdoes⟩ := enter_does hphase
    refine ⟨m', ?_, .inr ⟨?_, hdoes⟩⟩
    · rw [step, hphase]
      exact hstep
    · rw [Halted, hphase]
      exact not_false
  | failed fault =>
    refine ⟨m, ?_, .inl ⟨?_, rfl⟩⟩
    · rw [step, hphase]
    · rw [Halted, hphase]
      exact trivial
  | done value =>
    have hstep : m.step = some (m.resume value) := by rw [step, hphase]
    refine ⟨_, hstep, ?_⟩
    rw [Halted, hphase]
    dsimp only
    -- A value is the end only where nothing waits for it.
    cases hwaiting : m.waiting with
    | nil =>
      refine .inl ⟨rfl, ?_⟩
      rw [resume, hwaiting]
    | cons w waiting =>
      refine .inr ⟨List.cons_ne_nil w waiting, ?_⟩
      rw [resume, hwaiting]
      cases w with
      | entry indent read line key =>
        refine .resumes hwaiting ?_
        split <;> simp
      | item indent read => exact .resumes hwaiting (by simp)

end steps

end Machine

end Workflow.Outline
