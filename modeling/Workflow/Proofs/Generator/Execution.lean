import Workflow.Generator
import Workflow.Simulation
/-!
What generated code does when it runs, for the lines that generators write. A text is executed line
by line: each line is read as one command, and a command moves a state that knows the variable of
the successor and the pairs yielded so far. A line outside the fragment stops the execution without
a result.
-/

namespace Workflow.Generator

def endsLine (c : Char) : Bool :=
  c == '\n' || c == '\r'

def codeLines (text : String) : List (List Char) :=
  text.toList.splitOnP endsLine

def dropWord : (word s : List Char) → Option (List Char)
  | [], s => some s
  | a :: w, b :: s => if a = b then dropWord w s else none
  | _ :: _, [] => none

def unescape? (c : Char) : Option Char :=
  if c = '\\' ∨ c = '\'' ∨ c = '"' then some c
  else if c = 'n' then some '\n'
  else if c = 'r' then some '\r'
  else none

def closeLiteral (delimiter : Char) : List Char → Option (List Char × List Char)
  | [] => none
  | '\\' :: [] => none
  | '\\' :: c :: r =>
    match unescape? c, closeLiteral delimiter r with
    | some x, some (text, rest) => some (x :: text, rest)
    | _, _ => none
  | c :: r =>
    if c = delimiter then some ([], r)
    else (closeLiteral delimiter r).map fun (text, rest) => (c :: text, rest)

def readLiteral (delimiter : Char) (s : List Char) : Option (String × List Char) :=
  match dropWord [delimiter] s with
  | some r => (closeLiteral delimiter r).map fun (text, rest) => (String.ofList text, rest)
  | none => none

/-- Reads the literal of a target between single quotes, or the word for no target. -/
def readTarget (null : String) (s : List Char) : Option (Option String × List Char) :=
  match dropWord null.toList s with
  | some r => some (none, r)
  | none => (readLiteral '\'' s).map fun (id, rest) => (some id, rest)

def readTest (falsehood opening closing : String) (s : List Char) :
    Option (Option String × List Char) :=
  match dropWord falsehood.toList s with
  | some r => some (none, r)
  | none =>
    match (dropWord opening.toList s).bind (readLiteral '"') with
    | some (condition, r) => (dropWord closing.toList r).map fun rest => (some condition, rest)
    | none => none

/-- What one line says. The test of a decision is its condition, or `none` for the false
constant. -/
inductive Command
  | idle
  | declare (target : Option String)
  | assign (target : Option String)
  | ifOpen (test : Option String)
  | elseOpen
  | close
  | emit (step : String)
  | halt
deriving DecidableEq

/-- A form of lines: two words and a part between them that says what the line commands. -/
structure Form where
  before : String
  after : String
  part : List Char → Option (Command × List Char)

namespace Form

def word (w : String) (c : Command) : Form :=
  ⟨w, "", fun s => some (c, s)⟩

def target (before null after : String) (command : Option String → Command) : Form :=
  ⟨before, after, fun s => (readTarget null s).map fun (t, rest) => (command t, rest)⟩

def step (before after : String) : Form :=
  ⟨before, after, fun s => (readLiteral '\'' s).map fun (id, rest) => (.emit id, rest)⟩

def decision (before falsehood opening closing after : String) : Form :=
  ⟨before, after, fun s =>
    (readTest falsehood opening closing s).map fun (test, rest) => (.ifOpen test, rest)⟩

def read (f : Form) (s : List Char) : Option Command :=
  match (dropWord f.before.toList s).bind f.part with
  | some (c, rest) => if rest = f.after.toList then some c else none
  | none => none

end Form

structure Language where
  /-- The lines up to the head of the function. -/
  head : List String
  /-- Whether the depth of a line says to which block it belongs; otherwise braces close blocks. -/
  indented : Bool
  /-- The sign that begins a comment. -/
  comment : String
  /-- The forms of the other lines; the first that fits counts. -/
  forms : List Form

namespace Language

def python : Language where
  head := ["def run(context):"]
  indented := true
  comment := "#"
  forms :=
    [.word "else:" .elseOpen, .word "return" .halt, .target "next_step = " "None" "" .assign,
      .decision "if " "False" "eval(" ", \x7b\x7d, context)" ":", .step "yield " ", next_step"]

/-- JavaScript, as far as generators write it. The helper in front of the function makes `evaluate`
the evaluation of a condition. -/
def javascript : Language where
  head :=
    ["function evaluate(expression, context) \x7b",
     "    return Function(...Object.keys(context), \"return (\" + expression + \");\")(...Object.values(context));",
     "\x7d",
     "",
     "function* run(context) \x7b"]
  indented := false
  comment := "//"
  forms :=
    [.word "\x7d else \x7b" .elseOpen, .word "\x7d" .close,
      .target "let next_step = " "null" ";" .declare, .target "next_step = " "null" ";" .assign,
      .decision "if (" "false" "evaluate(" ", context)" ") \x7b", .step "yield [" ", next_step];"]

def depth (line : List Char) : Nat :=
  (line.takeWhile (· == ' ')).length

def command (l : Language) (line : List Char) : Option Command :=
  let s := line.dropWhile (· == ' ')
  if s.isEmpty || (dropWord l.comment.toList s).isSome then some .idle
  else l.forms.findSome? (·.read s)

end Language

inductive Mode
  | body
  /-- Before the assignment of the first arm. -/
  | thenArm (holds : Bool)
  | elseHead (holds : Bool)
  /-- Before the assignment of the second arm. -/
  | elseArm (holds : Bool)
  /-- Before the brace that closes the second arm. -/
  | ifEnd
  | returned
  | closed
deriving DecidableEq

structure Execution where
  mode : Mode
  /-- The value of the variable; `none` before it has one. -/
  successor : Option (Option String)
  /-- The pairs yielded so far. -/
  output : List Yielded
deriving DecidableEq

namespace Execution

def start : Execution :=
  { mode := .body, successor := none, output := [] }

def goTo (s : Execution) (mode : Mode) : Execution :=
  { s with mode }

def assign (s : Execution) (taken : Bool) (target : Option String) : Execution :=
  if taken then { s with successor := some target } else s

def testHolds (holds : String → Bool) : Option String → Bool
  | some condition => holds condition
  | none => false

/-- Executes a command of the body. A language of indented blocks declares a variable by its first
assignment; in the other one a declaration comes first, and only once. -/
def bodyStep (l : Language) (holds : String → Bool) (s : Execution) : Command → Option Execution
  | .declare target => if s.successor = none then some (s.assign true target) else none
  | .assign target => if s.successor = none ∧ !l.indented then none else some (s.assign true target)
  | .ifOpen test => some (s.goTo (.thenArm (testHolds holds test)))
  | .emit step => s.successor.map fun next => { s with output := s.output ++ [⟨step, next⟩] }
  | .halt => some (s.goTo .returned)
  | .close => if l.indented then none else some (s.goTo .closed)
  | _ => none

/-- Executes a command. Statements of the body stand at depth four and those of an arm deeper, where
the depth counts. -/
def commandStep (l : Language) (holds : String → Bool) (depth : Nat) (c : Command) (s : Execution) :
    Option Execution :=
  let inBody := !l.indented || depth = 4
  let inArm := !l.indented || 4 < depth
  match s.mode, c with
  | _, .idle => some s
  | .body, c => if inBody then s.bodyStep l holds c else none
  | .thenArm h, .assign target =>
    if inArm then some ((s.assign h target).goTo (.elseHead h)) else none
  | .elseHead h, .elseOpen => if inBody then some (s.goTo (.elseArm h)) else none
  | .elseArm h, .assign target =>
    if inArm then some ((s.assign (!h) target).goTo (if l.indented then .body else .ifEnd))
    else none
  | .ifEnd, .close => some (s.goTo .body)
  | _, _ => none

def step (l : Language) (holds : String → Bool) (s : Execution) (line : List Char) :
    Option Execution :=
  if s.mode = .returned then some s
  else (l.command line).bind fun c => s.commandStep l holds (Language.depth line) c

def run (l : Language) (holds : String → Bool) (lines : List (List Char)) (s : Execution) :
    Option Execution :=
  lines.foldlM (step l holds) s

/-- Whether a function may end here: at its closing brace, or where the text ends outside all
arms. -/
def isFinal (l : Language) (s : Execution) : Bool :=
  s.mode = .returned || (if l.indented then s.mode = .body else s.mode = .closed)

end Execution

/-- What the code of a text yields; `none` if a line is met that is outside the fragment. -/
def Language.execute (l : Language) (holds : String → Bool) (text : String) :
    Option (List Yielded) :=
  let lines := codeLines text
  if l.head.map String.toList <+: lines then
    match Execution.start.run l holds (lines.drop l.head.length) with
    | some s => if s.isFinal l then some s.output else none
    | none => none
  else none

end Workflow.Generator

namespace Workflow

def Step.target (holds : String → Bool) (s : Step) : Option String :=
  match s.kind with
  | .task => nonEmpty? s.next
  | .decision =>
    if s.condition.any fun c => !isBlankText c && holds c then s.branches.onTrue
    else s.branches.onFalse
  | .finish => none

/-- Every step in declaration order, with the step it goes to. -/
def Process.walk (holds : String → Bool) (p : Process) : List Yielded :=
  p.steps.map fun s => ⟨s.id, s.target holds⟩

/-- The evaluation of conditions under some variables agrees with `holds` on all decisions of a
process that have a condition. -/
def Process.AnswersBy (p : Process) (vars : Bindings) (holds : String → Bool) : Prop :=
  ∀ s ∈ p.steps, s.kind = .decision → ∀ c, s.condition = some c → isBlankText c = false →
    Condition.holds vars c = .ok (holds c)

end Workflow
