import Workflow.CommandLine.Option
import Workflow.Condition.Evaluate
import Workflow.Json.Reader
import Workflow.Settings
import Workflow.Text.Lines
/-!
Reading the arguments of the program, from left to right: options, a command, its options and its
operand. What is given after the command counts before what is given in front of it.
-/

namespace Workflow.CommandLine

inductive Command
  | check (file : String)
  | compile (file : String) (emit : List ArtifactKind) (direction : Option Direction)
      (outFolder : Option String)
  | simulate (file : String) (vars : Bindings)
  | batch (folder : String)

structure Invocation where
  config : Option String
  reader : Option Reader
  verbose : Bool
  command : Command

inductive Stop
  /-- The user asks how a command, or the program, is used. -/
  | help (topic : Option CommandName)
  | version
  | wrong
deriving DecidableEq, Repr

structure Draft where
  command : Option CommandName := none
  /-- Options that must not be given again where the reading stands. -/
  used : List OptionName := []
  onlyOperands : Bool := false
  config : Option String := none
  reader : Option Reader := none
  verbose : Bool := false
  operand : Option String := none
  emit : List ArtifactKind := []
  direction : Option Direction := none
  outFolder : Option String := none
  vars : Bindings := []

/-- Reads the name and value of a variable. A value that is no JSON stands for itself. -/
def readBinding? (text : String) : Option (String × Json) :=
  let s := text.toList
  match s.dropWhile (· ≠ '=') with
  | [] => none
  | _ :: value =>
    let value := String.ofList value
    some (String.ofList (s.takeWhile (· ≠ '=')), (Json.read? value).getD (.string value))

def readKinds? (text : String) : Option (List ArtifactKind) :=
  (Text.splitAt ',' text.toList).mapM fun name => ArtifactKind.ofName? (String.ofList name)

namespace Draft

/-- Notes that an option is given; `none` if it must not be given again. -/
def use? (d : Draft) (o : OptionName) : Option Draft :=
  if o.isRepeatable then some d
  else if o ∈ d.used then none
  else some { d with used := o :: d.used }

def set? (d : Draft) (o : OptionName) (value : String) : Option Draft :=
  match o with
  | .config => if value = "" then none else some { d with config := some value }
  | .reader => (Reader.ofName? value).map fun r => { d with reader := some r }
  | .emit => (readKinds? value).map fun kinds => { d with emit := d.emit ++ kinds }
  | .direction => (Direction.read value).toOption.map fun x => { d with direction := some x }
  | .outFolder => if value = "" then none else some { d with outFolder := some value }
  | .vars => (readBinding? value).map fun binding => { d with vars := binding :: d.vars }
  | .verbose | .help | .version => none

def raise (d : Draft) (o : OptionName) : Except Stop Draft :=
  match o with
  | .help => .error (.help d.command)
  | .version => .error .version
  | _ =>
    match d.use? o with
    | some d => .ok { d with verbose := true }
    | none => .error .wrong

def place (d : Draft) (text : String) : Except Stop Draft :=
  match d.command with
  | some _ =>
    if text = "" || d.operand.isSome then .error .wrong else .ok { d with operand := some text }
  | none =>
    if d.onlyOperands then .error .wrong
    else
      match CommandName.ofWord? text with
      | some c => .ok { d with command := some c, used := [] }
      | none => .error .wrong

/-- Takes pieces in, one after another; an option at the end may still await its value. -/
def take : Draft → List Piece → Except Stop (Draft × Option OptionName)
  | d, [] => .ok (d, none)
  | d, .flag o :: rest => (d.raise o).bind fun d => d.take rest
  | d, .setting o value :: rest =>
    match (d.use? o).bind (·.set? o value) with
    | some d => d.take rest
    | none => .error .wrong
  | d, .awaiting o :: _ => .ok (d, some o)
  | d, .operandsOnly :: rest => { d with onlyOperands := true }.take rest
  | d, .operand text :: rest => (d.place text).bind fun d => d.take rest
  | _, .unknown :: _ => .error .wrong

def pieces (d : Draft) (argument : String) : List Piece :=
  if d.onlyOperands then [.operand argument]
  else readArgument (OptionName.allowed d.command) argument

def asksHelp (d : Draft) (argument : String) : Bool :=
  d.command.isNone && !d.onlyOperands && argument == "help"

def finish (d : Draft) : Except Stop Invocation :=
  let finished (c : Command) : Except Stop Invocation := .ok ⟨d.config, d.reader, d.verbose, c⟩
  match d.command, d.operand with
  | some .check, some file => finished (.check file)
  | some .compile, some file => finished (.compile file d.emit d.direction d.outFolder)
  | some .simulate, some file => finished (.simulate file d.vars)
  | some .batch, some folder => finished (.batch folder)
  | _, _ => .error .wrong

end Draft

def helpTopic : List String → Stop
  | [] | ["help"] => .help none
  | [word] => if let some c := CommandName.ofWord? word then .help (some c) else .wrong
  | _ => .wrong

def readArguments : Draft → List String → Except Stop Draft
  | d, [] => .ok d
  | d, argument :: rest =>
    if d.asksHelp argument then .error (helpTopic rest)
    else
      match d.take (d.pieces argument), rest with
      | .error stop, _ => .error stop
      | .ok (d, none), rest => readArguments d rest
      | .ok (_, some _), [] => .error .wrong
      | .ok (d, some o), value :: rest =>
        match if isValue value then (d.use? o).bind (·.set? o value) else none with
        | some d => readArguments d rest
        | none => .error .wrong

def Invocation.read (arguments : List String) : Except Stop Invocation :=
  (readArguments {} arguments).bind Draft.finish

end Workflow.CommandLine
