import Workflow.Catalog.Batch
import Workflow.CommandLine.Help
import Workflow.CommandLine.Invocation
import Workflow.Simulation
import Workflow.Source

namespace Workflow.CommandLine

inductive ExitStatus
  | success
  /-- A file cannot be read or written, settings are malformed, or a document of a batch failed. -/
  | failure
  /-- The document is malformed, or the arguments are. -/
  | malformed
  /-- The document breaks an invariant, or a condition fails. -/
  | rejected
deriving DecidableEq, Repr

def ExitStatus.code : ExitStatus → Nat
  | success => 0
  | failure => 1
  | malformed => 2
  | rejected => 3

/-- What a run of the program comes to: its end, what it prints, and what it complains of. -/
structure Report where
  status : ExitStatus
  output : String := ""
  complaint : Option String := none
deriving DecidableEq, Repr

namespace Report

def done (output : String) : Report :=
  { status := .success, output }

def stopped (complaint : String) : Report :=
  { status := .failure, complaint := some complaint }

def refused (fault : Failure) : Report where
  status := match fault with
    | .malformed _ => .malformed
    | .violation _ | .condition _ => .rejected
  complaint := some fault.message

end Report

/-- The name of a document without its folder and extension. -/
def stem (file : String) : String :=
  (Path.ofText file).stem?.getD "process"

def texts (settings : Settings) (a : Artifacts) : List (ArtifactKind × String) :=
  settings.emit.filterMap fun k => (a.render? k).map (k, ·)

/-- An artifact as it is printed: below its name, with a blank line after it. -/
def printed : ArtifactKind × String → String
  | (k, text) => "=== " ++ k.name ++ " ===\n" ++ text ++ "\n\n"

def printedPair (y : Yielded) : String :=
  y.step ++ " -> " ++ y.next.getD "-" ++ "\n"

/-- A summary as it is printed: first what compiled, then what failed. -/
def printedSummary (s : Summary) : String :=
  String.join (s.compiled.map fun path => "ok      " ++ path ++ "\n") ++
    String.join (s.failed.map fun (path, message) => "FAILED  " ++ path ++ ": " ++ message ++ "\n")

variable {m : Type → Type} [Monad m]

def readSettings (files : Files m) (i : Invocation) : m (Except FileFault Settings) := do
  let read ← match i.config with
    | some path => files.readSettings path
    | none => pure (.ok {})
  return read.map fun settings => { settings with reader := i.reader.getD settings.reader }

def withDocument (files : Files m) (file : String) (next : String → m Report) : m Report := do
  match ← files.readDocument file with
  | .error fault => return .stopped fault.message
  | .ok text => next text

def check (files : Files m) (settings : Settings) (file : String) : m Report :=
  withDocument files file fun text => return match acceptProcess settings.reader text with
    | .error fault => .refused fault
    | .ok p => .done (file ++ ": ok (" ++ toString p.steps.length ++ " steps)\n")

/-- Writes artifacts into a folder, one after another, up to the first that cannot be written. -/
def writeAll (files : Files m) (folder stem : String) : List (ArtifactKind × String) → m Report
  | [] => return .done ""
  | (k, text) :: rest => do
    let path := Path.join folder (k.fileName stem)
    if ← files.write path text then writeAll files folder stem rest
    else return .stopped ("Failed to write " ++ path)

def compile (files : Files m) (settings : Settings) (stages : Schedule) (file : String)
    (outFolder : Option String) : m Report :=
  withDocument files file fun text =>
    match settings.compileScheduled stages text with
    | .error fault => return .refused fault
    | .ok artifacts =>
      let made := texts settings artifacts
      match outFolder with
      | none => return .done (String.join (made.map printed))
      | some folder => writeAll files folder (stem file) made

/-- Makes the folder for artifacts, if there is to be one, before anything else is done. -/
def withFolder (files : Files m) (outFolder : Option String) (next : m Report) : m Report := do
  match outFolder with
  | none => next
  | some folder =>
    if ← files.makeFolder folder then next else return .stopped ("Failed to create " ++ folder)

def simulate (files : Files m) (settings : Settings) (file : String) (vars : Bindings) : m Report :=
  withDocument files file fun text => return match acceptProcess settings.reader text with
    | .error fault => .refused fault
    | .ok p =>
      match p.simulate vars with
      | .error fault => .refused (.condition fault)
      | .ok pairs => .done (String.join (pairs.map printedPair))

def batch (files : Files m) (settings : Settings) (jobs stages : Schedule) (folder : String) :
    m Report := do
  match ← Catalog.compileFolder files { settings } jobs stages folder with
  | .error message => return .stopped message
  | .ok (_, summary) =>
    return { status := if summary.failed.isEmpty then .success else .failure
             output := printedSummary summary }

/-- The settings of a compilation, with what is asked for on the command line. -/
def override (settings : Settings) (emit : List ArtifactKind) (direction : Option Direction) :
    Settings :=
  { settings with
    emit := if emit.isEmpty then settings.emit else emit
    direction := direction.getD settings.direction }

def Command.run (files : Files m) (settings : Settings) (jobs stages : Schedule) :
    Command → m Report
  | .check file => CommandLine.check files settings file
  | .compile file emit direction outFolder =>
    withFolder files outFolder
      (CommandLine.compile files (override settings emit direction) stages file outFolder)
  | .simulate file vars => CommandLine.simulate files settings file vars
  | .batch folder => CommandLine.batch files settings jobs stages folder

def Invocation.run (files : Files m) (jobs stages : Schedule) (i : Invocation) : m Report := do
  match ← readSettings files i with
  | .error fault => return .stopped fault.message
  | .ok settings => i.command.run files settings jobs stages

def Stop.report : Stop → Report
  | .help topic => .done (helpText topic)
  | .version => .done versionText
  | .wrong => { status := .malformed, complaint := some (helpText none) }

def run (files : Files m) (jobs stages : Schedule) (arguments : List String) : m Report :=
  match Invocation.read arguments with
  | .ok i => i.run files jobs stages
  | .error stop => return stop.report

end Workflow.CommandLine
