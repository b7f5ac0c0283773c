import Workflow.Files
import Workflow.Settings.Yaml

namespace Workflow

inductive FileFault
  | unreadDocument (path : String)
  | malformedDocument (path : String) (cause : Malformed)
  | unreadSettings (path : String)
  | malformedSettings (path : String)
deriving DecidableEq, Repr

def FileFault.message : FileFault → String
  | unreadDocument path => "Failed to read process file from " ++ path
  | malformedDocument path _ => "Failed to parse process from " ++ path
  | unreadSettings path => "Failed to read config file from " ++ path
  | malformedSettings path => "Invalid config in " ++ path

namespace Files

variable {m : Type → Type} [Monad m]

def readDocument (files : Files m) (path : String) : m (Except FileFault String) := do
  match ← files.read path with
  | some text => return .ok text
  | none => return .error (.unreadDocument path)

def readProcess (files : Files m) (reader : Reader) (path : String) :
    m (Except FileFault Process) := do
  match ← files.readDocument path with
  | .error fault => return .error fault
  | .ok text =>
    match Workflow.readProcess reader text with
    | .ok p => return .ok p
    | .error cause => return .error (.malformedDocument path cause)

def readSettings (files : Files m) (path : String) : m (Except FileFault Settings) := do
  match ← files.read path with
  | none => return .error (.unreadSettings path)
  | some text =>
    match Settings.read? text with
    | some settings => return .ok settings
    | none => return .error (.malformedSettings path)

end Files

end Workflow
