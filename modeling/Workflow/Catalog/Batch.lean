import Workflow.Catalog
import Workflow.Files

namespace Workflow

/-- A document of a batch: the text of its path, and its own text unless it cannot be read. -/
structure Source where
  path : String
  text : Option String
deriving DecidableEq

def Source.unreadMessage (path : String) : String :=
  "Failed to read " ++ path ++ ": stream did not contain valid UTF-8"

def Source.outcome (settings : Settings) (stages : Schedule) (s : Source) : Outcome :=
  match s.text with
  | some text => settings.outcome stages text
  | none => .error (unreadMessage s.path)

/-- What became of the sources of a batch: the paths that compiled, and the others with their
messages. -/
structure Summary where
  compiled : List String
  failed : List (String × String)
deriving DecidableEq, Repr

namespace Summary

/-- Whether one failure comes before another: by its path, then by its message. -/
def failureLE (a b : String × String) : Bool :=
  a.1 < b.1 || (a.1 == b.1 && a.2 ≤ b.2)

def compiledPath? : String × Outcome → Option String
  | (path, .ok _) => some path
  | (_, .error _) => none

def failedPath? : String × Outcome → Option (String × String)
  | (_, .ok _) => none
  | (path, .error message) => some (path, message)

def ofResults (results : List (String × Outcome)) : Summary :=
  ⟨(results.filterMap compiledPath?).mergeSort fun a b => a ≤ b,
    (results.filterMap failedPath?).mergeSort failureLE⟩

end Summary

namespace Catalog

def storeResult (c : Catalog) (result : String × Outcome) : Catalog :=
  c.store (Path.ofText result.1) result.2

/-- Compiles sources side by side. `jobs` says in which order they end; `stages` does so for the
stages of each. -/
def compileSources (c : Catalog) (jobs stages : Schedule) (sources : List Source) :
    Catalog × Summary :=
  let results := jobs.order (sources.map fun s => (s.path, s.outcome c.settings stages))
  (results.foldl storeResult c, Summary.ofResults results)

def sourceExtensions : List String :=
  ["yaml", "yml", "pdl"]

def isSourceName (name : String) : Bool :=
  (Path.ofText name).extension?.any sourceExtensions.contains

def unlistedMessage (folder : String) : String :=
  "Failed to list process directory " ++ folder

variable {m : Type → Type} [Monad m]

/-- The documents directly in a folder; `none` if there is no such folder. -/
def readSources (files : Files m) (folder : String) : m (Option (List Source)) := do
  match ← files.list folder with
  | none => return none
  | some names =>
    let sources ← (names.filter isSourceName).mapM fun name => do
      let path := Path.join folder name
      return Source.mk path (← files.read path)
    return some sources

/-- Compiles the documents directly in a folder; the catalog stays as it is if there is no such
folder. -/
def compileFolder (files : Files m) (c : Catalog) (jobs stages : Schedule) (folder : String) :
    m (Except String (Catalog × Summary)) := do
  match ← readSources files folder with
  | none => return .error (unlistedMessage folder)
  | some sources => return .ok (c.compileSources jobs stages sources)

end Catalog

end Workflow
