import Workflow.Artifact
import Workflow.Path
/-!
Catalogs: what compiling gave for each path. An attempt changes one path only, in two steps: it
takes the path out of one table, then enters it in the other.
-/

namespace Workflow

/-- The result of an attempt to compile: artifacts, or why there are none. -/
abbrev Outcome := Except String Artifacts

def Settings.outcome (s : Settings) (schedule : Schedule) (text : String) : Outcome :=
  match s.compileScheduled schedule text with
  | .ok artifacts => .ok artifacts
  | .error fault => .error fault.message

structure Catalog where
  settings : Settings
  entries : Table Path Artifacts := .empty
  failures : Table Path String := .empty

namespace Catalog

inductive Change
  | dropFailure (path : Path)
  | putEntry (path : Path) (artifacts : Artifacts)
  | dropEntry (path : Path)
  | putFailure (path : Path) (message : String)

def change (c : Catalog) : Change → Catalog
  | .dropFailure path => { c with failures := c.failures.erase path }
  | .putEntry path artifacts => { c with entries := c.entries.insert path artifacts }
  | .dropEntry path => { c with entries := c.entries.erase path }
  | .putFailure path message => { c with failures := c.failures.insert path message }

def changes (path : Path) : Outcome → List Change
  | .ok artifacts => [.dropFailure path, .putEntry path artifacts]
  | .error message => [.dropEntry path, .putFailure path message]

def store (c : Catalog) (path : Path) (o : Outcome) : Catalog :=
  (changes path o).foldl change c

/-- The artifacts of a path, if its latest attempt made some. -/
def get? (c : Catalog) (path : Path) : Option Artifacts :=
  c.entries.get? path

def failure? (c : Catalog) (path : Path) : Option String :=
  c.failures.get? path

def size (c : Catalog) : Nat :=
  c.entries.size

def isEmpty (c : Catalog) : Bool :=
  c.entries.isEmpty

def register (c : Catalog) (schedule : Schedule) (path : Path) (text : String) :
    Catalog × Outcome :=
  let o := c.settings.outcome schedule text
  (c.store path o, o)

theorem get?_store (c : Catalog) (path p : Path) (o : Outcome) :
    (c.store path o).get? p = if p = path then o.toOption else c.get? p := by
  cases o <;> simp [store, changes, change, get?, Table.get?_insert, Table.get?_erase,
    Except.toOption]

theorem failure?_store (c : Catalog) (path p : Path) (o : Outcome) :
    (c.store path o).failure? p =
      if p = path then (match o with | .ok _ => none | .error message => some message)
      else c.failure? p := by
  cases o <;> simp [store, changes, change, failure?, Table.get?_insert, Table.get?_erase]

theorem settings_store (c : Catalog) (path : Path) (o : Outcome) :
    (c.store path o).settings = c.settings := by
  cases o <;> rfl

end Catalog

end Workflow
