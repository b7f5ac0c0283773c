import Workflow.Files
import Workflow.Octets
import Workflow.Path
import Workflow.Table

namespace Workflow

inductive DiskEntry
  | folder
  | file (octets : Octets)
deriving DecidableEq

/-- A place below the root: the names that lead to it. -/
abbrev Place := List String

structure Disk where
  entries : Table Place DiskEntry := .empty

namespace Disk

def isFolder (d : Disk) (place : Place) : Bool :=
  place.isEmpty || d.entries.get? place == some .folder

def follow (d : Disk) : Place → List String → Option Place
  | place, [] => some place
  | place, piece :: rest =>
    if !d.isFolder place then none
    else if Path.isStill piece then d.follow place rest
    else if piece = ".." then
      if place.isEmpty then none else d.follow place.dropLast rest
    else d.follow (place ++ [piece]) rest

/-- Whether a text can name a place: it is not empty and starts at the root. -/
def isRelative (path : String) : Bool :=
  path ≠ "" && path.toList.head? ≠ some '/'

/-- The place that a path leads to; there need be nothing yet. -/
def place? (d : Disk) (path : String) : Option Place :=
  if isRelative path then d.follow [] (Path.split path) else none

def octets? (d : Disk) (path : String) : Option Octets :=
  match (d.place? path).bind d.entries.get? with
  | some (.file octets) => some octets
  | _ => none

def read? (d : Disk) (path : String) : Option String :=
  (d.octets? path).bind Octets.text?

/-- The name of an entry that is a file directly in the folder at a place. -/
def nameIn? (place : Place) : Place × DiskEntry → Option String
  | (other, .file _) => if other.dropLast = place then other.getLast? else none
  | (_, .folder) => none

def list? (d : Disk) (path : String) : Option (List String) :=
  match d.place? path with
  | some place =>
    if d.isFolder place then some (d.entries.entries.filterMap (nameIn? place)) else none
  | none => none

def put (d : Disk) (place : Place) (entry : DiskEntry) : Disk :=
  ⟨d.entries.insert place entry⟩

def makeAlong : Disk → Place → List String → Option Disk
  | d, _, [] => some d
  | d, place, piece :: rest =>
    if Path.isStill piece then d.makeAlong place rest
    else if piece = ".." then
      if place.isEmpty then none else d.makeAlong place.dropLast rest
    else
      let place := place ++ [piece]
      match d.entries.get? place with
      | some .folder => d.makeAlong place rest
      | some (.file _) => none
      | none => (d.put place .folder).makeAlong place rest

/-- Whether a path ends in a single dot, slashes aside. Such a path leads to a folder that is there
already. -/
def endsStill (pieces : List String) : Bool :=
  (pieces.reverse.dropWhile (· == "")).head? == some "."

def makeFolder? (d : Disk) (path : String) : Option Disk :=
  if path = "" then some d
  else if !isRelative path then none
  else
    let pieces := Path.split path
    if endsStill pieces && ((d.follow [] pieces).filter d.isFolder).isNone then none
    else d.makeAlong [] pieces

def write? (d : Disk) (path : String) (octets : Octets) : Option Disk :=
  match d.place? path with
  | some place => if d.isFolder place then none else some (d.put place (.file octets))
  | none => none

def remove (d : Disk) (path : String) : Disk :=
  match d.place? path with
  | some place => ⟨(d.entries.keys.filter place.isPrefixOf).foldl Table.erase d.entries⟩
  | none => d

/-- Adds a file and the folders above it; a path that ends with a slash adds a folder. -/
def add (d : Disk) (path : String) (octets : Octets) : Disk :=
  let pieces := Path.split path
  match d.makeAlong [] pieces.dropLast with
  | some d => if pieces.getLast? = some "" then d else (d.write? path octets).getD d
  | none => d

def pathText (place : Place) : String :=
  String.ofList (Text.joinWith ['/'] (place.map String.toList))

def changedSince (before d : Disk) : List (String × Octets) :=
  d.entries.entries.filterMap fun (place, entry) =>
    match entry with
    | .file octets =>
      if before.entries.get? place = some entry then none else some (pathText place, octets)
    | .folder => none

def files : Files (StateM Disk) where
  read path := return (← get).read? path
  list path := return (← get).list? path
  makeFolder path := do
    match (← get).makeFolder? path with
    | some d => set d; return true
    | none => return false
  write path text := do
    match (← get).write? path (Octets.ofText text) with
    | some d => set d; return true
    | none => return false

end Disk

end Workflow
