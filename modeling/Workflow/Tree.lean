import Workflow.Number

namespace Workflow

/-- A value of a document. The entries of a mapping are in document order. -/
inductive Tree
  | null
  | bool (value : Bool)
  | number (value : Number)
  | string (value : String)
  | sequence (items : List Tree)
  | mapping (entries : List (Tree × Tree))
  /-- A value under a tag; the mark `!` in front of the tag is left out. -/
  | tagged (tag : String) (content : Tree)
deriving Inhabited

namespace Tree

mutual

/-- Equality of values as keys: numbers by `Number.same`, mappings whatever the order of their
entries. -/
def same : Tree → Tree → Bool
  | null, null => true
  | bool a, bool b => a == b
  | number a, number b => a.same b
  | string a, string b => a == b
  | sequence xs, sequence ys => sameItems xs ys
  | mapping xs, mapping ys => xs.length == ys.length && sameEntries xs ys
  | tagged s x, tagged t y => s == t && same x y
  | _, _ => false

def sameItems : List Tree → List Tree → Bool
  | [], [] => true
  | x :: xs, y :: ys => same x y && sameItems xs ys
  | _, _ => false

/-- Whether every entry of the first list has an equal one in the second. -/
def sameEntries : List (Tree × Tree) → List (Tree × Tree) → Bool
  | [], _ => true
  | (k, v) :: xs, ys => ys.any (fun entry => same k entry.1 && same v entry.2) && sameEntries xs ys

end

def hasKey (entries : List (Tree × Tree)) (key : Tree) : Bool :=
  entries.any fun entry => entry.1.same key

/-- Enters a value under a key: in the place of the entry with that key, or at the end. -/
def setEntry (entries : List (Tree × Tree)) (key value : Tree) : List (Tree × Tree) :=
  if hasKey entries key then
    entries.map fun entry => if entry.1.same key then (entry.1, value) else entry
  else entries ++ [(key, value)]

/-- The entries of a mapping; tags around it do not count. -/
def entries? : Tree → Option (List (Tree × Tree))
  | mapping entries => some entries
  | tagged _ content => content.entries?
  | _ => none

def field? (name : String) : List (Tree × Tree) → Option Tree
  | [] => none
  | (string key, value) :: rest => if key = name then some value else field? name rest
  | _ :: rest => field? name rest

/-- The text of a scalar that is not null. -/
def scalarText? : Tree → Option String
  | string s => some s
  | number n => some n.text
  | bool b => some (if b then "true" else "false")
  | _ => none

end Tree

end Workflow
