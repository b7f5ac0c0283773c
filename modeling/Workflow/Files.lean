namespace Workflow

structure Files (m : Type → Type) where
  /-- The text of a file; `none` if it cannot be read, or not as text. -/
  read : String → m (Option String)
  /-- The names of the files directly in a folder, folders left out, in any order; `none` if there
  is no such folder. -/
  list : String → m (Option (List String))
  /-- Makes a folder and the folders above it, as far as they are missing. -/
  makeFolder : String → m Bool
  /-- Writes a text to a file, in place of what was there. -/
  write : String → String → m Bool

end Workflow
