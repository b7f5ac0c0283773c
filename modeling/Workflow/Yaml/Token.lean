import Workflow.Yaml.Tag
/-!
Tokens of a YAML text. Starts and ends of block collections, which the text shows only by its
columns, are tokens of their own.
-/

namespace Workflow.Yaml

/-- A token. The end of the text has none. -/
inductive Token
  | versionDirective (major minor : Nat)
  | tagDirective (handle : List Char) (stem : Octets)
  | documentStart
  | documentEnd
  | blockSequenceStart
  | blockMappingStart
  | blockEnd
  | flowSequenceStart
  | flowSequenceEnd
  | flowMappingStart
  | flowMappingEnd
  | blockEntry
  | flowEntry
  | key
  | value
  | aliasOf (name : List Char)
  | anchor (name : List Char)
  | tag (tag : TagToken)
  | scalar (plain : Bool) (text : List Char)
deriving DecidableEq

end Workflow.Yaml
