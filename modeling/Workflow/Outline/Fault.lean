namespace Workflow

/-- Stands in messages where a YAML text could not be read; the reader keeps no details. -/
def yamlDetail : String := "<yaml>"

namespace Outline

inductive Problem
  | tabIndentation
  | unexpectedIndentation
  | itemForKey
  | missingColon
  | emptyKey
  | duplicateKey (key : String)
  | unsupported (text : String)
  | notScalar (text : String)
  | unreadable (text : String)
deriving DecidableEq, Repr

def Problem.message : Problem → String
  | tabIndentation => "tabs are not allowed in indentation"
  | unexpectedIndentation => "unexpected indentation"
  | itemForKey => "sequence item where a key was expected"
  | missingColon => "expected 'key: value'"
  | emptyKey => "empty key"
  | duplicateKey key => "duplicate key '" ++ key ++ "'"
  | unsupported text => "unsupported YAML construct '" ++ text ++ "'"
  | notScalar text => "expected a scalar, found '" ++ text ++ "'"
  | unreadable _ => yamlDetail

/-- A problem and the number of its line, counted from one. -/
structure Fault where
  line : Nat
  problem : Problem
deriving DecidableEq, Repr

end Outline

end Workflow
