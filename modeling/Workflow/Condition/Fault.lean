import Workflow.Condition.Value

namespace Workflow.Condition

inductive Arithmetic
  | add
  | subtract
  | multiply
  | divide
  | remainder
deriving DecidableEq, Repr

inductive Expected
  | string
  | int
  | number
  | numberOrString
  | boolean
  | tuple
  | tupleOf (length : Nat)
  | tupleOfRange (least greatest : Nat)
  /-- One of some types, by their names. -/
  | oneOf (types : List String)
deriving DecidableEq, Repr

inductive Fault
  | unmatchedQuote
  | illegalEscape (sequence : String)
  | unmatchedComment
  | partialToken (first : String) (second : Option String)
  | unmatchedOpening
  | unmatchedClosing
  | appendedToLeaf
  | precedence
  | missingOperator
  | operatorArity (expected actual : Nat)
  | unboundVariable (name : String)
  | unboundFunction (name : String)
  | readOnly
  | type (expected : Expected) (actual : Value)
  | wrongTypes (types : List String)
  | outOfRange (operation : Arithmetic) (left right : Int)
  | negation (operand : Int)
  | outOfBounds

def Arithmetic.words : Arithmetic → String × String
  | add => ("adding", " + ")
  | subtract => ("subtracting", " - ")
  | multiply => ("multiplying", " * ")
  | divide => ("dividing", " / ")
  | remainder => ("modulating", " % ")

def commaList : List String → String
  | [] => ""
  | [x] => x
  | x :: xs => x ++ ", " ++ commaList xs

def Expected.words : Expected → String
  | string => "a Value::String"
  | int => "a Value::Int"
  | number => "a Value::Float or Value::Int"
  | numberOrString => "a Value::Number or a Value::String"
  | boolean => "a Value::Boolean"
  | tuple => "a Value::Tuple"
  | tupleOf n => "a Value::Tuple of length " ++ toString n
  | tupleOfRange a b => "a Value::Tuple of length " ++ toString a ++ " to " ++ toString b
  | oneOf types => "one of [" ++ commaList types ++ "]"

def Fault.message : Fault → String
  | unmatchedQuote => "Found an unmatched double quote '\"'"
  | illegalEscape sequence => "Illegal escape sequence: " ++ sequence
  | unmatchedComment => "Error: unmatched inline comment"
  | partialToken first (some second) =>
    "Found a partial token '" ++ first ++ "' that should not be followed by '" ++ second ++ "'."
  | partialToken first none =>
    "Found a partial token '" ++ first ++ "' that should be followed by another partial token."
  | unmatchedOpening => "Found an unmatched opening parenthesis '('."
  | unmatchedClosing => "Found an unmatched closing parenthesis ')'."
  | appendedToLeaf => "Tried to append a node to a leaf node."
  | precedence => "Tried to append a node to another node with higher precedence."
  | missingOperator =>
    "Found an opening parenthesis that is preceded by something that does not take any " ++
      "arguments on the right, or found a closing parenthesis that is succeeded by something " ++
      "that does not take any arguments on the left."
  | operatorArity expected actual =>
    "An operator expected " ++ toString expected ++ " arguments, but got " ++ toString actual ++ "."
  | unboundVariable name =>
    "Variable identifier is not bound to anything by context: " ++ Text.showQuoted name ++ "."
  | unboundFunction name =>
    "Function identifier is not bound to anything by context: " ++ Text.showQuoted name ++ "."
  | readOnly => "Cannot manipulate context"
  | type expected actual => "Expected " ++ expected.words ++ ", but got " ++ actual.shown ++ "."
  | wrongTypes types =>
    "The operator Add was called with a wrong combination of types: [" ++ commaList types ++ "]"
  | outOfRange operation left right =>
    let (verb, sign) := operation.words
    "Error " ++ verb ++ " " ++ toString left ++ sign ++ toString right
  | negation operand => "Error negating -" ++ toString operand
  | outOfBounds => "Tried to access a tuple or string at an invalid index"

end Workflow.Condition
