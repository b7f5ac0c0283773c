import Workflow.Generator.Literal
/-!
Dialects: the surface forms in which one generator function is written. A dialect supplies the
words; which lines there are is the same for all of them.
-/

namespace Workflow

structure Dialect where
  name : String
  /-- Lines before the function. -/
  preamble : List String
  functionOpen : String
  functionClose : Option String
  /-- Lines of a function that has nothing to yield. -/
  emptyBody : List String
  comment : String → String
  null : String
  falsehood : String
  declare : (target value : String) → String
  assign : (target value : String) → String
  /-- The test of a condition of the document. -/
  evaluate : (condition : String) → String
  ifOpen : (test : String) → String
  elseOpen : String
  ifClose : Option String
  yieldPair : (step target : String) → String

namespace Dialect

open Generator

/-- Generator functions of Python; a condition goes through `eval` with the context as its names. -/
def python : Dialect where
  name := "python"
  preamble := []
  functionOpen := "def run(context):"
  functionClose := none
  emptyBody := ["return", "yield"]
  comment text := "# " ++ text
  null := "None"
  falsehood := "False"
  declare target value := target ++ " = " ++ value
  assign target value := target ++ " = " ++ value
  evaluate condition := "eval(" ++ doubleQuote condition ++ ", \x7b\x7d, context)"
  ifOpen test := "if " ++ test ++ ":"
  elseOpen := "else:"
  ifClose := none
  yieldPair step target := "yield " ++ step ++ ", " ++ target

/-- Generator functions of JavaScript; a helper makes the keys of the context parameters of the
condition. -/
def javascript : Dialect where
  name := "javascript"
  preamble :=
    ["function evaluate(expression, context) \x7b",
     "    return Function(...Object.keys(context), \"return (\" + expression + \");\")(...Object.values(context));",
     "\x7d",
     ""]
  functionOpen := "function* run(context) \x7b"
  functionClose := some "\x7d"
  emptyBody := []
  comment text := "// " ++ text
  null := "null"
  falsehood := "false"
  declare target value := "let " ++ target ++ " = " ++ value ++ ";"
  assign target value := target ++ " = " ++ value ++ ";"
  evaluate condition := "evaluate(" ++ doubleQuote condition ++ ", context)"
  ifOpen test := "if (" ++ test ++ ") \x7b"
  elseOpen := "\x7d else \x7b"
  ifClose := some "\x7d"
  yieldPair step target := "yield [" ++ step ++ ", " ++ target ++ "];"

def all : List Dialect := [python, javascript]

def ofName? (name : String) : Option Dialect :=
  all.find? (·.name = name)

end Dialect

end Workflow
