import Workflow.Number.FloatText

namespace Workflow

/-- A whole number or a double. Readers produce whole numbers between `-2 ^ 63` and `2 ^ 64 - 1`. -/
inductive Number
  | int (value : Int)
  | float (value : Float)

namespace Number

/-- Equality of mapping keys: a whole number never equals a double, the two zeros are equal, and so
are any two doubles that are not numbers. -/
def same : Number → Number → Bool
  | int a, int b => a == b
  | float a, float b => a == b || (a.isNaN && b.isNaN)
  | _, _ => false

/-- Doubles in documents are positional from `10 ^ -5` up to, but not including, `10 ^ 16`; an exact
tie between two shortest decimals goes to the even one. -/
def documentForm : FloatText where
  leastPosition := -4
  greatestPosition := 16
  tie := .toEven
  infinity := ".inf"
  notANumber := ".nan"

def text : Number → String
  | int n => toString n
  | float x => documentForm.write x

end Number

end Workflow
