import Workflow.Number.Shortest

namespace Workflow.Number

/-- The remainder of two positive doubles, as a whole number of units `2 ^ exponent`. -/
def Binary.remainder (a b : Binary) : Nat × Int :=
  let unit := min a.exponent b.exponent
  let scaled (x : Binary) : Nat := x.significand * power 2 (x.exponent - unit).toNat
  (scaled a % scaled b, unit)

def floatRemainder (x y : Float) : Float :=
  if x.isNaN || y.isNaN || x.isInf then 0.0 / 0.0
  else if y.isInf then x
  else
    match Binary.ofFloat? x, Binary.ofFloat? y with
    | _, none => 0.0 / 0.0
    | none, _ => x
    | some a, some b =>
      let (size, unit) := a.remainder b
      let r := (Float.ofScientific size false 0).scaleB unit
      if x < 0.0 then -r else r

end Workflow.Number
