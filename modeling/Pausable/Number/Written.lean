import Pausable.Number

/-! A number as it stands in a text, cut into its parts. -/
namespace Pausable

/-- The parts of a written number. -/
structure WrittenNumber where
  negative : Bool
  whole : Text
  /-- The digits behind a point, if there is a point. -/
  fraction : Option Text
  /-- Whether the exponent is negative, and its digits, if there is an exponent. -/
  exponent : Option (Bool × Text)
deriving DecidableEq

namespace WrittenNumber

/-- A number with neither point nor exponent is an integer. -/
def isInteger (w : WrittenNumber) : Bool := w.fraction.isNone && w.exponent.isNone

/-- The value of an exponent; a missing one counts as zero, one without digits is none. -/
def exponentValue? : Option (Bool × Text) → Option Int
  | none => some 0
  | some (negative, digits) =>
    if digits.isEmpty then none
    else (Numeral.value? digits).map fun n => if negative then -(n : Int) else n

/-- The exact decimal of the digits, if there are any and all of them are decimal digits. -/
def decimal? (w : WrittenNumber) : Option Binary64.Decimal :=
  let fraction := w.fraction.getD []
  if (w.whole ++ fraction).isEmpty then none
  else do
    let coefficient ← Numeral.value? (w.whole ++ fraction)
    let exponent ← exponentValue? w.exponent
    return ⟨coefficient, exponent - fraction.length⟩

def toFloat? (w : WrittenNumber) : Option Binary64 := w.decimal?.map (·.toBinary64 w.negative)

/-- The integer, if its numeral is not too long. -/
def toInt? (w : WrittenNumber) : Option Int :=
  (Numeral.bounded? w.whole).map fun n => if w.negative then -(n : Int) else n

def toNumber? (w : WrittenNumber) : Option Number :=
  if w.isInteger then w.toInt?.map .int else w.toFloat?.map .float

end WrittenNumber
end Pausable
