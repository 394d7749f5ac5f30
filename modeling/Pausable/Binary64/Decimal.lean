import Pausable.Binary64

/-!
Decimals read to the nearest binary number, and the shortest decimal that is read back to a given one.
-/
namespace Pausable.Binary64

/-- The value of `coefficient` times ten to the power `exponent`. -/
structure Decimal where
  coefficient : Nat
  exponent : Int
deriving DecidableEq

namespace Decimal

/-- The nearest magnitude. Exponents far outside the range of finite numbers are decided without
computing their powers. -/
def nearestMagnitude (d : Decimal) : Nat :=
  if d.coefficient = 0 then 0
  else if 400 < d.exponent then magnitudes
  else if d.exponent + d.coefficient.log2 / 3 + 1 < -400 then 0
  else
    Binary64.nearestMagnitude (d.coefficient * unitsPerOne * Nat.pow 10 d.exponent.toNat)
      (Nat.pow 10 (-d.exponent).toNat)

def strip (coefficient : Nat) (exponent : Int) : Decimal :=
  if h : 0 < coefficient ∧ coefficient % 10 = 0 then strip (coefficient / 10) (exponent + 1)
  else ⟨coefficient, exponent⟩
termination_by coefficient

/-- The least power of ten above a number of units, by its exponent, found from the binary length. -/
def leadingPlace (units : Nat) : Int :=
  let place : Int := ((units.log2 : Int) - 1074) * 30103 / 100000 + 1
  if units * Nat.pow 10 (-place).toNat < unitsPerOne * Nat.pow 10 place.toNat then place else place + 1

/-- Of the two neighbours of a quotient, those that pass the test, the nearer one first; of two equally
near ones the even one. -/
def neighbour? (passes : Nat → Bool) (num den : Nat) : Option Nat :=
  let low := num / den
  let nearer := roundQuotient num den
  let other := if nearer = low then low + 1 else low
  [nearer, other].find? passes

/-- The decimal of at most `digits` digits nearest to a magnitude, if it is read back to it. -/
def withDigits? (magnitude digits : Nat) : Option Decimal :=
  let exponent := leadingPlace (units magnitude) - digits
  let passes := fun c => (Decimal.mk c exponent).nearestMagnitude = magnitude
  (neighbour? passes (units magnitude * Nat.pow 10 (-exponent).toNat)
    (unitsPerOne * Nat.pow 10 exponent.toNat)).map (strip · exponent)

/-- All digits of a magnitude. -/
def exact (magnitude : Nat) : Decimal := strip (units magnitude * Nat.pow 5 1074) (-1074)

/-- The decimal with the fewest digits that is read back to a magnitude, and the nearest of those. -/
def shortest (magnitude : Nat) : Decimal :=
  if magnitude = 0 then ⟨0, 0⟩
  else ((List.range 17).findSome? fun n => withDigits? magnitude (n + 1)).getD (exact magnitude)

/-- The binary number nearest to a decimal with a sign. -/
def toBinary64 (negative : Bool) (d : Decimal) : Binary64 := ofMagnitude negative d.nearestMagnitude

end Decimal
end Pausable.Binary64
