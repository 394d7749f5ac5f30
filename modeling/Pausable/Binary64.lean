import Pausable.Text

/-!
Binary floating point numbers of 64 bits, computed with exact integers. A finite number is a sign and a
magnitude: the place of its absolute value in the increasing row of all finite ones.
-/
namespace Pausable

/-- The number of finite magnitudes: exponent fields below the greatest, each with 52 fraction bits. -/
abbrev Binary64.magnitudes : Nat := 0x7FF * Nat.pow 2 52

/-- There is one NaN. -/
inductive Binary64 where
  | nan
  | infinite (negative : Bool)
  | finite (negative : Bool) (magnitude : Fin Binary64.magnitudes)
deriving DecidableEq

namespace Binary64

/-- One is this many units; a unit is the least positive number. -/
def unitsPerOne : Nat := Nat.pow 2 1074

/-- The exact value of a magnitude, in units. -/
def units (magnitude : Nat) : Nat :=
  if magnitude < Nat.pow 2 53 then magnitude
  else (Nat.pow 2 52 + magnitude % Nat.pow 2 52) * Nat.pow 2 (magnitude / Nat.pow 2 52 - 1)

/-- The quotient rounded to the nearest integer, a half going to the even neighbour. -/
def roundQuotient (num den : Nat) : Nat :=
  let q := num / den
  let r := num % den
  if 2 * r < den then q
  else if den < 2 * r then q + 1
  else q + q % 2

/-- The magnitude nearest to a quotient of units, with 53 significant bits; it may be too large to be
finite. -/
def nearestMagnitude (num den : Nat) : Nat :=
  let shift := (num / den).log2 - 52
  shift * Nat.pow 2 52 + roundQuotient num (den * Nat.pow 2 shift)

/-- A sign with a magnitude; a magnitude that is too large is infinite. -/
def ofMagnitude (negative : Bool) (magnitude : Nat) : Binary64 :=
  if h : magnitude < magnitudes then .finite negative ⟨magnitude, h⟩ else .infinite negative

/-- The number nearest to a quotient of units. -/
def nearest (negative : Bool) (num den : Nat) : Binary64 :=
  ofMagnitude negative (nearestMagnitude num den)

def zero : Binary64 := ofMagnitude false 0

/-- The value of a finite number in units, with its sign. -/
def signedUnits (negative : Bool) (magnitude : Nat) : Int :=
  if negative then -(units magnitude : Int) else units magnitude

/-- The number nearest to an integer, unless that is infinite. -/
def ofInt? (n : Int) : Option Binary64 :=
  match nearest (n < 0) (n.natAbs * unitsPerOne) 1 with
  | .infinite _ => none
  | x => some x

/-- The sum, rounded once. A zero sum is negative only if both operands are. -/
def add : Binary64 → Binary64 → Binary64
  | .nan, _ | _, .nan => .nan
  | .infinite s, .infinite t => if s = t then .infinite s else .nan
  | .infinite s, .finite _ _ | .finite _ _, .infinite s => .infinite s
  | .finite s m, .finite t n =>
    let sum := signedUnits s m + signedUnits t n
    if sum = 0 then ofMagnitude (s && t) 0 else nearest (sum < 0) sum.natAbs 1

/-- The product, rounded once. -/
def mul : Binary64 → Binary64 → Binary64
  | .nan, _ | _, .nan => .nan
  | .infinite s, .infinite t => .infinite (s != t)
  | .infinite s, .finite t m | .finite t m, .infinite s =>
    if m.val = 0 then .nan else .infinite (s != t)
  | .finite s m, .finite t n => nearest (s != t) (units m * units n) unitsPerOne

/-- Equality of values: the zeros are equal, and NaN equals nothing. -/
def sameValue : Binary64 → Binary64 → Bool
  | .nan, _ | _, .nan => false
  | .infinite s, .infinite t => s = t
  | .finite s m, .finite t n => m = n && (s = t || m.val = 0)
  | _, _ => false

/-- Equality of a number with an integer, both exact. -/
def sameInt : Binary64 → Int → Bool
  | .finite s m, n => signedUnits s m = n * unitsPerOne
  | _, _ => false

end Binary64
end Pausable
