import Pausable.Numeral
import Pausable.Binary64.Decimal

/-!
The numbers that programs compute with: integers of any size and binary floating point, and the two
operations on them. An integer that meets a floating point number is rounded first.
-/
namespace Pausable

/-- A number of the interpreted language. -/
inductive Number where
  | int (value : Int)
  | float (value : Binary64)
deriving DecidableEq

inductive Operator where
  | add
  | multiply
deriving DecidableEq

namespace Operator

def ofSymbol? (symbol : Text) : Option Operator :=
  if symbol = "+" then some add else if symbol = "*" then some multiply else none

def onInts : Operator → Int → Int → Int
  | add, m, n => m + n
  | multiply, m, n => m * n

def onFloats : Operator → Binary64 → Binary64 → Binary64
  | add => Binary64.add
  | multiply => Binary64.mul

end Operator

namespace Number

/-- The floating point number of a number; none if an integer is too large. -/
def toFloat? : Number → Option Binary64
  | int n => Binary64.ofInt? n
  | float x => some x

/-- Applies an operation: exactly on two integers, else on floating point numbers. None if an integer
is too large to become a floating point number. -/
def combine? (op : Operator) : Number → Number → Option Number
  | int m, int n => some (int (op.onInts m n))
  | a, b => do return float (op.onFloats (← a.toFloat?) (← b.toFloat?))

/-- Equality of values, across integers and floating point. -/
def sameValue : Number → Number → Bool
  | int m, int n => m = n
  | int n, float x | float x, int n => x.sameInt n
  | float x, float y => x.sameValue y

end Number

namespace Binary64

def zeros (n : Nat) : Text := List.replicate n '0'

/-- Writes a coefficient with its exponent: positional from 0.0001 up to below 10 to the 16, with at
least one digit behind the point; else one digit before the point and an exponent of at least two
digits with a sign. -/
def layOut (d : Decimal) : Text :=
  let digits := Numeral.ofNat d.coefficient
  let place : Int := d.exponent + digits.length
  if -4 < place ∧ place ≤ 16 then
    if place ≤ 0 then "0." ++ zeros (-place).toNat ++ digits
    else if digits.length ≤ place then
      digits ++ zeros (place.toNat - digits.length) ++ ".0"
    else digits.take place.toNat ++ "." ++ digits.drop place.toNat
  else
    let fraction : Text := if digits.length = 1 then "" else "." ++ digits.drop 1
    let sign : Text := if place < 1 then "-" else "+"
    let power := Numeral.ofNat (place - 1).natAbs
    digits.take 1 ++ fraction ++ "e" ++ sign ++ zeros (2 - power.length) ++ power

/-- Words for the numbers that have no digits. -/
structure Words where
  nan : String
  infinite : String

/-- The shortest decimal that is read back to the number, or its word. -/
def write (words : Words) : Binary64 → Text
  | nan => words.nan
  | infinite negative => if negative then "-" ++ words.infinite else words.infinite
  | finite negative magnitude =>
    let digits := layOut (Decimal.shortest magnitude)
    if negative then "-" ++ digits else digits

end Binary64

def printedWords : Binary64.Words := ⟨"nan", "inf"⟩

/-- The printed text of a number; none if the numeral of an integer is too long. -/
def Number.print? : Number → Option Text
  | .int n => Numeral.ofInt? n
  | .float x => some (x.write printedWords)

end Pausable
