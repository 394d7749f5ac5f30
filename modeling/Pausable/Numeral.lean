import Pausable.Text.Classes

/-! Decimal numerals of integers: writing them, reading them, and the length that neither exceeds. -/
namespace Pausable.Numeral

/-- No numeral of an integer has more digits than this. -/
def maxDigits : Nat := 4300

/-- The least natural number whose numeral is too long. -/
def bound : Nat := Nat.pow 10 maxDigits

def digit (n : Nat) : CodePoint := ⟨0x30 + n % 10, by omega⟩

/-- Puts the numeral of a natural number in front of a text. -/
def prepend (n : Nat) (rest : Text) : Text :=
  if n < 10 then digit n :: rest else prepend (n / 10) (digit n :: rest)
termination_by n

/-- The numeral of a natural number, whatever its length. -/
def ofNat (n : Nat) : Text := prepend n []

/-- The numeral of an integer, whatever its length. -/
def ofInt : Int → Text
  | .ofNat n => ofNat n
  | .negSucc n => '-' :: ofNat (n + 1)

/-- The numeral of an integer, if it is not too long. -/
def ofInt? (n : Int) : Option Text :=
  if n.natAbs < bound then some (ofInt n) else none

/-- The value of a row of decimal digits of any script. -/
def value? (t : Text) : Option Nat :=
  t.foldlM (fun acc c => c.digitValue?.map (acc * 10 + ·)) 0

/-- The value of a row of at least one digit that is not too long. -/
def bounded? (t : Text) : Option Nat :=
  if t.isEmpty || maxDigits < t.length then none else value? t

end Pausable.Numeral
