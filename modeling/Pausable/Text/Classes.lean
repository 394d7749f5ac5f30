import Pausable.Text.Runs

/-! The classes of code points that the readers and the quoting rule tell apart. -/
namespace Pausable.CodePoint

/-- Blanks stand between the tokens of a text and around it. -/
def isBlank (c : CodePoint) : Bool :=
  if c.isAscii then 0x09 ≤ c.val && c.val ≤ 0x0D || 0x1C ≤ c.val && c.val ≤ 0x20
  else c.inRuns blankRuns

/-- The value of a decimal digit of any script. -/
def digitValue? (c : CodePoint) : Option Nat :=
  if c.isAscii then if c.isAsciiDigit then some (c.val - 0x30) else none
  else (decimalZeros.find? fun z => z ≤ c.val && c.val ≤ z + 9).map (c.val - ·)

/-- Decimal digits of any script, and digits that no numeral is read from, such as superscripts. -/
def isDigit (c : CodePoint) : Bool :=
  c.digitValue?.isSome || c.inRuns otherDigitRuns

/-- Letters, numeric characters and the underscore make up words. -/
def isWordChar (c : CodePoint) : Bool :=
  if c.isAscii then c.isAsciiLetter || c.isAsciiDigit || c = '_'
  else c.inRuns wordRunsFirst || c.inRuns wordRunsSecond || c.inRuns wordRunsThird
    || c.inRuns wordRunsFourth

/-- Quoting shows the code point as it is: it is neither a control, a separator other than the blank
of ASCII, a format character, a surrogate nor unassigned. -/
def isShown (c : CodePoint) : Bool :=
  if c.isAscii then 0x20 ≤ c.val && c.val ≤ 0x7E
  else !(c.inRuns hiddenRunsFirst || c.inRuns hiddenRunsSecond || c.inRuns hiddenRunsThird
    || c.inRuns hiddenRunsFourth)

end Pausable.CodePoint
