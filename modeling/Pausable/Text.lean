/-! Texts are lists of code points. Lone surrogates are code points like all others. -/
namespace Pausable

/-- A code point is a number below 0x110000, surrogates included. -/
structure CodePoint where
  val : Nat
  isLt : val < 0x110000
deriving DecidableEq

/-- A text is the list of its code points. -/
abbrev Text := List CodePoint

namespace CodePoint

def ofChar (c : Char) : CodePoint :=
  ⟨c.toNat, by
    rcases c.valid with h | ⟨_, h⟩
    · exact Nat.lt_trans h (by decide)
    · exact h⟩

instance : Coe Char CodePoint := ⟨ofChar⟩

instance : Inhabited CodePoint := ⟨ofChar '?'⟩

/-- The code point with a given number, if there is one. -/
def ofNat? (n : Nat) : Option CodePoint :=
  if h : n < 0x110000 then some ⟨n, h⟩ else none

/-- The code point with a given number; the replacement character if there is none. -/
def ofNat (n : Nat) : CodePoint := (ofNat? n).getD '\uFFFD'

/-- Surrogates stand for no character of their own. -/
def isSurrogate (c : CodePoint) : Bool := 0xD800 ≤ c.val && c.val ≤ 0xDFFF

def isHigh (n : Nat) : Bool := 0xD800 ≤ n && n ≤ 0xDBFF

def isLow (n : Nat) : Bool := 0xDC00 ≤ n && n ≤ 0xDFFF

/-- The code point that two surrogates stand for. -/
def ofPair (high low : Nat) : CodePoint := ofNat (0x10000 + (high - 0xD800) * 0x400 + (low - 0xDC00))

/-- The character of a code point, if it is no surrogate. -/
def toChar? (c : CodePoint) : Option Char :=
  if h : Nat.isValidChar c.val then some (Char.ofNatAux c.val h) else none

/-- One of the 128 code points of ASCII. -/
def isAscii (c : CodePoint) : Bool := c.val < 0x80

def isAsciiDigit (c : CodePoint) : Bool := 0x30 ≤ c.val && c.val ≤ 0x39

/-- One of the letters A to Z and a to z. -/
def isAsciiLetter (c : CodePoint) : Bool :=
  0x41 ≤ c.val && c.val ≤ 0x5A || 0x61 ≤ c.val && c.val ≤ 0x7A

/-- The capital letters of ASCII become small, all else stays. -/
def asciiLower (c : CodePoint) : CodePoint :=
  if h : 0x41 ≤ c.val ∧ c.val ≤ 0x5A then ⟨c.val + 0x20, by omega⟩ else c

/-- The value of a hexadecimal digit, in either case of the letters. -/
def hexValue? (c : CodePoint) : Option Nat :=
  if 0x30 ≤ c.val ∧ c.val ≤ 0x39 then some (c.val - 0x30)
  else if 0x41 ≤ c.val ∧ c.val ≤ 0x46 then some (c.val - 0x37)
  else if 0x61 ≤ c.val ∧ c.val ≤ 0x66 then some (c.val - 0x57)
  else none

/-- The hexadecimal digit of a number below 16, in small letters. -/
def hexDigit (n : Nat) : CodePoint :=
  if h : n < 10 then ⟨0x30 + n, by omega⟩
  else if h : n < 16 then ⟨0x57 + n, by omega⟩
  else '?'

end CodePoint

namespace Text

def ofString (s : String) : Text := s.toList.map CodePoint.ofChar

instance : Coe String Text := ⟨ofString⟩

def toString? (t : Text) : Option String :=
  (t.mapM CodePoint.toChar?).map String.ofList

/-- The last `width` hexadecimal digits of a number. -/
def hex : (width : Nat) → Nat → Text
  | 0, _ => []
  | width + 1, n => hex width (n / 16) ++ [CodePoint.hexDigit (n % 16)]

/-- The escape of 16 bits. -/
def unitEscape (n : Nat) : Text := "\\u" ++ hex 4 n

/-- A code point in escapes of 16 bits; above them it is a pair of surrogates. -/
def unitEscapes (c : CodePoint) : Text :=
  if c.val < 0x10000 then unitEscape c.val
  else unitEscape (0xD800 + (c.val - 0x10000) / 0x400) ++ unitEscape (0xDC00 + (c.val - 0x10000) % 0x400)

/-- The value of a row of hexadecimal digits. -/
def hexValue? (t : Text) : Option Nat :=
  t.foldlM (fun acc c => c.hexValue?.map (acc * 16 + ·)) 0

/-- Drops members that satisfy `p` from both ends. -/
def trim (p : CodePoint → Bool) (t : Text) : Text :=
  ((t.dropWhile p).reverse.dropWhile p).reverse

def join (separator : Text) : List Text → Text
  | [] => []
  | [t] => t
  | t :: ts => t ++ separator ++ join separator ts

/-- The parts of a text between the occurrences of a separator. -/
def split (separator : CodePoint) : Text → List Text
  | [] => [[]]
  | c :: t =>
    match split separator t with
    | [] => [[c]]
    | part :: parts => if c = separator then [] :: part :: parts else (c :: part) :: parts

/-- Both line ends of two code points and of one become a single line feed. -/
def unifyLineEnds : Text → Text
  | [] => []
  | c :: d :: t =>
    if c = '\r' then
      if d = '\n' then '\n' :: unifyLineEnds t else '\n' :: unifyLineEnds (d :: t)
    else c :: unifyLineEnds (d :: t)
  | [c] => if c = '\r' then ['\n'] else [c]

end Text
end Pausable
