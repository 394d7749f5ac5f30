import Pausable.Text.Quoted
import Pausable.Numeral

/-! Texts as bytes: ASCII and UTF-8, and the wording of what cannot be encoded or decoded. -/
namespace Pausable

abbrev Bytes := List UInt8

/-- Code points from `first` up to before `stop` that an encoding does not have. -/
structure EncodeError where
  encoding : String
  reason : String
  /-- The first of the code points. -/
  character : CodePoint
  first : Nat
  stop : Nat
deriving DecidableEq

def EncodeError.message (e : EncodeError) : Text :=
  let start : Text := "'" ++ e.encoding ++ "' codec can't encode character"
  if e.first + 1 = e.stop then
    start ++ " '" ++ Text.numericEscape e.character ++ "' in position " ++ Numeral.ofNat e.first
      ++ ": " ++ e.reason
  else
    start ++ "s in position " ++ Numeral.ofNat e.first ++ "-" ++ Numeral.ofNat (e.stop - 1) ++ ": "
      ++ e.reason

/-- Bytes from `first` up to before `stop` that an encoding does not have. -/
structure DecodeError where
  encoding : String
  reason : String
  /-- The first of the bytes. -/
  byte : UInt8
  first : Nat
  stop : Nat
deriving DecidableEq

def DecodeError.message (e : DecodeError) : Text :=
  let start : Text := "'" ++ e.encoding ++ "' codec can't decode byte"
  if e.first + 1 = e.stop then
    start ++ " 0x" ++ Text.hex 2 e.byte.toNat ++ " in position " ++ Numeral.ofNat e.first ++ ": "
      ++ e.reason
  else
    start ++ "s in position " ++ Numeral.ofNat e.first ++ "-" ++ Numeral.ofNat (e.stop - 1) ++ ": "
      ++ e.reason

namespace Text

/-- The first code point that `bad` holds of, with the run of those of `p` behind it, as an error. -/
def firstRun? (encoding reason : String) (bad p : CodePoint → Bool) (t : Text) : Option EncodeError :=
  let before := t.takeWhile fun c => !bad c
  match t.drop before.length with
  | [] => none
  | c :: rest =>
    some ⟨encoding, reason, c, before.length, before.length + 1 + (rest.takeWhile p).length⟩

def toAscii (t : Text) : Except EncodeError Bytes :=
  let foreign (c : CodePoint) : Bool := !c.isAscii
  match firstRun? "ascii" "ordinal not in range(128)" foreign foreign t with
  | some e => .error e
  | none => .ok (t.map fun c => c.val.toUInt8)

/-- The first run of surrogates from one on that `bad` holds of. -/
def surrogates? (bad : CodePoint → Bool) (t : Text) : Option EncodeError :=
  firstRun? "utf-8" "surrogates not allowed" bad CodePoint.isSurrogate t

/-- The bytes of one code point in UTF-8. -/
def utf8Bytes (c : CodePoint) : Bytes :=
  let n := c.val
  let tail (shift : Nat) : UInt8 := (0x80 + n / shift % 0x40).toUInt8
  if n < 0x80 then [n.toUInt8]
  else if n < 0x800 then [(0xC0 + n / 0x40).toUInt8, tail 1]
  else if n < 0x10000 then [(0xE0 + n / 0x1000).toUInt8, tail 0x40, tail 1]
  else [(0xF0 + n / 0x40000).toUInt8, tail 0x1000, tail 0x40, tail 1]

/-- The bytes of a text in UTF-8, which has no surrogates. -/
def toUtf8 (t : Text) : Except EncodeError Bytes :=
  match surrogates? CodePoint.isSurrogate t with
  | some e => .error e
  | none => .ok (t.flatMap utf8Bytes)

end Text

namespace Bytes

def decodeAscii (bytes : Bytes) : Except DecodeError Text :=
  let good := bytes.takeWhile (· < 0x80)
  match bytes.drop good.length with
  | [] => .ok (good.map fun b => CodePoint.ofNat b.toNat)
  | b :: _ => .error ⟨"ascii", "ordinal not in range(128)", b, good.length, good.length + 1⟩

/-- The second bytes that may follow a first byte: they rule out long forms, surrogates and numbers that
are no code points. -/
def secondRange (first : UInt8) : UInt8 × UInt8 :=
  if first = 0xE0 then (0xA0, 0xBF)
  else if first = 0xED then (0x80, 0x9F)
  else if first = 0xF0 then (0x90, 0xBF)
  else if first = 0xF4 then (0x80, 0x8F)
  else (0x80, 0xBF)

/-- The number of bytes that a first byte announces. -/
def length? (first : UInt8) : Option Nat :=
  if first < 0x80 then some 1
  else if 0xC2 ≤ first ∧ first ≤ 0xDF then some 2
  else if 0xE0 ≤ first ∧ first ≤ 0xEF then some 3
  else if 0xF0 ≤ first ∧ first ≤ 0xF4 then some 4
  else none

/-- The bytes that continue a first byte, as far as they may. -/
def continuation (first : UInt8) (count : Nat) (rest : Bytes) : Bytes :=
  let (low, high) := secondRange first
  match (rest.take count) with
  | [] => []
  | b :: more =>
    if low ≤ b ∧ b ≤ high then b :: more.takeWhile (fun c => 0x80 ≤ c ∧ c ≤ 0xBF) else []

/-- The number that the bytes of one code point stand for. -/
def codeOf (first : UInt8) (tail : Bytes) : Nat :=
  let lead := match tail.length with
    | 0 => first.toNat
    | 1 => first.toNat % 0x20
    | 2 => first.toNat % 0x10
    | _ => first.toNat % 0x08
  tail.foldl (fun n b => n * 0x40 + b.toNat % 0x40) lead

/-- Reads code points from position `at` on; those before are kept last first. -/
def decodeUtf8From (position : Nat) (bytes : Bytes) (out : Text) : Except DecodeError Text :=
  match bytes with
  | [] => .ok out.reverse
  | first :: rest =>
    match length? first with
    | none => .error ⟨"utf-8", "invalid start byte", first, position, position + 1⟩
    | some count =>
      let tail := continuation first (count - 1) rest
      if tail.length + 1 = count then
        decodeUtf8From (position + count) (rest.drop tail.length)
          (CodePoint.ofNat (codeOf first tail) :: out)
      else
        .error ⟨"utf-8",
          if tail.length = rest.length then "unexpected end of data" else "invalid continuation byte",
          first, position, position + 1 + tail.length⟩
termination_by bytes.length
decreasing_by simp only [List.length_drop, List.length_cons]; omega

def decodeUtf8 (bytes : Bytes) : Except DecodeError Text := decodeUtf8From 0 bytes []

end Bytes
end Pausable
