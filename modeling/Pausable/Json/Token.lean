import Pausable.Number.Written
import Pausable.Text.Cursor
import Pausable.Value

/-! The tokens of JSON text: words, numbers and strings, with the place of what is wrong. -/
namespace Pausable.Json

/-- What can be wrong with a JSON text. -/
inductive Problem where
  | noValue
  | noName
  | noColon
  | noComma
  | extraData
  | unterminatedString
  | controlCharacter
  | badEscape
  | badUnit
  | byteOrderMark
deriving DecidableEq

def Problem.message : Problem → Text
  | noValue => "Expecting value"
  | noName => "Expecting property name enclosed in double quotes"
  | noColon => "Expecting ':' delimiter"
  | noComma => "Expecting ',' delimiter"
  | extraData => "Extra data"
  | unterminatedString => "Unterminated string starting at"
  | controlCharacter => "Invalid control character at"
  | badEscape => "Invalid \\escape"
  | badUnit => "Invalid \\uXXXX escape"
  | byteOrderMark => "Unexpected UTF-8 BOM (decode using utf-8-sig)"

/-- Why reading stopped: a problem at a position, or an integer with too many digits. -/
inductive Refusal where
  | problem (p : Problem) (position : Nat)
  | numeralTooLong (digits : Nat)
deriving DecidableEq

/-- What a reader of `α` gives: the result and the place behind it. -/
abbrev Reading (α : Type) := Except Refusal (α × Cursor)

def isBlank (c : CodePoint) : Bool := c = ' ' || c = '\t' || c = '\n' || c = '\r'

def skipBlanks (c : Cursor) : Cursor := c.skipRun isBlank

def constants : List (Text × Value) :=
  [("null", .null), ("true", .bool true), ("false", .bool false), ("NaN", .number (.float .nan)),
    ("Infinity", .number (.float (.infinite false))),
    ("-Infinity", .number (.float (.infinite true)))]

def constant? (c : Cursor) : Option (Value × Cursor) :=
  constants.findSome? fun k =>
    if c.rest.take k.1.length = k.1 then some (k.2, c.skip k.1.length) else none

/-- The four hexadecimal digits at the cursor. -/
def unit? (c : Cursor) : Option Nat :=
  let digits := c.rest.take 4
  if digits.length = 4 then Text.hexValue? digits else none

/-- Reads the digits behind the `u` at the cursor, which must not be the end of the text; a first
surrogate and an escape of a second one are a pair. -/
def readUnicode (c : Cursor) : Reading CodePoint :=
  let bad := Except.error (.problem .badUnit c.position)
  if c.rest.length ≤ 5 then bad
  else match unit? (c.skip 1) with
    | none => bad
    | some high =>
      let after := c.skip 5
      if CodePoint.isHigh high ∧ 6 < after.rest.length ∧ after.rest.take 2 = "\\u" then
        match unit? (after.skip 2) with
        | none => .error (.problem .badUnit (after.position + 1))
        | some low =>
          if CodePoint.isLow low then .ok (CodePoint.ofPair high low, after.skip 6)
          else .ok (CodePoint.ofNat high, after)
      else .ok (CodePoint.ofNat high, after)

def simpleEscape? (c : CodePoint) : Option CodePoint :=
  if c = '"' ∨ c = '\\' ∨ c = '/' then some c
  else if c = 'b' then some '\x08'
  else if c = 'f' then some '\x0c'
  else if c = 'n' then some '\n'
  else if c = 'r' then some '\r'
  else if c = 't' then some '\t'
  else none

/-- Reads an escape in the string that begins at `start`; its backslash lies before the cursor. -/
def readEscape (start : Nat) (c : Cursor) : Reading CodePoint :=
  match c.rest with
  | [] => .error (.problem .unterminatedString start)
  | e :: _ =>
    if e = 'u' then readUnicode c
    else match simpleEscape? e with
      | some d => .ok (d, c.skip 1)
      | none => .error (.problem .badEscape (c.position - 1))

theorem length_readUnicode_le {c a : Cursor} {d : CodePoint} (h : readUnicode c = .ok (d, a)) :
    a.rest.length ≤ c.rest.length := by
  have h5 := c.length_skip_le 5
  have h6 := (c.skip 5).length_skip_le 6
  simp only [readUnicode] at h
  split at h
  · simp at h
  · split at h
    · simp at h
    · split at h
      · split at h
        · simp at h
        · split at h <;> simp only [Except.ok.injEq, Prod.mk.injEq] at h <;> rw [← h.2] <;> omega
      · simp only [Except.ok.injEq, Prod.mk.injEq] at h
        rw [← h.2]; exact h5

theorem length_readEscape_le {start : Nat} {c a : Cursor} {d : CodePoint}
    (h : readEscape start c = .ok (d, a)) : a.rest.length ≤ c.rest.length := by
  simp only [readEscape] at h
  split at h
  · simp at h
  · split at h
    · exact length_readUnicode_le h
    · split at h
      · simp only [Except.ok.injEq, Prod.mk.injEq] at h
        rw [← h.2]; exact c.length_skip_le 1
      · simp at h

/-- Reads up to the closing quote; what is already read is kept last member first. -/
def readQuoted (start : Nat) (c : Cursor) (out : Text) : Reading Text :=
  match _hc : c.rest with
  | [] => .error (.problem .unterminatedString start)
  | d :: _ =>
    if d = '"' then .ok (out.reverse, c.skip 1)
    else if d = '\\' then
      match _he : readEscape start (c.skip 1) with
      | .error e => .error e
      | .ok (m, after) => readQuoted start after (m :: out)
    else if d.val < 0x20 then .error (.problem .controlCharacter c.position)
    else readQuoted start (c.skip 1) (d :: out)
termination_by c.rest.length
decreasing_by
  · have := length_readEscape_le _he
    simp only [Cursor.rest_skip, _hc, List.length_drop, List.length_cons] at this ⊢
    omega
  · simp [_hc]

/-- Reads a string; its opening quote is at the cursor. -/
def readString (c : Cursor) : Reading Text := readQuoted c.position (c.skip 1) []

/-- Cuts the digits before the point: a single zero, or a row that does not begin with zero. -/
def takeWhole (c : Cursor) : Text × Cursor :=
  if c.next (· = '0') then ("0", c.skip 1) else c.takeRun CodePoint.isAsciiDigit

/-- Cuts a point with at least one digit behind it. -/
def takeFraction (c : Cursor) : Option Text × Cursor :=
  if c.next (· = '.') ∧ (c.skip 1).next CodePoint.isAsciiDigit then
    let (digits, after) := (c.skip 1).takeRun CodePoint.isAsciiDigit
    (some digits, after)
  else (none, c)

/-- Cuts an exponent with at least one digit. -/
def takeExponent (c : Cursor) : Option (Bool × Text) × Cursor :=
  if c.next (fun d => d = 'e' ∨ d = 'E') then
    let signed := c.skip 1
    let unsigned := if signed.next (fun d => d = '+' ∨ d = '-') then signed.skip 1 else signed
    let (digits, after) := unsigned.takeRun CodePoint.isAsciiDigit
    if digits.isEmpty then (none, c) else (some (signed.next (· = '-'), digits), after)
  else (none, c)

def takeNumber (c : Cursor) : WrittenNumber × Cursor :=
  let (negative, c) := c.takeMinus
  let (whole, c) := takeWhole c
  let (fraction, c) := takeFraction c
  let (exponent, c) := takeExponent c
  (⟨negative, whole, fraction, exponent⟩, c)

/-- Reads a number; without digits before the point there is none. -/
def readNumber (c : Cursor) : Reading Number :=
  let (parts, after) := takeNumber c
  if parts.whole.isEmpty then .error (.problem .noValue c.position)
  else match parts.toNumber? with
    | some n => .ok (n, after)
    | none => .error (.numeralTooLong parts.whole.length)

/-- Reads a string, a word or a number. -/
def readScalar (c : Cursor) : Reading Value :=
  if c.next (· = '"') then (readString c).map fun r => (.text r.1, r.2)
  else match constant? c with
    | some r => .ok r
    | none => (readNumber c).map fun r => (.number r.1, r.2)

/-- Reads the name of a field, the colon behind it and the blanks around that. -/
def readName (c : Cursor) : Reading Text :=
  if c.next (· = '"') then
    match readString c with
    | .error e => .error e
    | .ok (name, after) =>
      let after := skipBlanks after
      if after.next (· = ':') then .ok (name, skipBlanks (after.skip 1))
      else .error (.problem .noColon after.position)
  else .error (.problem .noName c.position)

end Pausable.Json
