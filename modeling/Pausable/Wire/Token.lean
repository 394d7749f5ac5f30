import Pausable.Number.Written
import Pausable.Text.Cursor
import Pausable.Wire.Error

/-! The tokens of snapshot text: keywords, numbers, quoted texts and keys. -/
namespace Pausable.Wire

/-- Why reading stopped, and where the reader stood. -/
structure Refusal where
  error : ReadError
  stopped : Nat
deriving DecidableEq

/-- What a reader of `α` gives: the result and the place behind it. -/
abbrev Reading (α : Type) := Except Refusal (α × Cursor)

/-- Moves over a keyword that no word character follows. -/
def keyword? (word : Text) (c : Cursor) : Option Cursor :=
  let after := c.skip word.length
  if c.rest.take word.length = word ∧ !after.next CodePoint.isWordChar then some after else none

def constants : List (Text × Value) :=
  [("NULL", .null), ("TRUE", .bool true), ("FALSE", .bool false),
    ("INF", .number (.float (.infinite false))), ("-INF", .number (.float (.infinite true))),
    ("NAN", .number (.float .nan))]

def constant? (c : Cursor) : Option (Value × Cursor) :=
  constants.findSome? fun k => (keyword? k.1 c).map (k.2, ·)

/-- Reads the four hexadecimal digits behind the `u` at the cursor. -/
def readUnit (c : Cursor) : Reading Nat :=
  let digits := (c.rest.drop 1).take 4
  match if digits.length = 4 then Text.hexValue? digits else none with
  | some n => .ok (n, c.skip 5)
  | none => .error ⟨.badUnit c.position, c.position⟩

/-- Reads the digits behind the `u` at the cursor; a first surrogate directly followed by another such
escape makes a pair with it. -/
def readUnicode (c : Cursor) : Reading CodePoint :=
  match readUnit c with
  | .error e => .error e
  | .ok (high, after) =>
    if CodePoint.isHigh high ∧ after.rest.take 2 = "\\u" then
      match readUnit (after.skip 1) with
      | .error e => .error e
      | .ok (low, last) =>
        if CodePoint.isLow low then .ok (CodePoint.ofPair high low, last)
        else .error ⟨.badPair last.position, last.position⟩
    else .ok (CodePoint.ofNat high, after)

def simpleEscape? (c : CodePoint) : Option CodePoint :=
  if c = 'n' then some '\n'
  else if c = 't' then some '\t'
  else if c = 'r' then some '\r'
  else if c = '\\' ∨ c = '"' then some c
  else none

/-- Reads an escape; its backslash lies before the cursor. -/
def readEscape (c : Cursor) : Reading CodePoint :=
  match c.rest with
  | [] => .error ⟨.unterminatedEscape, c.position⟩
  | e :: _ =>
    if e = 'u' then readUnicode c
    else match simpleEscape? e with
      | some d => .ok (d, c.skip 1)
      | none => .error ⟨.unknownEscape e c.position, c.position⟩

theorem length_readUnit_le {c a : Cursor} {n : Nat} (h : readUnit c = .ok (n, a)) :
    a.rest.length ≤ c.rest.length := by
  simp only [readUnit] at h
  split at h
  · simp only [Except.ok.injEq, Prod.mk.injEq] at h
    rw [← h.2]; exact c.length_skip_le 5
  · simp at h

theorem length_readUnicode_le {c a : Cursor} {d : CodePoint} (h : readUnicode c = .ok (d, a)) :
    a.rest.length ≤ c.rest.length := by
  simp only [readUnicode] at h
  split at h
  · simp at h
  next high b hb =>
    have hle := length_readUnit_le hb
    split at h
    · split at h
      · simp at h
      next low l hl =>
        have hle' := length_readUnit_le hl
        have := b.length_skip_le 1
        split at h
        · simp only [Except.ok.injEq, Prod.mk.injEq] at h
          rw [← h.2]; omega
        · simp at h
    · simp only [Except.ok.injEq, Prod.mk.injEq] at h
      rw [← h.2]; exact hle

theorem length_readEscape_le {c a : Cursor} {d : CodePoint} (h : readEscape c = .ok (d, a)) :
    a.rest.length ≤ c.rest.length := by
  simp only [readEscape] at h
  split at h
  · simp at h
  · split at h
    · exact length_readUnicode_le h
    · split at h
      · simp only [Except.ok.injEq, Prod.mk.injEq] at h
        rw [← h.2]; exact c.length_skip_le 1
      · simp at h

/-- Reads up to the closing quote; what is already read is kept last member first. -/
def readQuoted (c : Cursor) (out : Text) : Reading Text :=
  match _hc : c.rest with
  | [] => .error ⟨.unterminatedString, c.position⟩
  | d :: _ =>
    if d = '"' then .ok (out.reverse, c.skip 1)
    else if d = '\\' then
      match _he : readEscape (c.skip 1) with
      | .error e => .error e
      | .ok (m, after) => readQuoted after (m :: out)
    else readQuoted (c.skip 1) (d :: out)
termination_by c.rest.length
decreasing_by
  · have := length_readEscape_le _he
    simp only [Cursor.rest_skip, _hc, List.length_drop, List.length_cons] at this ⊢
    omega
  · simp [_hc]

/-- Reads a quoted text; the opening quote is at the cursor. -/
def readText (c : Cursor) : Reading Text := readQuoted (c.skip 1) []

/-- Cuts a point and the digits behind it. -/
def takeFraction (c : Cursor) : Option Text × Cursor :=
  if c.next (· = '.') then
    let (digits, after) := (c.skip 1).takeRun CodePoint.isDigit
    (some digits, after)
  else (none, c)

/-- Cuts an exponent: the letter, a sign and the digits behind them. -/
def takeExponent (c : Cursor) : Option (Bool × Text) × Cursor :=
  if c.next (fun d => d = 'e' ∨ d = 'E') then
    let signed := c.skip 1
    let unsigned := if signed.next (fun d => d = '+' ∨ d = '-') then signed.skip 1 else signed
    let (digits, after) := unsigned.takeRun CodePoint.isDigit
    (some (signed.next (· = '-'), digits), after)
  else (none, c)

def takeNumber (c : Cursor) : WrittenNumber × Cursor :=
  let (negative, c) := c.takeMinus
  let (whole, c) := c.takeRun CodePoint.isDigit
  let (fraction, c) := takeFraction c
  let (exponent, c) := takeExponent c
  (⟨negative, whole, fraction, exponent⟩, c)

def readNumber (c : Cursor) : Reading Number :=
  let (parts, after) := takeNumber c
  match parts.toNumber? with
  | some n => .ok (n, after)
  | none =>
    .error ⟨.badNumber (c.rest.take (after.position - c.position)) c.position, after.position⟩

/-- Reads a keyword, a quoted text or a number. -/
def readScalar (c : Cursor) : Reading Value :=
  match constant? c with
  | some r => .ok r
  | none =>
    match c.rest with
    | [] => .error ⟨.unexpectedEnd, c.position⟩
    | d :: _ =>
      if d = '"' then (readText c).map fun r => (.text r.1, r.2)
      else if d = '-' ∨ d.isDigit then (readNumber c).map fun r => (.number r.1, r.2)
      else .error ⟨.unexpectedCharacter d c.position, c.position⟩

/-- Reads a name, which is a run of word characters. -/
def readName (c : Cursor) : Reading Text :=
  let (name, after) := c.takeRun CodePoint.isWordChar
  if name.isEmpty then .error ⟨.noKey c.position, c.position⟩ else .ok (name, after)

/-- Reads a key, quoted or a name, and the colon behind it. -/
def readKey (c : Cursor) : Reading Text :=
  let c := c.skipBlanks
  match c.rest with
  | [] => .error ⟨.unterminated .record, c.position⟩
  | d :: _ =>
    match if d = '"' then readText c else readName c with
    | .error e => .error e
    | .ok (key, after) =>
      let after := after.skipBlanks
      if after.next (· = ':') then .ok (key, after.skip 1)
      else .error ⟨.noColon key after.position, after.position⟩

end Pausable.Wire
