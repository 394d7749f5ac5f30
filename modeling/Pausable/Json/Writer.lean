import Pausable.Json.Reader
import Pausable.Value.Shown

/-! Writing JSON text in ASCII, on one line or indented. -/
namespace Pausable.Json

inductive WriteError where
  /-- The value has a type that JSON does not know. -/
  | unknownType (typeName : Text)
  /-- A key is neither a text nor a scalar. -/
  | keyType (typeName : Text)
  | numeralTooLong
deriving DecidableEq

def WriteError.message : WriteError → Text
  | unknownType t => "Object of type " ++ t ++ " is not JSON serializable"
  | keyType t => "keys must be str, int, float, bool or None, not " ++ t
  | numeralTooLong => Numeral.tooLong

def numberWords : Binary64.Words := ⟨"NaN", "Infinity"⟩

/-- One code point inside quotes. -/
def escaped (c : CodePoint) : Text :=
  if c = '\\' then "\\\\"
  else if c = '"' then "\\\""
  else if c = '\n' then "\\n"
  else if c = '\t' then "\\t"
  else if c = '\r' then "\\r"
  else if c = '\x0c' then "\\f"
  else if c = '\x08' then "\\b"
  else if 0x20 ≤ c.val ∧ c.val ≤ 0x7E then [c]
  else Text.unitEscapes c

def quote (t : Text) : Text := "\"" ++ t.flatMap escaped ++ "\""

def boolWord (b : Bool) : Text := if b then "true" else "false"

def writeNumber : Number → Except WriteError Text
  | .int n => match Numeral.ofInt? n with
    | some t => .ok t
    | none => .error .numeralTooLong
  | .float x => .ok (x.write numberWords)

/-- The name of a field; a key that is a scalar becomes its text. -/
def nameOf : Value → Except WriteError Text
  | .text t => .ok t
  | .null => .ok "null"
  | .bool b => .ok (boolWord b)
  | .number n => writeNumber n
  | v => .error (.keyType v.typeName)

/-- The white space that a text is laid out with. -/
structure Layout where
  /-- What stands before the first member and after each comma, at a depth of nesting. -/
  before : Nat → Text
  /-- What stands after the last member, at the depth of the container. -/
  after : Nat → Text
  colon : Text

def Layout.compact : Layout := ⟨fun _ => [], fun _ => [], ":"⟩

/-- Each member on a line of its own, two blanks further in than its container. -/
def Layout.indented : Layout :=
  let newLine (depth : Nat) : Text := "\n" ++ (List.replicate (2 * depth) ' ' : Text)
  ⟨fun depth => newLine (depth + 1), newLine, ": "⟩

/-- Members between brackets; no white space where there are none. -/
def Layout.enclose (l : Layout) (depth : Nat) (opening closing : Text) (members : List Text) : Text :=
  if members.isEmpty then opening ++ closing
  else opening ++ Text.join "," (members.map (l.before depth ++ ·)) ++ l.after depth ++ closing

mutual

/-- The text of a value at a depth of nesting. -/
def writeAt (l : Layout) (depth : Nat) : Value → Except WriteError Text
  | .null => .ok "null"
  | .bool b => .ok (boolWord b)
  | .number n => writeNumber n
  | .text t => .ok (quote t)
  | .list vs => (writeItems l (depth + 1) vs).map (l.enclose depth "[" "]")
  | .tuple vs => (writeItems l (depth + 1) vs).map (l.enclose depth "[" "]")
  | .record fs => (writeFields l (depth + 1) fs).map (l.enclose depth "\x7b" "\x7d")
  | .alien name => .error (.unknownType name)

/-- The texts of the members of a list. -/
def writeItems (l : Layout) (depth : Nat) : List Value → Except WriteError (List Text)
  | [] => .ok []
  | v :: vs =>
    match writeAt l depth v with
    | .error e => .error e
    | .ok t => (writeItems l depth vs).map (t :: ·)

/-- The texts of the fields of a record. -/
def writeFields (l : Layout) (depth : Nat) : List (Value × Value) → Except WriteError (List Text)
  | [] => .ok []
  | (k, v) :: fs =>
    match nameOf k with
    | .error e => .error e
    | .ok name => match writeAt l depth v with
      | .error e => .error e
      | .ok t => (writeFields l depth fs).map ((quote name ++ l.colon ++ t) :: ·)

end

/-- The JSON text of a value. -/
def write (l : Layout) (v : Value) : Except WriteError Text := writeAt l 0 v

/-- A value as it comes back after it was written and read. -/
def readBack (v : Value) : Except WriteError Value :=
  match write .compact v with
  | .error e => .error e
  | .ok t => .ok ((read t).toOption.getD .null)

end Pausable.Json
