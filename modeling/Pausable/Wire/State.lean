import Pausable.Wire.Reader
import Pausable.Wire.Writer

/-! Snapshot text that must hold the record of a machine, and the check that writing is stable. -/
namespace Pausable.Wire

/-- The field that every record of a machine has. -/
def stackField : Text := "stateStack"

def writeRecord : Value → Except WriteError Text
  | .record fs => write (.record fs)
  | v => .error (.notRecord v.typeName)

/-- Reads a record that has the field of a machine's record. -/
def readState (t : Text) : Except ReadError (List (Value × Value)) :=
  match read t with
  | .error e => .error e
  | .ok (.record fs) => if (Value.field? stackField fs).isSome then .ok fs else .error .notState
  | .ok _ => .error .notState

/-- Writing a value, reading it and writing it again gives the same text. A numeral that is too long is
no answer. -/
def isStable (v : Value) : Except WriteError Bool :=
  match write v with
  | .error .numeralTooLong => .error .numeralTooLong
  | .error _ => .ok false
  | .ok first => match read first with
    | .error _ => .ok false
    | .ok w => match write w with
      | .error .numeralTooLong => .error .numeralTooLong
      | .error _ => .ok false
      | .ok second => .ok (first = second)

end Pausable.Wire
