import Pausable.Json.Writer
import Pausable.Machine.Stack
import Pausable.Program.Record
import Pausable.Wire.State

/-!
Machines as records. The frame at the root holds the whole tree; every other frame names the child that
the frame below it began last.
-/
namespace Pausable

/-- The reasons for which a machine is not saved. -/
inductive SaveError where
  | notChild (position : Nat)
  | node (e : NodeError)
  | wire (e : Wire.WriteError)
  | json (e : Json.WriteError)
deriving DecidableEq

/-- The wording for a frame that is not of the child its parent began last. -/
def notChildMessage (position : Nat) : Text :=
  "Frame " ++ Numeral.ofNat position ++ " is not the child its parent pushed"

def SaveError.message : SaveError → Text
  | notChild p => "[E_CORRUPT_STATE] " ++ notChildMessage p
  | node e => e.message
  | wire e => e.message
  | json e => e.message

/-- A number, or null for none. -/
def Value.ofNumber? : Option Number → Value
  | none => .null
  | some n => .number n

def Node.Turn.toValue : Node.Turn → Value
  | left => .record [Value.named "ref" (.text "left")]
  | right => .record [Value.named "ref" (.text "right")]
  | operand => .record [Value.named "ref" (.text "expr")]
  | statement i => .record [Value.named "ref" (.text "stmts"), Value.named "index" (.int i)]

variable {α : Type}

/-- The progress of a binary operation as a number. -/
def Stage.number : Stage → Nat
  | before _ => 0
  | onLeft _ => 1
  | onRight _ => 2

/-- The left operand, where it is known. -/
def Stage.left? : Stage → Option Number
  | before left | onLeft left => left
  | onRight left => some left

def Activity.context : Activity α → Value
  | literal _ | foreign _ => .record []
  | binary _ _ _ stage => .record
      [Value.named "state" (.int stage.number), Value.named "left" (.ofNumber? stage.left?)]
  | print _ begun => .record [Value.named "exprDone" (.bool begun)]
  | block begun _ => .record [Value.named "index" (.int begun.length)]

namespace Frame

/-- The record of a frame, given that of its node. An empty slot is left out. -/
def toRecord (f : Frame α) (node : Value) : Value :=
  .record (Value.named "node" node :: Value.named "ctx" f.activity.context ::
    match f.slot with
    | none => []
    | some v => [Value.named "value" (.number v)])

/-- The record of the frame above another one. -/
def toChildRecord (below : Frame α) (position : Nat) (f : Frame α) : Except SaveError Value :=
  if f.continues below then
    match below.activity.child? with
    | some (t, _) => .ok (f.toRecord t.toValue)
    | none => .error (.notChild position)
  else .error (.notChild position)

end Frame

namespace Machine

/-- The records of frames above another one, the lowest first. -/
def recordsAbove (below : Frame α) (position : Nat) : List (Frame α) → Except SaveError (List Value)
  | [] => .ok []
  | f :: fs =>
    match below.toChildRecord position f with
    | .error e => .error e
    | .ok v => (recordsAbove f (position + 1) fs).map (v :: ·)

/-- The records of all frames, the lowest first. -/
def records [Strange α] : List (Frame α) → Except SaveError (List Value)
  | [] => .ok []
  | root :: above =>
    match root.node.toValue with
    | .error e => .error (.node e)
    | .ok v => (recordsAbove root 1 above).map (root.toRecord v :: ·)

/-- The record of a machine. -/
def toValue [Strange α] (m : Machine α) : Except SaveError Value :=
  (records m.stack.reverse).map fun vs =>
    .record [(.text Wire.stackField, .list vs), Value.named "halted" (.bool m.halted)]

def toText [Strange α] (m : Machine α) : Except SaveError Text :=
  match m.toValue with
  | .error e => .error e
  | .ok v => (Wire.write v).mapError .wire

def toJson [Strange α] (m : Machine α) : Except SaveError Text :=
  match m.toValue with
  | .error e => .error e
  | .ok v => (Json.write .compact v).mapError .json

end Machine
end Pausable
