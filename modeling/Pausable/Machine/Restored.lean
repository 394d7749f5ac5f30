import Pausable.Machine.Saved

/-!
Machines from their records. The frames are rebuilt from the root up; each one above it must name the
child that the frame below has in progress.
-/
namespace Pausable

/-- What is wrong with the record of a machine. Positions count the frames from the root. -/
inductive Corrupt where
  | notRecord (typeName : Text)
  | noStack
  | emptyStack
  | haltedType (shown : Text)
  | haltedFrames (count : Nat)
  | frameNotRecord (position : Nat)
  | frameIncomplete (position : Nat)
  | root (position : Nat) (detail : Text)
  | noChild (position : Nat) (below : Kind)
  | reference (position : Nat) (shown expected : Text)
  | contextNotRecord (position : Nat)
  | contextMissing (kind : Kind) (field : Text)
  | stage (shown : Text)
  | leftType (typeName : Text)
  | noLeft
  | begun (shown : Text)
  | index (count : Nat) (shown : Text)
  | slotType (position : Nat) (typeName : Text)
  | text (e : Wire.ReadError)
  | json (e : Json.ReadError)
deriving DecidableEq

def Corrupt.detail : Corrupt → Text
  | notRecord t => "Serialized state must be a record, got " ++ t
  | noStack => "Serialized state has no 'stateStack' list"
  | emptyStack => "Serialized state stack is empty"
  | haltedType shown => "'halted' must be a boolean, got " ++ shown
  | haltedFrames n =>
    "Halted state must hold only the root frame, got " ++ Numeral.ofNat n ++ " frames"
  | frameNotRecord p => "Frame " ++ Numeral.ofNat p ++ " is not a record"
  | frameIncomplete p => "Frame " ++ Numeral.ofNat p ++ " needs 'node' and 'ctx'"
  | root p t => "Frame " ++ Numeral.ofNat p ++ ": " ++ t
  | noChild p k =>
    "Frame " ++ Numeral.ofNat p ++ " sits on a " ++ k.name ++ " frame with no child in progress"
  | reference p shown expected =>
    "Frame " ++ Numeral.ofNat p ++ ": node reference " ++ shown ++ " does not match " ++ expected
  | contextNotRecord p => "Frame " ++ Numeral.ofNat p ++ ": ctx must be a record"
  | contextMissing k field => k.name ++ " ctx is missing '" ++ field ++ "'"
  | stage shown => "binop ctx 'state' must be 0, 1 or 2, got " ++ shown
  | leftType t => "binop ctx 'left' must be a number, got " ++ t
  | noLeft => "binop ctx in state 2 has no left operand"
  | begun shown => "print ctx 'exprDone' must be a boolean, got " ++ shown
  | index n shown => "program ctx 'index' must be in 0.." ++ Numeral.ofNat n ++ ", got " ++ shown
  | slotType p t => "Frame " ++ Numeral.ofNat p ++ ": value must be a number, got " ++ t
  | text e => e.message
  | json e => "Invalid JSON: " ++ e.message

/-- The reasons for which a record gives no machine. -/
inductive RestoreError where
  | corrupt (c : Corrupt)
  /-- What is wrong cannot be shown, for its numeral is too long. -/
  | numeralTooLong
  /-- A text with an integer of too many digits. -/
  | digits (count : Nat)
deriving DecidableEq

def RestoreError.message : RestoreError → Text
  | corrupt c => "[E_CORRUPT_STATE] " ++ c.detail
  | numeralTooLong => Numeral.tooLong
  | digits n => (Json.ReadError.numeralTooLong n).message

namespace Restore

/-- Refuses a value that the message shows. -/
def refuse {β : Type} (v : Value) (c : Text → Corrupt) : Except RestoreError β :=
  match v.shown? with
  | some t => .error (.corrupt (c t))
  | none => .error .numeralTooLong

/-- An optional number. Null counts as absent; `c` is the refusal of another type. -/
def number? (v : Option Value) (c : Text → Corrupt) : Except RestoreError (Option Number) :=
  match v with
  | none | some .null => .ok none
  | some (.number n) => .ok (some n)
  | some v => .error (.corrupt (c v.typeName))

def need (k : Kind) (name : Text) (fs : List (Value × Value)) : Except RestoreError Value :=
  match Value.field? name fs with
  | some v => .ok v
  | none => .error (.corrupt (.contextMissing k name))

/-- A number of statements within a bound. -/
def index? (count : Nat) : Value → Option Nat
  | .number (.int i) => if 0 ≤ i ∧ i ≤ count then some i.toNat else none
  | _ => none

def stageNumber? : Value → Option Nat
  | .number (.int i) => if 0 ≤ i ∧ i ≤ 2 then some i.toNat else none
  | _ => none

def stage (fs : List (Value × Value)) : Except RestoreError Stage :=
  match need .binary "state" fs with
  | .error e => .error e
  | .ok v =>
    match stageNumber? v with
    | none => refuse v .stage
    | some n =>
      match number? (Value.field? "left" fs) .leftType with
      | .error e => .error e
      | .ok left =>
        match n, left with
        | 0, left => .ok (.before left)
        | 1, left => .ok (.onLeft left)
        | _, some left => .ok (.onRight left)
        | _, none => .error (.corrupt .noLeft)

variable {α : Type}

/-- A node with the progress that its context tells. -/
def activity (fs : List (Value × Value)) : Node α → Except RestoreError (Activity α)
  | .literal n => .ok (.literal n)
  | .binary s l r => (stage fs).map (.binary s l r)
  | .print e =>
    match need .print "exprDone" fs with
    | .error e => .error e
    | .ok (.bool b) => .ok (.print e b)
    | .ok v => refuse v .begun
  | .block ss =>
    match need .block "index" fs with
    | .error e => .error e
    | .ok v =>
      match index? ss.length v with
      | some i => .ok (.block (ss.take i).reverse (ss.drop i))
      | none => refuse v (.index ss.length)
  | .foreign a => .ok (.foreign a)

/-- The kind of an activity that a message names. -/
def kindOf : Activity α → Kind
  | .literal _ | .foreign _ => .literal
  | .binary .. => .binary
  | .print .. => .print
  | .block .. => .block

/-- The node of a frame with its place. -/
def node (below : Option (Frame α)) (position : Nat) (v : Value) :
    Except RestoreError (Option (List Node.Turn) × Node α) :=
  match below with
  | none =>
    match Node.ofValue v with
    | .ok n => .ok (some [], n)
    | .error .numeralTooLong => .error .numeralTooLong
    | .error e => .error (.corrupt (.root position e.detail))
  | some f =>
    match f.activity.child? with
    | none => .error (.corrupt (.noChild position (kindOf f.activity)))
    | some (t, child) =>
      if Value.same v t.toValue then .ok (f.placeOf t, child)
      else refuse v fun shown => .reference position shown (t.toValue.shown?.getD [])

/-- One frame, given the one below it. -/
def frame (below : Option (Frame α)) (position : Nat) (v : Value) :
    Except RestoreError (Frame α) :=
  match v with
  | .record fs =>
    match Value.field? "node" fs, Value.field? "ctx" fs with
    | some nodeValue, some context =>
      match node below position nodeValue with
      | .error e => .error e
      | .ok (place, n) =>
        match context with
        | .record cs =>
          match activity cs n with
          | .error e => .error e
          | .ok a => (number? (Value.field? "value" fs) (.slotType position)).map (⟨place, a, ·⟩)
        | _ => .error (.corrupt (.contextNotRecord position))
    | _, _ => .error (.corrupt (.frameIncomplete position))
  | _ => .error (.corrupt (.frameNotRecord position))

/-- Puts the frames of some records on those that are already rebuilt. -/
def frames (built : List (Frame α)) (position : Nat) : List Value → Except RestoreError (List (Frame α))
  | [] => .ok built
  | v :: vs =>
    match frame built.head? position v with
    | .error e => .error e
    | .ok f => frames (f :: built) (position + 1) vs

end Restore

namespace Machine

variable {α : Type}

/-- The machine of a record. -/
def ofValue (v : Value) : Except RestoreError (Machine α) :=
  match v with
  | .record fs =>
    match Value.field? Wire.stackField fs with
    | some (.list []) => .error (.corrupt .emptyStack)
    | some (.list vs) =>
      match (Value.field? "halted" fs).getD .null with
      | .bool halted =>
        if halted ∧ 1 < vs.length then .error (.corrupt (.haltedFrames vs.length))
        else (Restore.frames [] 0 vs).map (⟨·, halted, 0⟩)
      | v => Restore.refuse v .haltedType
    | _ => .error (.corrupt .noStack)
  | v => .error (.corrupt (.notRecord v.typeName))

def ofText (t : Text) : Except RestoreError (Machine α) :=
  match Wire.read t with
  | .ok v => ofValue v
  | .error e => .error (.corrupt (.text e))

def ofJson (t : Text) : Except RestoreError (Machine α) :=
  match Json.read t with
  | .ok v => ofValue v
  | .error (.numeralTooLong n) => .error (.digits n)
  | .error e => .error (.corrupt (.json e))

end Machine
end Pausable
