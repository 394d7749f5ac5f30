import Pausable.Machine.Frame
import Pausable.Text.Quoted

/-!
The machine and its steps. A step lets the frame on top either begin a child, or leave with its value for
the frame below; it recurses into nothing. The frame at the bottom stays when it leaves, and halts the
machine. A step that fails changes what it has changed by then.
-/
namespace Pausable

/-- A paused program: its frames, the top one first. -/
structure Machine (α : Type) where
  stack : List (Frame α)
  halted : Bool
  steps : Nat
deriving DecidableEq

/-- The frames that wait for the value of a child. -/
inductive Consumer where
  | leftOperand
  | rightOperand
  | print
deriving DecidableEq

def Consumer.name : Consumer → Text
  | leftOperand => "binop left"
  | rightOperand => "binop right"
  | print => "print"

/-- The reasons for which a step fails; `ε` are those of the host. -/
inductive Fault (ε : Type) where
  | emptyStack
  /-- A node that is none of the four kinds; the name as messages show it. -/
  | unknownKind (shown : Text)
  | unsupportedOperator (symbol : Text)
  | valuelessOperand (consumer : Consumer)
  /-- An integer too large to become a floating point number. -/
  | integerTooLarge
  | host (e : ε)
deriving DecidableEq

/-- The wording for an operator that is none, given as messages show it. -/
def Operator.unsupportedMessage (shown : Text) : Text :=
  "[E_UNSUPPORTED_OPERATOR] Unsupported operator: " ++ shown

/-- The wording of a fault, given that of the host. -/
def Fault.message {ε : Type} (wording : ε → Text) : Fault ε → Text
  | emptyStack => "[E_STACK_UNDERFLOW] Stack underflow"
  | unknownKind shown => "[E_UNKNOWN_NODE_KIND] Unknown node kind: " ++ shown
  | unsupportedOperator symbol => Operator.unsupportedMessage symbol.quoted
  | valuelessOperand c =>
    "[E_VALUELESS_OPERAND] " ++ c.name
      ++ " operand produced no value (print yields no value to an expression)"
  | integerTooLarge => "int too large to convert to float"
  | host e => wording e

/-- What a machine reports besides its prints. -/
inductive Note where
  | evaluating (k : Kind)
  | halted (steps : Nat)
  | restored (frames : Nat) (halted : Bool)

/-- The host of a machine: it prints, which may fail, and takes notes. -/
structure Host (σ ε : Type) where
  print : Number → σ → Except ε Unit × σ
  note : Note → σ → σ

variable {α σ ε : Type}

/-- What a frame does in one step. -/
inductive Effect (α ε : Type) where
  /-- It begins a child, and is itself `entered` from then on. -/
  | enter (entered : Frame α) (turn : Node.Turn) (child : Node α)
  /-- It leaves, with a value or without, or with a fault that arises on leaving. -/
  | leave (value : Except (Fault ε) (Option Number))
  /-- It halts the machine and keeps its slot. -/
  | halt

/-- The top frame after it acted, the world, and what it does or why it fails. -/
structure Acted (α σ ε : Type) where
  frame : Frame α
  world : σ
  effect : Except (Fault ε) (Effect α ε)

namespace Frame

/-- The fault of a step on a stranger. -/
def unknownKind (s : Stranger) : Fault ε :=
  match s with
  | .kind name => .unknownKind name.quoted
  | .kindless | .value _ => .unknownKind "None"

/-- The kind of the frame; for a stranger the fault of a step. -/
def kind [Strange α] (f : Frame α) : Except (Fault ε) Kind :=
  match f.activity with
  | .literal _ => .ok .literal
  | .binary .. => .ok .binary
  | .print .. => .ok .print
  | .block .. => .ok .block
  | .foreign a => .error (unknownKind (Strange.stranger a))

/-- Statements of a block and the root hand on what they print. -/
def handsOnPrint : List (Frame α) → Bool
  | [] => true
  | f :: _ => match f.activity with
    | .block .. => true
    | _ => false

/-- What a print leaves with. It asks the frame below for its kind, which a stranger may not have. -/
def handOn [Strange α] (v : Number) (below : List (Frame α)) : Except (Fault ε) (Option Number) :=
  match below with
  | [] => .ok (some v)
  | f :: _ => match f.activity with
    | .block .. => .ok (some v)
    | .foreign a => match Strange.stranger a with
      | .kind _ => .ok none
      | s => .error (.unknownKind s.name.quoted)
    | _ => .ok none

/-- Below a print there is mostly a frame with a kind, or none. -/
theorem handOn_eq [Strange α] {v : Number} {below : List (Frame α)}
    (h : ∀ f ∈ below.head?, ∀ a, f.activity ≠ .foreign a) :
    (handOn v below : Except (Fault ε) (Option Number)) = .ok (if handsOnPrint below then some v else none) := by
  cases below with
  | nil => rfl
  | cons f below =>
    obtain ⟨place, a, slot⟩ := f
    cases a with
    | foreign a => exact (h _ rfl a rfl).elim
    | literal | binary | print | block => rfl

/-- A binary operation acts: it begins its left operand, then its right one, then applies itself. -/
def actBinary (f : Frame α) (symbol : Text) (l r : Node α) : Stage → Frame α × Except (Fault ε) (Effect α ε)
  | .before left =>
    (f, .ok (.enter { f with activity := .binary symbol l r (.onLeft left) } .left l))
  | .onLeft _ =>
    match f.slot with
    | none => (f, .error (.valuelessOperand .leftOperand))
    | some v =>
      ({ f with activity := .binary symbol l r (.onLeft (some v)), slot := none },
        .ok (.enter { f with activity := .binary symbol l r (.onRight v), slot := none } .right r))
  | .onRight v =>
    match Operator.ofSymbol? symbol with
    | none => (f, .error (.unsupportedOperator symbol))
    | some op =>
      match f.slot with
      | none => (f, .error (.valuelessOperand .rightOperand))
      | some w =>
        ({ f with slot := none },
          .ok (.leave (match Number.combine? op v w with
            | none => .error .integerTooLarge
            | some x => .ok (some x))))

/-- A print acts: it begins its operand, then prints the value. -/
def actPrint [Strange α] (host : Host σ ε) (f : Frame α) (below : List (Frame α)) (e : Node α) (s : σ) :
    Bool → Acted α σ ε
  | false => ⟨f, s, .ok (.enter { f with activity := .print e true } .operand e)⟩
  | true =>
    match f.slot with
    | none => ⟨f, s, .error (.valuelessOperand .print)⟩
    | some v =>
      match host.print v s with
      | (.error e, s) => ⟨{ f with slot := none }, s, .error (.host e)⟩
      | (.ok _, s) => ⟨{ f with slot := none }, s, .ok (.leave (handOn v below))⟩

/-- A block acts: it begins its next statement; after the last one it leaves with the value of its slot,
or halts at the root. -/
def actBlock (f : Frame α) (below : List (Frame α)) (begun : List (Node α)) :
    List (Node α) → Effect α ε
  | c :: waiting =>
    .enter { f with activity := .block (c :: begun) waiting } (.statement begun.length) c
  | [] => if below.isEmpty then .halt else .leave (.ok f.slot)

/-- The top frame acts; `below` are the other frames. -/
def act [Strange α] (host : Host σ ε) (f : Frame α) (below : List (Frame α)) (s : σ) : Acted α σ ε :=
  match f.activity with
  | .literal n => ⟨f, s, .ok (.leave (.ok (some n)))⟩
  | .binary symbol l r stage =>
    let (f, effect) := f.actBinary symbol l r stage
    ⟨f, s, effect⟩
  | .print e begun => f.actPrint host below e s begun
  | .block begun waiting => ⟨f, s, .ok (f.actBlock below begun waiting)⟩
  | .foreign a => ⟨f, s, .error (unknownKind (Strange.stranger a))⟩

/-- Puts a value into the slot; no value leaves it. -/
def receive (f : Frame α) : Option Number → Frame α
  | none => f
  | some v => { f with slot := some v }

/-- The frame of a child that begins. -/
def ofChild (parent : Frame α) (t : Node.Turn) (child : Node α) : Frame α :=
  ⟨parent.placeOf t, .start child, none⟩

end Frame

/-- What a step, or a row of steps, gives: the machine and the world after it, and whether there is more
to do, or a fault. -/
structure Outcome (α σ ε : Type) where
  machine : Machine α
  world : σ
  result : Except (Fault ε) Bool

namespace Machine

/-- The frame of a value that leaves goes; the root stays, and halts the machine. -/
def leave (m : Machine α) (top : Frame α) (below : List (Frame α)) : Machine α :=
  match below with
  | [] => { m with stack := [top], halted := true }
  | _ :: _ => { m with stack := below }

/-- Puts a value into the slot of the frame on top. -/
def deliver (m : Machine α) (v : Option Number) : Machine α :=
  match m.stack with
  | [] => m
  | f :: fs => { m with stack := f.receive v :: fs }

def tick (m : Machine α) : Machine α := { m with steps := m.steps + 1 }

def noteHalt (m : Machine α) (host : Host σ ε) (s : σ) : σ :=
  if m.halted then host.note (.halted m.steps) s else s

/-- A step that did not fail ends. -/
def finish (m : Machine α) (host : Host σ ε) (s : σ) : Outcome α σ ε :=
  ⟨m, m.noteHalt host s, .ok !m.halted⟩

/-- Carries out what the top frame does. -/
def carry [Strange α] (host : Host σ ε) (m : Machine α) (below : List (Frame α))
    (acted : Acted α σ ε) : Outcome α σ ε :=
  let stay : Machine α := { m with stack := acted.frame :: below }
  match acted.effect with
  | .error e => ⟨stay, acted.world, .error e⟩
  | .ok (.enter entered turn child) =>
    match child.kind with
    | .error name => ⟨stay, acted.world, .error (.unknownKind name.quoted)⟩
    | .ok _ =>
      finish { m with stack := entered.ofChild turn child :: entered :: below }.tick host acted.world
  | .ok (.leave (.error e)) => ⟨m.leave acted.frame below, acted.world, .error e⟩
  | .ok (.leave (.ok v)) =>
    finish ((m.leave acted.frame below).deliver v).tick host acted.world
  | .ok .halt => finish { stay with halted := true }.tick host acted.world

/-- Takes one step. A machine that has halted takes none. -/
def step [Strange α] (host : Host σ ε) (m : Machine α) (s : σ) : Outcome α σ ε :=
  if m.halted then ⟨m, s, .ok false⟩
  else
    match m.stack with
    | [] => ⟨m, s, .error .emptyStack⟩
    | top :: below =>
      match top.kind with
      | .error e => ⟨m, s, .error e⟩
      | .ok k => carry host m below (top.act host below (host.note (.evaluating k) s))

end Machine
end Pausable
