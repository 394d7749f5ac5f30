import Pausable.Machine.Step

/-! Beginning a machine, and its stack seen and changed from outside. -/
namespace Pausable

/-- The reasons for which a tree has no machine. -/
inductive StartError where
  | noRoot
  | notNode (typeName : Text)
  /-- A node that is none of the four kinds; the name as messages show it. -/
  | unknownKind (shown : Text)
deriving DecidableEq

def StartError.message : StartError → Text
  | noRoot => "[E_INVALID_PROGRAM] Interpreter needs a root node"
  | notNode t => "[E_INVALID_PROGRAM] Root must be an AST node, got " ++ t
  | unknownKind shown => "[E_UNKNOWN_NODE_KIND] Unknown node kind: " ++ shown

namespace Machine

variable {α ε : Type}

/-- A machine with one frame, for the root. -/
def ofRoot (n : Node α) : Machine α := ⟨[⟨some [], .start n, none⟩], false, 0⟩

def start [Strange α] (n : Node α) : Except StartError (Machine α) :=
  match n with
  | .foreign a => match Strange.stranger a with
    | .value .null => .error .noRoot
    | .value v => .error (.notNode v.typeName)
    | s => .error (.unknownKind s.name.quoted)
  | n => .ok (ofRoot n)

def depth (m : Machine α) : Nat := m.stack.length

/-- The value in the slot of the root. -/
def value (m : Machine α) : Option Number := m.stack.getLast?.bind (·.slot)

def root? (m : Machine α) : Option (Node α) := m.stack.getLast?.map (·.node)

def top (m : Machine α) : Except (Fault ε) (Frame α) :=
  match m.stack with
  | [] => .error .emptyStack
  | f :: _ => .ok f

/-- Puts a frame on top. On an empty stack it is a root. -/
def pushFrame (m : Machine α) (place : Option (List Node.Turn)) (a : Activity α) : Machine α :=
  { m with stack := ⟨if m.stack.isEmpty then some [] else place, a, none⟩ :: m.stack }

/-- Puts a node that has not begun on top. -/
def push [Strange α] (m : Machine α) (place : Option (List Node.Turn)) (n : Node α) :
    Except (Fault ε) (Machine α) :=
  match n.kind with
  | .error name => .error (.unknownKind name.quoted)
  | .ok _ => .ok (m.pushFrame place (.start n))

/-- Takes the frame off the top. The root stays, and halts the machine. -/
def pop (m : Machine α) : Except (Fault ε) (Frame α × Machine α) :=
  match m.stack with
  | [] => .error .emptyStack
  | f :: below => .ok (f, m.leave f below)

def belowTop? (m : Machine α) : Option (Frame α) := m.stack[1]?

def put (m : Machine α) (v : Option Number) : Except (Fault ε) (Machine α) :=
  match m.stack with
  | [] => .error .emptyStack
  | f :: below => .ok { m with stack := { f with slot := v } :: below }

/-- Empties the slot on top and gives what was in it. -/
def take (m : Machine α) : Except (Fault ε) (Option Number × Machine α) :=
  match m.stack with
  | [] => .error .emptyStack
  | f :: below => .ok (f.slot, { m with stack := { f with slot := none } :: below })

end Machine

/-- The node that a row of turns leads to. -/
def Node.descend? {α : Type} (n : Node α) : List Node.Turn → Option (Node α)
  | [] => some n
  | t :: ts => match n.child? t with
    | none => none
    | some c => c.descend? ts

end Pausable
