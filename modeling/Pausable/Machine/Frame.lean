import Pausable.Program.Node

/-!
The frames of a machine. A frame is one node whose evaluation has begun: what it is doing, where it lies
in the tree, and the slot in which the value of a finished child arrives.
-/
namespace Pausable

/-- How far a binary operation got. Before the right operand begins the left one need not be known. -/
inductive Stage where
  | before (left : Option Number)
  | onLeft (left : Option Number)
  | onRight (left : Number)
deriving DecidableEq

/-- What a frame is doing: a node, cut where its evaluation stands. Of the statements of a block the begun
ones are kept last first. -/
inductive Activity (α : Type) where
  | literal (n : Number)
  | binary (symbol : Text) (left right : Node α) (stage : Stage)
  | print (operand : Node α) (begun : Bool)
  | block (begun waiting : List (Node α))
  | foreign (a : α)
deriving DecidableEq

namespace Activity

variable {α : Type}

/-- A node that nothing is done of. -/
def start : Node α → Activity α
  | .literal n => literal n
  | .binary s l r => binary s l r (.before none)
  | .print e => print e false
  | .block ss => block [] ss
  | .foreign a => foreign a

/-- The whole node. -/
def node : Activity α → Node α
  | literal n => .literal n
  | binary s l r _ => .binary s l r
  | print e _ => .print e
  | block begun waiting => .block (begun.reverse ++ waiting)
  | foreign a => .foreign a

/-- The child begun last, and the turn to it. -/
def child? : Activity α → Option (Node.Turn × Node α)
  | literal _ | foreign _ => none
  | binary _ l r stage => match stage with
    | .before _ => none
    | .onLeft _ => some (.left, l)
    | .onRight _ => some (.right, r)
  | print e begun => if begun then some (.operand, e) else none
  | block begun _ => match begun with
    | [] => none
    | s :: earlier => some (.statement earlier.length, s)

/-- The steps that are left to do here and in children that have not begun, if none fails: each node
takes one step to begin and one to leave it, save that the outermost frame is already begun. -/
def work : Activity α → Nat
  | literal _ | foreign _ => 1
  | binary _ l r stage => match stage with
    | .before _ => 2 * l.count + 2 * r.count + 1
    | .onLeft _ => 2 * r.count + 1
    | .onRight _ => 1
  | print e begun => if begun then 1 else 2 * e.count + 1
  | block _ waiting => 2 * Node.countAll waiting + 1

@[simp] theorem node_start (n : Node α) : (start n).node = n := by cases n <;> rfl

/-- A node that has not begun takes all its steps but the one that begins it. -/
theorem work_start (n : Node α) : (start n).work + 1 = 2 * n.count := by
  cases n <;> simp [start, work, Node.count] <;> omega

end Activity

/-- One frame of the stack. The place is the way from the root of the tree, last turn first; a frame of
a node from elsewhere has none. -/
structure Frame (α : Type) where
  place : Option (List Node.Turn)
  activity : Activity α
  slot : Option Number
deriving DecidableEq

namespace Frame

variable {α : Type}

def node (f : Frame α) : Node α := f.activity.node

def placeOf (f : Frame α) (t : Node.Turn) : Option (List Node.Turn) := f.place.map (t :: ·)

/-- The frame is of the child that the one below it began last: the same node of the same tree. -/
def continues (f below : Frame α) : Bool :=
  match below.activity.child? with
  | none => false
  | some (t, _) => f.place.isSome && f.place = below.placeOf t

end Frame
end Pausable
