import Pausable.Program.Record

/-!
Trees whose operations are given by symbol or by operator, and how they are written: a record is laid out with blanks
for its children, and each blank is filled in its turn, wherever it stands in the record of the whole tree.
-/
namespace Pausable

def Operator.symbol : Operator → Text
  | add => "+"
  | multiply => "*"

/-- How an operation is given. -/
inductive Sign where
  | symbol (s : Text)
  | operator (op : Operator)

def Sign.text : Sign → Text
  | symbol s => s
  | operator op => op.symbol

/-- A tree that is yet to be written. -/
inductive Draft (α : Type) where
  | literal (n : Number)
  | binary (sign : Sign) (left right : Draft α)
  | print (operand : Draft α)
  | block (statements : List (Draft α))
  | foreign (a : α)

namespace Value

/-- The record of a child before it is filled. -/
def blank : Value := .record []

def changeField (name : Text) (g : Value → Value) : List (Value × Value) → List (Value × Value)
  | [] => []
  | (k, v) :: fs => if isName name k then (k, g v) :: fs else (k, v) :: changeField name g fs

def changeItem (i : Nat) (g : Value → Value) : Value → Value
  | .list vs => .list (vs.modify i g)
  | v => v

/-- Changes the child of a record to which a turn leads. -/
def change (t : Node.Turn) (g : Value → Value) : Value → Value
  | .record fs => match t with
    | .left => .record (changeField "left" g fs)
    | .right => .record (changeField "right" g fs)
    | .operand => .record (changeField "expr" g fs)
    | .statement i => .record (changeField "stmts" (changeItem i g) fs)
  | v => v

/-- Puts a record in the place to which the turns lead. -/
def fill (place : List Node.Turn) (w root : Value) : Value :=
  match place with
  | [] => w
  | t :: place => change t (fill place w) root

end Value

namespace Draft

variable {α : Type}

mutual

/-- The tree, with every operation given by its symbol. -/
def node : Draft α → Node α
  | literal n => .literal n
  | binary sign l r => .binary sign.text l.node r.node
  | print e => .print e.node
  | block ss => .block (nodes ss)
  | foreign a => .foreign a

def nodes : List (Draft α) → List (Node α)
  | [] => []
  | s :: ss => s.node :: nodes ss

end

mutual

/-- A tree as it is read, all of its operations given by symbols. -/
def ofNode : Node α → Draft α
  | .literal n => literal n
  | .binary s l r => binary (.symbol s) (ofNode l) (ofNode r)
  | .print e => print (ofNode e)
  | .block ss => block (ofNodes ss)
  | .foreign a => foreign a

def ofNodes : List (Node α) → List (Draft α)
  | [] => []
  | n :: ns => ofNode n :: ofNodes ns

end

mutual

def count : Draft α → Nat
  | literal _ | foreign _ => 1
  | binary _ l r => l.count + r.count + 1
  | print e => e.count + 1
  | block ss => countAll ss + 1

/-- The number of nodes of a row of trees. -/
def countAll : List (Draft α) → Nat
  | [] => 0
  | s :: ss => s.count + countAll ss

end

/-- Statements with their places, the first of them at an index, the last one first. -/
def places (i : Nat) : List (Draft α) → List (Draft α × Node.Turn)
  | [] => []
  | s :: ss => places (i + 1) ss ++ [(s, .statement i)]

/-- The record of a node with blanks for its children, and the children with their places, in the order in which
they are filled. -/
def layout [Strange α] : Draft α → Except NodeError (Value × List (Draft α × Node.Turn))
  | literal n => .ok (Node.fields .literal [Value.named "value" (.number n)], [])
  | binary sign l r => .ok (Node.fields .binary
      [Value.named "op" (.text sign.text), Value.named "left" .blank, Value.named "right" .blank],
      [(l, .left), (r, .right)])
  | print e => .ok (Node.fields .print [Value.named "expr" .blank], [(e, .operand)])
  | block ss => .ok (Node.fields .block [Value.named "stmts" (.list (ss.map fun _ => .blank))], places 0 ss)
  | foreign a => .error (.ofKind (.text (Strange.stranger a).name))

theorem total_places (i : Nat) (ss : List (Draft α)) : total (fun c => c.1.count) (places i ss) = countAll ss := by
  induction ss generalizing i with
  | nil => rfl
  | cons s ss ih => simp [places, countAll, ih, Nat.add_comm]

theorem total_layout [Strange α] {d : Draft α} {v : Value} {children : List (Draft α × Node.Turn)}
    (h : d.layout = .ok (v, children)) : total (fun c => c.1.count) children < d.count := by
  cases d with
  | literal | binary | print | block =>
      cases h
      simp [count, total_places]
  | foreign => cases h

/-- Fills the places that are still blank. -/
def fillPending [Strange α] (pending : List (Draft α × List Node.Turn)) (root : Value) : Except NodeError Value :=
  match pending with
  | [] => .ok root
  | (d, place) :: rest =>
    match _h : d.layout with
    | .error e => .error e
    | .ok (v, children) =>
      fillPending (children.map (fun c => (c.1, place ++ [c.2])) ++ rest) (Value.fill place v root)
termination_by total (fun p => p.1.count) pending
decreasing_by
  have := total_layout _h
  simp only [total_append, total_cons, total_map]
  omega

/-- The record of a tree. -/
def toValue [Strange α] (d : Draft α) : Except NodeError Value := fillPending [(d, [])] .blank

end Draft
end Pausable
