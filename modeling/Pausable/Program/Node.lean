import Pausable.Value

/-!
Program trees: number literals, binary operations, prints and blocks of statements. A tree may also hold
members that are none of these, of a type `α`; over the empty type there are none.
-/
namespace Pausable

inductive Kind where
  | literal
  | binary
  | print
  | block
deriving DecidableEq

/-- The name of a kind in records and messages. -/
def Kind.name : Kind → Text
  | literal => "literal"
  | binary => "binop"
  | print => "print"
  | block => "program"

def Kind.all : List Kind := [.literal, .binary, .print, .block]

def Kind.ofValue? (v : Value) : Option Kind := all.find? fun k => Value.isName k.name v

/-- A node of a program. The symbol of an operation is any text; only applying it asks for more. -/
inductive Node (α : Type) where
  | literal (n : Number)
  | binary (symbol : Text) (left right : Node α)
  | print (operand : Node α)
  | block (statements : List (Node α))
  | foreign (a : α)

/-- What can stand in a tree without being one of the four kinds: a node of some other kind, a node of no
kind at all, or a value that is no node. -/
inductive Stranger where
  | kind (name : Text)
  | kindless
  | value (v : Value)

/-- Types whose members can be strangers in a tree. -/
class Strange (α : Type) where
  stranger : α → Stranger

instance : Strange Empty := ⟨nofun⟩
instance : Strange Stranger := ⟨id⟩

/-- The name under which a stranger is refused: its kind, or its type where it has none. -/
def Stranger.name : Stranger → Text
  | kind name => name
  | kindless => "ASTNode"
  | value v => v.typeName

/-- Strangers are equal by kind or by value. -/
def Stranger.same : Stranger → Stranger → Bool
  | kind a, kind b => a = b
  | kindless, kindless => true
  | value v, value w => v.same w
  | _, _ => false

namespace Node

variable {α : Type}

mutual

def count : Node α → Nat
  | literal _ | foreign _ => 1
  | binary _ l r => l.count + r.count + 1
  | print e => e.count + 1
  | block ss => countAll ss + 1

/-- The number of nodes of a row of trees. -/
def countAll : List (Node α) → Nat
  | [] => 0
  | s :: ss => s.count + countAll ss

end

theorem count_pos (n : Node α) : 0 < n.count := by
  cases n <;> simp [count]

/-- The kind of a node, or the name under which it is refused. -/
def kind [Strange α] : Node α → Except Text Kind
  | literal _ => .ok .literal
  | binary .. => .ok .binary
  | print _ => .ok .print
  | block _ => .ok .block
  | foreign a => .error (Strange.stranger a).name

mutual

def same [Strange α] : Node α → Node α → Bool
  | literal m, n => match n with
    | literal n => m.sameValue n
    | _ => false
  | binary s l r, n => match n with
    | binary s' l' r' => s = s' && same l l' && same r r'
    | _ => false
  | print e, n => match n with
    | print e' => same e e'
    | _ => false
  | block ss, n => match n with
    | block ss' => sameAll ss ss'
    | _ => false
  | foreign a, n => match n with
    | foreign b => (Strange.stranger a).same (Strange.stranger b)
    | _ => false

/-- Equality of rows of trees, numbers compared by value. -/
def sameAll [Strange α] : List (Node α) → List (Node α) → Bool
  | [], ns => ns.isEmpty
  | s :: ss, ns => match ns with
    | [] => false
    | n :: ns => same s n && sameAll ss ns

end

mutual

/-- Trees can be compared for being the same tree. -/
def decEq [DecidableEq α] : (m n : Node α) → Decidable (m = n)
  | literal a, n => match n with
    | literal b => decidable_of_iff (a = b) (by simp)
    | binary .. | print _ | block _ | foreign _ => isFalse (by simp)
  | binary s l r, n => match n with
    | binary s' l' r' =>
      match decEq l l', decEq r r' with
      | isTrue hl, isTrue hr => decidable_of_iff (s = s') (by simp [hl, hr])
      | isFalse hl, _ => isFalse (by simp [hl])
      | _, isFalse hr => isFalse (by simp [hr])
    | literal _ | print _ | block _ | foreign _ => isFalse (by simp)
  | print e, n => match n with
    | print e' => match decEq e e' with
      | isTrue h => isTrue (by simp [h])
      | isFalse h => isFalse (by simp [h])
    | literal _ | binary .. | block _ | foreign _ => isFalse (by simp)
  | block ss, n => match n with
    | block ns => match decEqAll ss ns with
      | isTrue h => isTrue (by simp [h])
      | isFalse h => isFalse (by simp [h])
    | literal _ | binary .. | print _ | foreign _ => isFalse (by simp)
  | foreign a, n => match n with
    | foreign b => decidable_of_iff (a = b) (by simp)
    | literal _ | binary .. | print _ | block _ => isFalse (by simp)

/-- Rows of trees can be compared for being the same row. -/
def decEqAll [DecidableEq α] : (ms ns : List (Node α)) → Decidable (ms = ns)
  | [], ns => match ns with
    | [] => isTrue rfl
    | _ :: _ => isFalse (by simp)
  | m :: ms, ns => match ns with
    | [] => isFalse (by simp)
    | n :: ns => match decEq m n, decEqAll ms ns with
      | isTrue h, isTrue hs => isTrue (by simp [h, hs])
      | isFalse h, _ => isFalse (by simp [h])
      | _, isFalse hs => isFalse (by simp [hs])

end

instance [DecidableEq α] : DecidableEq (Node α) := decEq

/-- One turn on the way from a node to one of its children. -/
inductive Turn where
  | left
  | right
  | operand
  | statement (index : Nat)
deriving DecidableEq

def child? (n : Node α) (t : Turn) : Option (Node α) :=
  match n, t with
  | binary _ l _, .left => some l
  | binary _ _ r, .right => some r
  | print e, .operand => some e
  | block ss, .statement i => ss[i]?
  | _, _ => none

end Node
end Pausable
