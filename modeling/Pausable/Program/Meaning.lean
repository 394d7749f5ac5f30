import Pausable.Machine.Step

/-!
What a program means, by recursion on its tree: the numbers that it prints, in order, and its value or
the fault that ends it. Printing itself never fails here.
-/
namespace Pausable

/-- What comes of a node. -/
structure Meaning where
  prints : List Number
  result : Except (Fault Empty) (Option Number)

namespace Meaning

def ofValue (v : Option Number) : Meaning := ⟨[], .ok v⟩

def ofFault (f : Fault Empty) : Meaning := ⟨[], .error f⟩

/-- Goes on with the value. -/
def andThen (m : Meaning) (next : Option Number → Meaning) : Meaning :=
  match m.result with
  | .error f => ⟨m.prints, .error f⟩
  | .ok v => ⟨m.prints ++ (next v).prints, (next v).result⟩

/-- Goes on with the value, which the consumer must have. -/
def feed (m : Meaning) (c : Consumer) (next : Number → Meaning) : Meaning :=
  m.andThen fun
    | none => ofFault (.valuelessOperand c)
    | some v => next v

/-- Applies an operation to its left value and what there is on the right. The symbol is looked at before
the right value is missed. -/
def apply (symbol : Text) (v : Number) (right : Option Number) : Meaning :=
  match Operator.ofSymbol? symbol with
  | none => ofFault (.unsupportedOperator symbol)
  | some op =>
    match right with
    | none => ofFault (.valuelessOperand .rightOperand)
    | some w =>
      match Number.combine? op v w with
      | none => ofFault .integerTooLarge
      | some x => ofValue (some x)

end Meaning

namespace Node

mutual

/-- The meaning of a node. A print yields its number only where `handsOn` says so: at the root and as a
statement of a block. -/
def meaning (handsOn : Bool) : Node Empty → Meaning
  | literal n => .ofValue (some n)
  | binary symbol l r =>
    (l.meaning false).feed .leftOperand fun v => (r.meaning false).andThen (.apply symbol v)
  | print e =>
    (e.meaning false).feed .print fun v => ⟨[v], .ok (if handsOn then some v else none)⟩
  | block ss => meaningAll none ss

/-- The meaning of statements in a row: the last value there is, from the one before them on. -/
def meaningAll (last : Option Number) : List (Node Empty) → Meaning
  | [] => .ofValue last
  | s :: ss => (s.meaning true).andThen fun v => meaningAll (v.or last) ss

end

end Node
end Pausable
