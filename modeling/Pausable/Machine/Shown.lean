import Pausable.Machine.Step
import Pausable.Value.Shown

/-! Machines as messages show them. -/
namespace Pausable.Machine

variable {α : Type} [Strange α]

/-- The name of the node on top; a stranger has none. -/
def topName (m : Machine α) : Except Stranger Text :=
  match m.stack with
  | [] => .ok "None"
  | f :: _ =>
    match f.activity with
    | .literal _ => .ok Kind.literal.name.quoted
    | .binary .. => .ok Kind.binary.name.quoted
    | .print .. => .ok Kind.print.name.quoted
    | .block .. => .ok Kind.block.name.quoted
    | .foreign a => .error (Strange.stranger a)

/-- The machine with its depth, the node on top and the halted flag. -/
def shown (m : Machine α) : Except Stranger Text :=
  m.topName.map fun name =>
    "Interpreter(depth=" ++ Numeral.ofNat m.stack.length ++ ", top=" ++ name ++ ", halted="
      ++ Value.boolWord m.halted ++ ")"

end Pausable.Machine
