import Pausable.Value

/-! Containers while they are read: what a reader keeps on its stack, and what it does next. -/
namespace Pausable

inductive Shape where
  | list
  | record
deriving DecidableEq

/-- A container that is still open: the members read so far, those of a list last first. -/
inductive Container where
  | list (items : List Value)
  | record (fields : List (Value × Value)) (key : Text)

namespace Container

def shape : Container → Shape
  | list _ => .list
  | record _ _ => .record

def closer : Container → CodePoint
  | list _ => ']'
  | record _ _ => '\x7d'

/-- Adds a member; in a record it belongs to the pending key. -/
def add (v : Value) : Container → Container
  | list items => list (v :: items)
  | record fields key => record (Value.setField (.text key) v fields) key

def close : Container → Value
  | list items => .list items.reverse
  | record fields _ => .record fields

end Container

/-- What the reader does next: it looks for a value, or it has one to put away. -/
inductive Task where
  | seek
  | store (v : Value)

/-- What begins at a code point that begins a value. -/
inductive Opening where
  | value (v : Value)
  | container (k : Container)

end Pausable
