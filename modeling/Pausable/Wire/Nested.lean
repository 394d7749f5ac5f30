import Pausable.Wire.Writer

/-!
The rules of snapshot text by recursion on the value: members between brackets with commas, fields with
their keys, all keys of a record before any of its values.
-/
namespace Pausable.Wire

mutual

def nested : Value → Except WriteError Text
  | .null => .ok "NULL"
  | .bool b => .ok (if b then "TRUE" else "FALSE")
  | .number n => writeNumber n
  | .text t => .ok (quote t)
  | .list vs => (nestedItems vs).map fun ts => "[" ++ Text.join "," ts ++ "]"
  | .tuple vs => (nestedItems vs).map fun ts => "[" ++ Text.join "," ts ++ "]"
  | .record fs =>
    match Piece.keyed fs with
    | .error e => .error e
    | .ok _ => (nestedFields fs).map fun ts => "\x7b" ++ Text.join "," ts ++ "\x7d"
  | .alien name => .error (.unknownType name)

def nestedItems : List Value → Except WriteError (List Text)
  | [] => .ok []
  | v :: vs =>
    match nested v with
    | .error e => .error e
    | .ok t => (nestedItems vs).map (t :: ·)

def nestedFields : List (Value × Value) → Except WriteError (List Text)
  | [] => .ok []
  | (k, v) :: fs =>
    match fieldKey k with
    | .error e => .error e
    | .ok key =>
      match nested v with
      | .error e => .error e
      | .ok t => (nestedFields fs).map ((key ++ ":" ++ t) :: ·)

end

end Pausable.Wire
