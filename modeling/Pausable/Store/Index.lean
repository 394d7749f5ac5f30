import Pausable.Store.Snapshots

/-! The rows of an index as a text, so that an index can be kept between two runs of the program. -/
namespace Pausable

namespace Row

def toValue (r : Row) : Value :=
  .record [
    Value.named "handle" (.text r.handle.toText),
    Value.named "label" (match r.label with
      | none => .null
      | some t => .text t),
    Value.named "depth" (.int r.depth),
    Value.named "halted" (.bool r.halted),
    Value.named "size" (.int r.textSize),
    Value.named "created" (.int r.created),
    Value.named "tags" r.tags]

def natural? (name : Text) (fs : List (Value × Value)) : Option Nat :=
  match Value.field? name fs with
  | some (.number (.int n)) => if 0 ≤ n then some n.toNat else none
  | _ => none

def text? (name : Text) (fs : List (Value × Value)) : Option Text :=
  match Value.field? name fs with
  | some (.text t) => some t
  | _ => none

def ofValue? : Value → Option Row
  | .record fs => do
    let handle ← Handle.ofText? (← text? "handle" fs)
    let depth ← natural? "depth" fs
    let textSize ← natural? "size" fs
    let created ← natural? "created" fs
    let tags ← Value.field? "tags" fs
    match Value.field? "halted" fs with
    | some (.bool halted) => some ⟨handle, text? "label" fs, depth, halted, textSize, created, tags⟩
    | _ => none
  | _ => none

end Row

namespace Store

def indexText (s : Store) : Except Wire.WriteError Text := Wire.write (.list (s.rows.map Row.toValue))

def rowsOfText? (t : Text) : Option (List Row) :=
  match Wire.read t with
  | .ok (.list vs) => vs.mapM Row.ofValue?
  | _ => none

end Store
end Pausable
