import Pausable.Program.Record

/-!
The tree of a record by recursion: a node is checked before its children, and each child is read to its
end before the next one.
-/
namespace Pausable

namespace Node

variable {α : Type}

/-- A node of the trees of its children. -/
def Head.node? : Head → List (Node α) → Option (Node α)
  | .literal n, [] => some (.literal n)
  | .binary s, [l, r] => some (.binary s l r)
  | .print, [e] => some (.print e)
  | .block n, ss => if ss.length = n then some (.block ss) else none
  | _, _ => none

/-- The children of a record are smaller than the record. -/
theorem size_lt_of_head {v : Value} {h : Head} {children : List Value}
    (hh : head v = .ok (h, children)) {c : Value} (hc : c ∈ children) : c.size < v.size := by
  have hw := Pending.totalWeight_children hh
  have hm : Pending.weight (.check c) ≤ Pending.totalWeight (children.map .check) := by
    clear hw hh
    induction children with
    | nil => simp at hc
    | cons d ds ih =>
      simp only [List.map_cons, Pending.totalWeight_cons]
      rcases List.mem_cons.1 hc with rfl | hc
      · omega
      · have := ih hc; omega
  simp only [Pending.weight] at hw hm
  omega

/-- The tree of a record. -/
def nested (v : Value) : Except NodeError (Node α) :=
  match _hh : head v with
  | .error e => .error e
  | .ok (h, children) =>
    match children.attach.mapM fun c => nested c.1 with
    | .error e => .error e
    | .ok nodes =>
      match h.node? nodes with
      | some n => .ok n
      | none => .error (.malformed .nothing)
termination_by v.size
decreasing_by exact size_lt_of_head _hh c.2

end Node
end Pausable
