import Pausable.Program.Draft
import Pausable.Proofs.Program.Pruned

/-!
Filling the blanks of a record one after the other comes to the record that the recursion gives
(`Draft.toValue_node`), so trees and their records are inverse to each other (`Draft.toValue_inverse`).
-/
namespace Pausable

/-! ## Places -/

namespace Value

theorem changeField_changeField (name : Text) (g h : Value → Value) (fs : List (Value × Value)) :
    changeField name g (changeField name h fs) = changeField name (g ∘ h) fs := by
  induction fs with
  | nil => rfl
  | cons f fs ih =>
      obtain ⟨k, v⟩ := f
      simp only [changeField]
      split <;> simp_all [changeField]

theorem changeItem_comp (i : Nat) (g h : Value → Value) : changeItem i g ∘ changeItem i h = changeItem i (g ∘ h) := by
  funext v
  cases v <;> simp [changeItem, List.modify_modify_eq]

theorem change_change (t : Node.Turn) (g h : Value → Value) (v : Value) :
    change t g (change t h v) = change t (g ∘ h) v := by
  cases v with
  | record fs => cases t <;> simp only [change, changeField_changeField, changeItem_comp]
  | null | bool | number | text | list | tuple | alien => rfl

/-- Once a place holds a record, filling a place in it is filling it there. -/
theorem fill_append (p q : List Node.Turn) (v w root : Value) :
    fill (p ++ q) w (fill p v root) = fill p (fill q w v) root := by
  induction p generalizing root with
  | nil => rfl
  | cons t p ih =>
      simp only [List.cons_append, fill, change_change]
      congr 1
      funext x
      exact ih x

end Value

namespace Draft

open Value

variable {α : Type}

mutual

theorem node_ofNode : (n : Node α) → (ofNode n).node = n
  | .literal n => rfl
  | .binary s l r => by rw [ofNode, node, node_ofNode l, node_ofNode r]; rfl
  | .print e => by rw [ofNode, node, node_ofNode e]
  | .block ss => by rw [ofNode, node, nodes_ofNodes ss]
  | .foreign a => rfl

theorem nodes_ofNodes : (ns : List (Node α)) → nodes (ofNodes ns) = ns
  | [] => rfl
  | n :: ns => by rw [ofNodes, nodes, node_ofNode n, nodes_ofNodes ns]

end

/-! ## Filling -/

variable [Strange α]

theorem fill_left (s : Text) (vl vr w : Value) :
    fill [.left] w (Node.fields .binary [named "op" (.text s), named "left" vl, named "right" vr]) =
      Node.fields .binary [named "op" (.text s), named "left" w, named "right" vr] := rfl

theorem fill_right (s : Text) (vl vr w : Value) :
    fill [.right] w (Node.fields .binary [named "op" (.text s), named "left" vl, named "right" vr]) =
      Node.fields .binary [named "op" (.text s), named "left" vl, named "right" w] := rfl

theorem fill_operand (v w : Value) :
    fill [.operand] w (Node.fields .print [named "expr" v]) = Node.fields .print [named "expr" w] := rfl

theorem fill_statement (before after : List Value) (v w : Value) :
    fill [.statement before.length] w (Node.fields .block [named "stmts" (.list (before ++ v :: after))]) =
      Node.fields .block [named "stmts" (.list (before ++ w :: after))] := by
  have hmodify : (before ++ v :: after).modify before.length (fun _ => w) = before ++ w :: after := by
    rw [List.modify_eq_take_cons_drop (by simp)]
    simp
  rw [← hmodify]
  rfl

@[simp] theorem fillPending_nil (root : Value) : fillPending ([] : List (Draft α × List Node.Turn)) root = .ok root := by
  rw [fillPending]

theorem fillPending_layout {d : Draft α} {v : Value} {children : List (Draft α × Node.Turn)}
    (h : d.layout = .ok (v, children)) (place : List Node.Turn) (rest : List (Draft α × List Node.Turn))
    (root : Value) :
    fillPending ((d, place) :: rest) root =
      fillPending (children.map (fun c => (c.1, place ++ [c.2])) ++ rest) (fill place v root) := by
  rw [fillPending]
  split <;> simp_all

mutual

/-- A pending tree is written into its place, or refused, whatever is pending behind it. -/
theorem fillPending_cons : (d : Draft α) → (place : List Node.Turn) → (rest : List (Draft α × List Node.Turn)) →
    (root : Value) → fillPending ((d, place) :: rest) root = match d.node.toValue with
      | .error e => .error e
      | .ok v => fillPending rest (fill place v root)
  | literal n, place, rest, root => by
      rw [fillPending_layout rfl]
      rfl
  | binary sign l r, place, rest, root => by
      rw [fillPending_layout rfl]
      simp only [List.map_cons, List.map_nil, List.cons_append, List.nil_append, node, Node.toValue]
      rw [fillPending_cons l]
      cases l.node.toValue with
      | error e => rfl
      | ok vl =>
          simp only [fill_append, fill_left]
          rw [fillPending_cons r]
          cases r.node.toValue with
          | error e => rfl
          | ok vr => simp only [fill_append, fill_right]
  | print e, place, rest, root => by
      rw [fillPending_layout rfl]
      simp only [List.map_cons, List.map_nil, List.cons_append, List.nil_append, node, Node.toValue]
      rw [fillPending_cons e]
      cases e.node.toValue with
      | error e => rfl
      | ok v => simp only [fill_append, fill_operand, Except.map]
  | block ss, place, rest, root => by
      rw [fillPending_layout rfl]
      have := fillPending_places ss [] place rest root
      simp only [List.length_nil, List.nil_append] at this
      rw [this, node, Node.toValue]
      cases Node.toValues (nodes ss) <;> rfl
  | foreign a, place, rest, root => by
      rw [fillPending]
      rfl

/-- Statements are written into their places from the last one to the first one. -/
theorem fillPending_places : (ss : List (Draft α)) → (before : List Value) → (place : List Node.Turn) →
    (rest : List (Draft α × List Node.Turn)) → (root : Value) →
    fillPending ((places before.length ss).map (fun c => (c.1, place ++ [c.2])) ++ rest)
      (fill place (Node.fields .block [named "stmts" (.list (before ++ ss.map fun _ => blank))]) root) =
    match Node.toValues (nodes ss) with
      | .error e => .error e
      | .ok vs => fillPending rest (fill place (Node.fields .block [named "stmts" (.list (before ++ vs))]) root)
  | [], before, place, rest, root => rfl
  | s :: ss, before, place, rest, root => by
      have hss := fillPending_places ss (before ++ [blank]) place
        ((s, place ++ [.statement before.length]) :: rest) root
      simp only [List.length_append, List.length_singleton, List.append_assoc, List.cons_append, List.nil_append] at hss
      simp only [places, List.map_append, List.map_cons, List.map_nil, List.append_assoc, List.cons_append,
        List.nil_append, hss, nodes, Node.toValues]
      cases Node.toValues (nodes ss) with
      | error e => rfl
      | ok vs =>
          simp only []
          rw [fillPending_cons s]
          cases s.node.toValue with
          | error e => rfl
          | ok v => simp only [fill_append, fill_statement, Except.map]

end

/-- Filling blanks gives the record that the recursion over the tree gives. -/
theorem toValue_node (d : Draft α) : d.toValue = d.node.toValue := by
  rw [toValue, fillPending_cons]
  cases d.node.toValue with
  | error e => rfl
  | ok v => simp only [fillPending_nil, fill]

/-! ## Trees and records -/

/-- Every tree of the four kinds has a record, which is read as that tree, operators as their symbols; and the record of
a tree that was read is what was read without the fields that its nodes do not have. -/
theorem toValue_inverse :
    (∀ d : Draft Empty, ∃ v, d.toValue = .ok v ∧ d.node.toValue = .ok v ∧ Node.ofValue v = .ok d.node) ∧
    ∀ (v : Value) (n : Node Empty), Node.ofValue v = .ok n →
      ∃ w, (ofNode n).toValue = .ok w ∧ n.toValue = .ok w ∧ Node.Pruned v w := by
  constructor
  · intro d
    obtain ⟨v, hv⟩ := d.node.exists_toValue d.node.native_empty
    exact ⟨v, by rw [toValue_node, hv], hv, Node.ofValue_toValue hv⟩
  · intro v n h
    obtain ⟨w, hw, hpruned⟩ := Node.pruned_ofValue h
    exact ⟨w, by rw [toValue_node, node_ofNode, hw], hw, hpruned⟩

/-- A print with fields that are not its own. -/
def notedPrint : Value :=
  .record [named "line" (.number (.int 3)), named "kind" (.text "print"), named "stmts" .null,
    named "expr" (.record [named "value" (.number (.int 7)), named "op" (.text "+"), named "kind" (.text "literal")])]

theorem toValue_inverse_notedPrint :
    Node.ofValue notedPrint = .ok (.print (.literal (.int 7)) : Node Empty) ∧
    ∃ w, (ofNode (.print (.literal (.int 7)) : Node Empty)).toValue = .ok w ∧
      (.print (.literal (.int 7)) : Node Empty).toValue = .ok w ∧ Node.Pruned notedPrint w := by
  have hread : Node.ofValue notedPrint = .ok (.print (.literal (.int 7)) : Node Empty) := by
    rw [Node.ofValue_nested, Node.nested_ok_iff]
    exact ⟨_, rfl, .print rfl rfl (Node.nested_ok_iff.2 ⟨_, rfl, .literal rfl rfl⟩)⟩
  exact ⟨hread, toValue_inverse.2 notedPrint _ hread⟩

end Draft

end Pausable
