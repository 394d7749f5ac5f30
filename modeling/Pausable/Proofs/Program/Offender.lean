import Pausable.Proofs.Program.Nested
import Pausable.Proofs.Result

/-!
The node for which a record is refused. A kind has a row of requirements, in the order in which they are looked at;
the nodes of a record stand in a row as well, each before its children and these from left to right. The reader refuses
a record for the first node in that row that misses a requirement (`Node.nested_error_iff`).
-/
namespace Pausable.Node

variable {α : Type}

/-! ## Requirements -/

/-- A field that a kind must have, and what is wrong with another value there. -/
structure Requirement where
  field : Text
  misfit? : Value → Option Malformed

def number? : Value → Option Malformed
  | .number _ => none
  | v => some (.literalType v.typeName)

def symbol? : Value → Option Malformed
  | .text _ => none
  | _ => some .symbolNotText

def statements? : Value → Option Malformed
  | .list _ => none
  | _ => some .statementsNotList

def anything? : Value → Option Malformed := fun _ => none

def requirements : Kind → List Requirement
  | .literal => [⟨"value", number?⟩]
  | .binary => [⟨"op", symbol?⟩, ⟨"left", anything?⟩, ⟨"right", anything?⟩]
  | .print => [⟨"expr", anything?⟩]
  | .block => [⟨"stmts", statements?⟩]

def Requirement.breach? (k : Kind) (fs : List (Value × Value)) (r : Requirement) : Option Malformed :=
  match Value.field? r.field fs with
  | none => some (.missing k r.field)
  | some v => r.misfit? v

/-- What is wrong with a node by itself, its children not looked at. -/
def offence? : Value → Option NodeError
  | .record fs => match Value.field? "kind" fs with
    | none => some (.malformed .noKind)
    | some k => match Kind.ofValue? k with
      | none => some (.ofKind k)
      | some k => ((requirements k).findSome? (·.breach? k fs)).map .malformed
  | v => some (.malformed (.notRecord v.typeName))

/-! ## The nodes of a record -/

/-- The values in the places of children. -/
def members : Value → List Value
  | .record fs => match (Value.field? "kind" fs).bind Kind.ofValue? with
    | some .binary => (Value.field? "left" fs).toList ++ (Value.field? "right" fs).toList
    | some .print => (Value.field? "expr" fs).toList
    | some .block => match Value.field? "stmts" fs with
      | some (.list vs) => vs
      | _ => []
    | _ => []
  | _ => []

theorem size_lt_of_members {v c : Value} (h : c ∈ members v) : c.size < v.size := by
  cases v with
  | record fs =>
      have hfield {name : Text} (hc : Value.field? name fs = some c) : c.size < (Value.record fs).size := by
        have := Value.size_lt_of_field hc
        simp only [Value.size]
        omega
      simp only [members] at h
      split at h
      · simp only [List.mem_append, Option.mem_toList] at h
        rcases h with h | h <;> exact hfield h
      · exact hfield (Option.mem_toList.1 h)
      · split at h
        · rename_i vs hstmts
          have hlist := Value.size_lt_of_field hstmts
          have hitem : c.size < Value.sizeItems vs := by
            clear hstmts hlist hfield
            induction vs with
            | nil => cases h
            | cons w ws ih =>
                simp only [Value.sizeItems]
                rcases List.mem_cons.1 h with rfl | h
                · omega
                · have := ih h
                  omega
          simp only [Value.size] at hlist ⊢
          omega
        · cases h
      · cases h
  | null | bool | number | text | list | tuple | alien => cases h

/-- A record and all that it holds in the places of nodes. -/
def preorder (v : Value) : List Value := v :: (members v).attach.flatMap fun c => preorder c.1
termination_by v.size
decreasing_by exact size_lt_of_members c.2

theorem preorder_eq (v : Value) : preorder v = v :: (members v).flatMap preorder := by
  rw [preorder, List.flatMap_subtype fun _ _ => rfl, List.unattach_attach]

/-! ## The first offender -/

theorem failure?_headOfKind {k : Kind} {fs : List (Value × Value)} {v : Value}
    (hk : Value.field? "kind" fs = some v) (hv : Kind.ofValue? v = some k) :
    failure? (headOfKind fs k) = offence? (.record fs) := by
  simp only [offence?, hk, hv]
  cases k with
  | literal =>
      simp only [headOfKind, need_eq, requirements, List.findSome?_cons, Requirement.breach?]
      cases Value.field? "value" fs with
      | none => simp [failure?]
      | some v => cases v <;> simp [failure?, number?]
  | binary =>
      simp only [headOfKind, need_eq, requirements, List.findSome?_cons, Requirement.breach?]
      cases Value.field? "op" fs with
      | none => simp [failure?]
      | some v =>
          cases v with
          | text s =>
              cases Value.field? "left" fs with
              | none => simp [failure?, symbol?]
              | some l => cases Value.field? "right" fs <;> simp [failure?, symbol?, anything?]
          | null | bool | number | list | tuple | record | alien => simp [failure?, symbol?]
  | print =>
      simp only [headOfKind, need_eq, requirements, List.findSome?_cons, Requirement.breach?]
      cases Value.field? "expr" fs <;> simp [failure?, Except.map, anything?]
  | block =>
      simp only [headOfKind, need_eq, requirements, List.findSome?_cons, Requirement.breach?]
      cases Value.field? "stmts" fs with
      | none => simp [failure?]
      | some v => cases v <;> simp [failure?, statements?]

theorem failure?_head (v : Value) : failure? (head v) = offence? v := by
  cases v with
  | record fs =>
      simp only [head]
      cases hk : Value.field? "kind" fs with
      | none => simp [failure?, offence?, hk]
      | some k =>
          cases hv : Kind.ofValue? k with
          | none => simp [failure?, offence?, hk, hv]
          | some k => simpa only [hv] using failure?_headOfKind hk hv
  | null | bool | number | text | list | tuple | alien => rfl

theorem members_of_head {v : Value} {h : Head} {children : List Value} (hh : head v = .ok (h, children)) :
    members v = children := by
  obtain ⟨fs, rfl, hfs⟩ := headed hh
  have hkind (k : Kind) : Kind.ofValue? (.text k.name) = some k := by cases k <;> decide
  cases hfs with
  | literal hk | binary hk _ hl hr | print hk he | block hk hs => simp [members, *]

theorem failure?_mapM_nested {vs : List Value}
    (hvs : ∀ v ∈ vs, failure? (nested v : Except NodeError (Node α)) = (preorder v).findSome? offence?) :
    failure? (vs.mapM nested : Except NodeError (List (Node α))) = (vs.flatMap preorder).findSome? offence? := by
  induction vs with
  | nil => rfl
  | cons v vs ih =>
      obtain ⟨hv, hvs⟩ := List.forall_mem_cons.1 hvs
      rw [mapM_nested_cons, List.flatMap_cons, List.findSome?_append, ← hv, ← ih hvs]
      cases (nested v : Except NodeError (Node α)) with
      | error e => rfl
      | ok n => cases (vs.mapM nested : Except NodeError (List (Node α))) <;> rfl

/-- The reader fails with what is wrong with the first node that has something wrong. -/
theorem failure?_nested (v : Value) :
    failure? (nested v : Except NodeError (Node α)) = (preorder v).findSome? offence? := by
  induction hs : v.size using Nat.strongRecOn generalizing v with
  | ind size ih =>
      rw [preorder_eq, List.findSome?_cons, ← failure?_head, nested_eq]
      cases hh : head v with
      | error e => rfl
      | ok hc =>
          obtain ⟨h, children⟩ := hc
          rw [members_of_head hh, failure?, ← failure?_mapM_nested fun c hc =>
            ih c.size (hs ▸ size_lt_of_head hh hc) c rfl]
          cases hnodes : (children.mapM nested : Except NodeError (List (Node α))) with
          | error e => simp only [hnodes, failure?]
          | ok nodes =>
              obtain ⟨n, hn, -⟩ := h.exists_node ((length_mapM_nested hnodes).trans (length_children hh)) []
              simp only [hnodes, hn, failure?]

theorem nested_error_iff {v : Value} {e : NodeError} :
    (nested v : Except NodeError (Node α)) = .error e ↔ (preorder v).findSome? offence? = some e := by
  rw [← failure?_eq_some, failure?_nested]

end Pausable.Node
