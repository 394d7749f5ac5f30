import Pausable.Program.Node
import Pausable.Value.Shown

/-!
Trees as records: a field with the kind, and the fields of that kind. Reading keeps the nodes whose
children are not yet built on a list and the built ones on a stack.
-/
namespace Pausable

/-- What is wrong with a record that has the place of a node. -/
inductive Malformed where
  | notRecord (typeName : Text)
  | noKind
  | literalType (typeName : Text)
  | symbolNotText
  | missing (kind : Kind) (field : Text)
  | statementsNotList
  /-- No record at all; no reading of a value ends so. -/
  | nothing
deriving DecidableEq

def Malformed.message : Malformed → Text
  | notRecord t => "Expected node dict, got " ++ t
  | noKind => "Node dict has no 'kind'"
  | literalType t => "Literal value must be a number, got " ++ t
  | symbolNotText => "BinOp 'op' must be a string"
  | missing k field => k.name ++ " node is missing '" ++ field ++ "'"
  | statementsNotList => "Program 'stmts' must be a list"
  | nothing => "Program is empty"

/-- The reasons for which a tree is neither written nor read. -/
inductive NodeError where
  /-- A kind, as messages show it, that is none of the four. -/
  | unknownKind (shown : Text)
  | malformed (m : Malformed)
  /-- An unknown kind whose numeral is too long to be shown. -/
  | numeralTooLong
deriving DecidableEq

namespace NodeError

/-- The refusal of a kind. -/
def ofKind (v : Value) : NodeError :=
  match v.shown? with
  | some t => unknownKind t
  | none => numeralTooLong

/-- The wording without the code in front. -/
def detail : NodeError → Text
  | unknownKind t => "Unknown node kind: " ++ t
  | malformed m => m.message
  | numeralTooLong => Numeral.tooLong

/-- The wording with the code in front. -/
def message : NodeError → Text
  | unknownKind t => "[E_UNKNOWN_NODE_KIND] " ++ detail (unknownKind t)
  | malformed m => "[E_INVALID_PROGRAM] " ++ m.message
  | numeralTooLong => Numeral.tooLong

end NodeError

namespace Node

variable {α : Type}

/-- A kind and the fields that belong to it. -/
def fields (k : Kind) (rest : List (Value × Value)) : Value :=
  .record (Value.named "kind" (.text k.name) :: rest)

mutual

/-- The record of a tree. Of several strangers the one that is refused is the first from the left below
operations and the first from the right below blocks. -/
def toValue [Strange α] : Node α → Except NodeError Value
  | literal n => .ok (fields .literal [Value.named "value" (.number n)])
  | binary s l r =>
    match toValue l with
    | .error e => .error e
    | .ok vl => match toValue r with
      | .error e => .error e
      | .ok vr => .ok (fields .binary
          [Value.named "op" (.text s), Value.named "left" vl, Value.named "right" vr])
  | print e => (toValue e).map fun v => fields .print [Value.named "expr" v]
  | block ss => (toValues ss).map fun vs => fields .block [Value.named "stmts" (.list vs)]
  | foreign a => .error (.ofKind (.text (Strange.stranger a).name))

/-- The records of a row of trees, the last one made first. -/
def toValues [Strange α] : List (Node α) → Except NodeError (List Value)
  | [] => .ok []
  | s :: ss =>
    match toValues ss with
    | .error e => .error e
    | .ok vs => (toValue s).map (· :: vs)

end

/-- A node without its children. -/
inductive Head where
  | literal (n : Number)
  | binary (symbol : Text)
  | print
  | block (count : Nat)

def need (k : Kind) (name : Text) (fs : List (Value × Value)) : Except NodeError Value :=
  match Value.field? name fs with
  | some v => .ok v
  | none => .error (.malformed (.missing k name))

/-- Checks the fields of a kind: the node without its children, and the records of those. -/
def headOfKind (fs : List (Value × Value)) : Kind → Except NodeError (Head × List Value)
  | .literal =>
    match need .literal "value" fs with
    | .error e => .error e
    | .ok (.number n) => .ok (.literal n, [])
    | .ok v => .error (.malformed (.literalType v.typeName))
  | .binary =>
    match need .binary "op" fs with
    | .error e => .error e
    | .ok (.text s) =>
      match need .binary "left" fs with
      | .error e => .error e
      | .ok l => match need .binary "right" fs with
        | .error e => .error e
        | .ok r => .ok (.binary s, [l, r])
    | .ok _ => .error (.malformed .symbolNotText)
  | .print => (need .print "expr" fs).map fun e => (.print, [e])
  | .block =>
    match need .block "stmts" fs with
    | .error e => .error e
    | .ok (.list vs) => .ok (.block vs.length, vs)
    | .ok _ => .error (.malformed .statementsNotList)

/-- Checks a record: the node without its children, and the records of those. -/
def head (v : Value) : Except NodeError (Head × List Value) :=
  match v with
  | .record fs =>
    match Value.field? "kind" fs with
    | none => .error (.malformed .noKind)
    | some k => match Kind.ofValue? k with
      | none => .error (.ofKind k)
      | some k => headOfKind fs k
  | v => .error (.malformed (.notRecord v.typeName))

/-- Puts a node on its children, which lie on top of the built ones, last child first. -/
def Head.assemble : Head → List (Node α) → List (Node α)
  | .literal n, built => .literal n :: built
  | .binary s, r :: l :: built => .binary s l r :: built
  | .print, e :: built => .print e :: built
  | .block n, built => .block (built.take n).reverse :: built.drop n
  | _, built => built

/-- What the reader has yet to do: check a record, or build a node whose children are built by then. -/
inductive Pending where
  | check (v : Value)
  | build (h : Head)

/-- The work that a pending item stands for. -/
def Pending.weight : Pending → Nat
  | check v => 2 * v.size
  | build _ => 1

/-- The work of a row of pending items. -/
def Pending.totalWeight (ps : List Pending) : Nat := total weight ps

end Node

theorem Value.size_lt_of_field {name : Text} {fs : List (Value × Value)} {v : Value}
    (h : Value.field? name fs = some v) : v.size + 2 < Value.sizeFields fs := by
  induction fs with
  | nil => simp [Value.field?] at h
  | cons f fs ih =>
    obtain ⟨k, w⟩ := f
    have hk := k.size_pos
    have hfs := Value.sizeFields_pos fs
    simp only [Value.field?, List.find?_cons] at h ih
    simp only [Value.sizeFields]
    split at h
    · simp only [Option.map_some, Option.some.injEq] at h
      subst h; omega
    · have := ih h; omega

theorem Value.size_add_size_lt_of_field {a b : Text} (hab : a ≠ b) {fs : List (Value × Value)}
    {v w : Value} (ha : Value.field? a fs = some v) (hb : Value.field? b fs = some w) :
    v.size + w.size + 2 < Value.sizeFields fs := by
  induction fs with
  | nil => simp [Value.field?] at ha
  | cons f fs ih =>
    obtain ⟨k, u⟩ := f
    have hk := k.size_pos
    have hfa : Value.field? a fs = some v → v.size + 2 < Value.sizeFields fs := size_lt_of_field
    have hfb : Value.field? b fs = some w → w.size + 2 < Value.sizeFields fs := size_lt_of_field
    simp only [Value.field?, List.find?_cons] at ha hb ih hfa hfb
    simp only [Value.sizeFields]
    cases hka : Value.isName a k <;> cases hkb : Value.isName b k <;>
      simp only [hka, hkb, Option.map_some, Option.some.injEq] at ha hb
    · have := ih ha hb; omega
    · have := hfa ha; subst hb; omega
    · have := hfb hb; subst ha; omega
    · exfalso
      cases k <;> simp only [Value.isName, decide_eq_true_eq, Bool.false_eq_true] at hka hkb
      exact hab (hka.symm.trans hkb)

namespace Node

variable {α : Type}

@[simp] theorem Pending.totalWeight_cons (p : Pending) (ps : List Pending) :
    totalWeight (p :: ps) = p.weight + totalWeight ps := by simp [totalWeight]

@[simp] theorem Pending.totalWeight_append (ps qs : List Pending) :
    totalWeight (ps ++ qs) = totalWeight ps + totalWeight qs := by simp [totalWeight]

theorem need_eq_ok {k : Kind} {name : Text} {fs : List (Value × Value)} {v : Value}
    (h : need k name fs = .ok v) : Value.field? name fs = some v := by
  unfold need at h
  split at h
  · simp_all
  · simp at h

theorem Pending.totalWeight_checks (vs : List Value) :
    totalWeight (vs.map check) + 2 ≤ 2 * Value.sizeItems vs := by
  induction vs with
  | nil => simp [totalWeight, Value.sizeItems]
  | cons v vs ih => simp [weight, Value.sizeItems]; omega

/-- The children of a record leave less work than the record. -/
theorem Pending.totalWeight_children {v : Value} {h : Head} {vs : List Value}
    (hh : head v = .ok (h, vs)) : totalWeight (vs.map check) + 1 < weight (check v) := by
  unfold head at hh
  split at hh
  next fs =>
    simp only [weight, Value.size]
    split at hh
    · simp at hh
    · split at hh
      · simp at hh
      next k _ =>
        cases k <;> simp only [headOfKind] at hh
        · split at hh <;> simp only [reduceCtorEq, Except.ok.injEq, Prod.mk.injEq] at hh
          rw [← hh.2]
          have := Value.sizeFields_pos fs
          simp [totalWeight]; omega
        · split at hh
          · simp at hh
          · split at hh
            · simp at hh
            next l hl =>
              split at hh
              · simp at hh
              next r hr =>
                simp only [Except.ok.injEq, Prod.mk.injEq] at hh
                rw [← hh.2]
                have := Value.size_add_size_lt_of_field (by decide) (need_eq_ok hl) (need_eq_ok hr)
                simp [totalWeight, weight]; omega
          · simp at hh
        · cases he : need .print "expr" fs <;>
            simp only [he, Except.map, reduceCtorEq, Except.ok.injEq, Prod.mk.injEq] at hh
          rw [← hh.2]
          have := Value.size_lt_of_field (need_eq_ok he)
          simp [totalWeight, weight]; omega
        · split at hh
          · simp at hh
          next us hs =>
            simp only [Except.ok.injEq, Prod.mk.injEq] at hh
            rw [← hh.2]
            have h1 := Value.size_lt_of_field (need_eq_ok hs)
            have h2 := totalWeight_checks us
            simp only [Value.size] at h1
            omega
          · simp at hh
  · simp at hh

/-- Works through the pending items; the built nodes are kept last first. -/
def readPending (pending : List Pending) (built : List (Node α)) : Except NodeError (List (Node α)) :=
  match pending with
  | [] => .ok built
  | .build h :: rest => readPending rest (h.assemble built)
  | .check v :: rest =>
    match _hh : head v with
    | .error e => .error e
    | .ok (h, children) => readPending (children.map .check ++ .build h :: rest) built
termination_by Pending.totalWeight pending
decreasing_by
  · simp [Pending.weight]
  · have := Pending.totalWeight_children _hh
    simp only [Pending.totalWeight_append, Pending.totalWeight_cons]
    simp only [Pending.weight] at this ⊢
    omega

/-- The tree of a record. Nodes are checked before their children, and children in order. -/
def ofValue (v : Value) : Except NodeError (Node α) :=
  match readPending [.check v] [] with
  | .error e => .error e
  | .ok (n :: _) => .ok n
  | .ok [] => .error (.malformed .nothing)

end Node
end Pausable
