import Pausable.Program.Record
import Pausable.Proofs.Result

/-! A tree is read back from its record, whatever else the reader has to do. -/
namespace Pausable.Node

variable {α : Type}

theorem readPending_build (h : Head) (rest : List Pending) (built : List (Node α)) :
    readPending (.build h :: rest) built = readPending rest (h.assemble built) := by
  rw [readPending]

theorem readPending_check {v : Value} {h : Head} {children : List Value}
    (hh : head v = .ok (h, children)) (rest : List Pending) (built : List (Node α)) :
    readPending (.check v :: rest) built =
      readPending (children.map .check ++ .build h :: rest) built := by
  rw [readPending]
  split
  · rename_i he
    rw [hh] at he; cases he
  · rename_i he
    rw [hh] at he; cases he; rfl

theorem head_literal (n : Number) :
    head (fields .literal [Value.named "value" (.number n)]) = .ok (.literal n, []) := rfl

theorem head_binary (s : Text) (l r : Value) :
    head (fields .binary [Value.named "op" (.text s), Value.named "left" l, Value.named "right" r]) =
      .ok (.binary s, [l, r]) := rfl

theorem head_print (e : Value) :
    head (fields .print [Value.named "expr" e]) = .ok (.print, [e]) := rfl

theorem head_block (vs : List Value) :
    head (fields .block [Value.named "stmts" (.list vs)]) = .ok (.block vs.length, vs) := rfl

section

variable [Strange α] {n : Node α} {ns : List (Node α)} {v : Value} {vs : List Value}

theorem toValue_binary_ok {s : Text} {l r : Node α} (h : toValue (binary s l r) = .ok v) :
    ∃ vl vr, toValue l = .ok vl ∧ toValue r = .ok vr ∧
      v = fields .binary [Value.named "op" (.text s), Value.named "left" vl, Value.named "right" vr] := by
  simp only [toValue] at h
  cases hl : toValue l with
  | error e => rw [hl] at h; cases h
  | ok vl =>
      cases hr : toValue r with
      | error e => rw [hl, hr] at h; cases h
      | ok vr =>
          rw [hl, hr] at h
          cases h
          exact ⟨vl, vr, rfl, rfl, rfl⟩

theorem toValue_print_ok (h : toValue (print n) = .ok v) :
    ∃ ve, toValue n = .ok ve ∧ v = fields .print [Value.named "expr" ve] := by
  simp only [toValue] at h
  obtain ⟨ve, he, rfl⟩ := ok_of_map h
  exact ⟨ve, he, rfl⟩

theorem toValue_block_ok (h : toValue (block ns) = .ok v) :
    ∃ vs, toValues ns = .ok vs ∧ v = fields .block [Value.named "stmts" (.list vs)] := by
  simp only [toValue] at h
  obtain ⟨vs, hs, rfl⟩ := ok_of_map h
  exact ⟨vs, hs, rfl⟩

theorem toValues_cons_ok (h : toValues (n :: ns) = .ok vs) :
    ∃ w ws, toValue n = .ok w ∧ toValues ns = .ok ws ∧ vs = w :: ws := by
  simp only [toValues] at h
  cases hs : toValues ns with
  | error e => rw [hs] at h; cases h
  | ok ws =>
      cases hn : toValue n with
      | error e => rw [hs, hn] at h; cases h
      | ok w =>
          rw [hs, hn] at h
          cases h
          exact ⟨w, ws, rfl, rfl, rfl⟩

theorem toValues_length (h : toValues ns = .ok vs) : vs.length = ns.length := by
  induction ns generalizing vs with
  | nil => cases h; rfl
  | cons n ns ih =>
      obtain ⟨w, ws, -, hs, rfl⟩ := toValues_cons_ok h
      rw [List.length_cons, List.length_cons, ih hs]

end

mutual

/-- Reading the record of a tree puts the tree on the built ones. -/
theorem readPending_toValue [Strange α] : (n : Node α) → {v : Value} → toValue n = .ok v →
    (rest : List Pending) → (built : List (Node α)) →
    readPending (.check v :: rest) built = readPending rest (n :: built)
  | literal n, v, h, rest, built => by
      cases h
      rw [readPending_check (head_literal n)]
      exact readPending_build ..
  | binary s l r, v, h, rest, built => by
      obtain ⟨vl, vr, hl, hr, rfl⟩ := toValue_binary_ok h
      rw [readPending_check (head_binary s vl vr)]
      simp only [List.map_cons, List.map_nil, List.cons_append, List.nil_append]
      rw [readPending_toValue l hl, readPending_toValue r hr]
      exact readPending_build ..
  | print e, v, h, rest, built => by
      obtain ⟨ve, he, rfl⟩ := toValue_print_ok h
      rw [readPending_check (head_print ve)]
      simp only [List.map_cons, List.map_nil, List.cons_append, List.nil_append]
      rw [readPending_toValue e he]
      exact readPending_build ..
  | block ss, v, h, rest, built => by
      obtain ⟨vs, hs, rfl⟩ := toValue_block_ok h
      rw [readPending_check (head_block vs), readPending_toValues ss hs, readPending_build, toValues_length hs]
      simp [Head.assemble, List.take_left', List.drop_left']
  | foreign a, v, h, rest, built => by cases h

/-- Reading the records of a row of trees puts them on the built ones, the last one on top. -/
theorem readPending_toValues [Strange α] : (ns : List (Node α)) → {vs : List Value} →
    toValues ns = .ok vs → (rest : List Pending) → (built : List (Node α)) →
    readPending (vs.map .check ++ rest) built = readPending rest (ns.reverse ++ built)
  | [], vs, h, rest, built => by cases h; rfl
  | n :: ns, vs, h, rest, built => by
      obtain ⟨w, ws, hn, hs, rfl⟩ := toValues_cons_ok h
      simp only [List.map_cons, List.cons_append, List.reverse_cons, List.append_assoc, List.nil_append]
      rw [readPending_toValue n hn, readPending_toValues ns hs]

end

theorem ofValue_toValue [Strange α] {n : Node α} {v : Value} (h : toValue n = .ok v) :
    ofValue v = .ok n := by
  rw [ofValue, readPending_toValue n h]
  simp [readPending]

end Pausable.Node
