import Pausable.Machine.Restored
import Pausable.Proofs.Machine.Linked
import Pausable.Proofs.Program.Native

/-!
A machine whose stack is a path through its tree is saved as a record, and the record gives the machine
back with its counter of steps at zero. So every machine that is reached from a tree can be saved.
-/
namespace Pausable

variable {α σ ε : Type}

namespace Restore

theorem stage_context (left : Option Number) (n : Nat) (s : Stage) (hn : s.number = n)
    (hl : s.left? = left) :
    stage [Value.named "state" (.int n), Value.named "left" (.ofNumber? left)] = .ok s := by
  cases s with
  | before l =>
      cases hn; cases hl
      cases l <;> rfl
  | onLeft l =>
      cases hn; cases hl
      cases l <;> rfl
  | onRight l => cases hn; cases hl; rfl

theorem index?_length {m n : Nat} (h : m ≤ n) : index? n (.int m) = some m := by
  simp [index?, h]

/-- A node with what its frame remembers gives the progress of the frame back. -/
theorem activity_context (a : Activity α) :
    ∃ cs, a.context = .record cs ∧ activity cs a.node = .ok a := by
  cases a with
  | literal n => exact ⟨_, rfl, rfl⟩
  | binary s l r stage =>
      refine ⟨_, rfl, ?_⟩
      simp only [Activity.node, activity, stage_context _ _ stage rfl rfl, Except.map]
  | print e begun => exact ⟨_, rfl, rfl⟩
  | block begun waiting =>
      refine ⟨_, rfl, ?_⟩
      have hneed : need .block "index" [Value.named "index" (.int begun.length)] =
          .ok (.int begun.length) := rfl
      have hi : index? (begun.reverse ++ waiting).length (.int begun.length) = some begun.length :=
        index?_length (by simp)
      simp only [Activity.node, activity, hneed, hi]
      rw [List.take_left' (by simp), List.drop_left' (by simp), List.reverse_reverse]
  | foreign a => exact ⟨_, rfl, rfl⟩

theorem frame_toRecord {f : Frame α} {below : Option (Frame α)} {position : Nat} {v : Value}
    (h : node below position v = .ok (f.place, f.node)) :
    frame below position (f.toRecord v) = .ok f := by
  obtain ⟨place, a, slot⟩ := f
  obtain ⟨cs, hc, ha⟩ := activity_context a
  -- the record without what may follow, so that the fields are found by evaluation
  have key (rest : List (Value × Value)) (x : Option Number)
      (hx : number? (Value.field? "value" rest) (.slotType position) = .ok x) :
      frame below position
        (.record (Value.named "node" v :: Value.named "ctx" (.record cs) :: rest)) =
        .ok ⟨place, a, x⟩ := by
    have hn : Value.field? "node"
        (Value.named "node" v :: Value.named "ctx" (.record cs) :: rest) = some v := rfl
    have hc : Value.field? "ctx"
        (Value.named "node" v :: Value.named "ctx" (.record cs) :: rest) = some (.record cs) := rfl
    have hv : Value.field? "value"
        (Value.named "node" v :: Value.named "ctx" (.record cs) :: rest) =
        Value.field? "value" rest := rfl
    have ha' : activity cs (Frame.node ⟨place, a, slot⟩) = .ok a := ha
    simp only [frame, hn, hc, hv, h, ha', hx, Except.map]
  simp only [Frame.toRecord, hc]
  cases slot with
  | none => exact key [] none rfl
  | some x => exact key [Value.named "value" (.number x)] (some x) rfl

theorem same_turn (t : Node.Turn) : Value.same t.toValue t.toValue = true := by
  cases t with
  | statement i =>
      simp [Node.Turn.toValue, Value.named, Value.same, Value.sameFields, Value.number?,
        Number.sameValue]
  | left => rfl
  | right => rfl
  | operand => rfl

theorem node_root [Strange α] {n : Node α} {v : Value} (h : n.toValue = .ok v) (position : Nat) :
    node none position v = .ok (some [], n) := by
  simp only [node, Node.ofValue_toValue h]

theorem node_child {f below : Frame α} {t : Node.Turn} (position : Nat)
    (hc : below.activity.child? = some (t, f.node)) (hp : f.place = below.placeOf t) :
    node (some below) position t.toValue = .ok (f.place, f.node) := by
  simp only [node, hc, same_turn, ↓reduceIte, hp]

end Restore

namespace Machine

/-- The frames above another one are written, and put back on the ones rebuilt up to it. -/
theorem frames_recordsAbove (fs : List (Frame α)) (below : Frame α) (built : List (Frame α))
    (position : Nat) (h : (below :: fs).IsChain fun b f => f.IsChild b) :
    ∃ vs, recordsAbove below position fs = .ok vs ∧ vs.length = fs.length ∧
      Restore.frames (below :: built) position vs = .ok (fs.reverse ++ below :: built) := by
  induction fs generalizing below built position with
  | nil => exact ⟨[], rfl, rfl, rfl⟩
  | cons f fs ih =>
      obtain ⟨hf, hfs⟩ := List.isChain_cons_cons.mp h
      obtain ⟨vs, hvs, hlen, hback⟩ := ih f (below :: built) (position + 1) hfs
      obtain ⟨t, hc, hs, hp⟩ := hf
      refine ⟨f.toRecord t.toValue :: vs, ?_, ?_, ?_⟩
      · have hcont : f.continues below = true := Frame.IsChild.continues ⟨t, hc, hs, hp⟩
        simp only [recordsAbove, Frame.toChildRecord, hcont, ↓reduceIte, hc, hvs, Except.map]
      · simp only [List.length_cons, hlen]
      · have hframe := Restore.frame_toRecord (Restore.node_child position hc hp)
        simp only [Restore.frames, List.head?_cons, hframe, hback, List.reverse_cons,
          List.append_assoc, List.cons_append, List.nil_append]

/-- The frames of a path are written and rebuilt. -/
theorem frames_records [Strange α] {fs : List (Frame α)} (h : Frame.Path fs) {n : Node α}
    (hn : fs.getLast?.map Frame.node = some n) {v : Value} (hv : n.toValue = .ok v) :
    ∃ vs, records fs.reverse = .ok vs ∧ vs.length = fs.length ∧ Restore.frames [] 0 vs = .ok fs := by
  obtain ⟨r, hr, hp⟩ := h.root
  have hc : fs.reverse.IsChain fun b f => f.IsChild b := List.isChain_reverse.mpr h.chain
  have hrev : fs.reverse.reverse = fs := List.reverse_reverse fs
  rw [hr] at hn
  rw [← List.head?_reverse] at hr
  cases hs : fs.reverse with
  | nil => rw [hs] at hr; cases hr
  | cons r' above =>
      rw [hs] at hr hc hrev
      cases hr; cases hn
      obtain ⟨vs, hvs, hlen, hback⟩ := frames_recordsAbove above r [] 1 hc
      refine ⟨r.toRecord v :: vs, ?_, ?_, ?_⟩
      · simp only [records, hv, hvs, Except.map]
      · rw [← hrev]
        simp only [List.length_cons, hlen, List.length_reverse]
      · have hroot : Restore.node none 0 v = .ok (r.place, r.node) := by
          rw [hp]; exact Restore.node_root hv 0
        simp only [Restore.frames, List.head?_nil, Restore.frame_toRecord hroot, hback]
        rw [← hrev, List.reverse_cons]

theorem Linked.root? {m : Machine α} (h : m.Linked) : ∃ n, m.root? = some n := by
  obtain ⟨r, hr, _⟩ := h.path.root
  exact ⟨r.node, by simp [Machine.root?, hr]⟩

/-- A machine whose stack is a path through a tree without strangers is saved, and its record gives it
back. -/
theorem Linked.reload_native [Strange α] {m : Machine α} (h : m.Linked)
    (hnative : ∀ n, m.root? = some n → n.Native) :
    ∃ v, m.toValue = .ok v ∧ ofValue v = .ok { m with steps := 0 } := by
  obtain ⟨n, hn⟩ := h.root?
  obtain ⟨v, hv⟩ := n.exists_toValue (hnative n hn)
  obtain ⟨vs, hvs, hlen, hback⟩ := frames_records h.path hn hv
  obtain ⟨top, below, hs⟩ := h.stack_eq
  refine ⟨_, by simp only [toValue, hvs, Except.map]; rfl, ?_⟩
  have hstack : Value.field? Wire.stackField
      [(.text Wire.stackField, .list vs), Value.named "halted" (.bool m.halted)] = some (.list vs) := rfl
  have hhalted : Value.field? "halted"
      [(.text Wire.stackField, .list vs), Value.named "halted" (.bool m.halted)] =
      some (.bool m.halted) := rfl
  have hfew : ¬(m.halted = true ∧ 1 < vs.length) := by
    rintro ⟨hh, hl⟩
    have := h.alone hh
    omega
  cases vs with
  | nil => simp [hs] at hlen
  | cons w vs =>
      simp only [ofValue, hstack, hhalted, Option.getD_some, hfew, ↓reduceIte, hback, Except.map]

theorem Linked.reload {m : Machine Empty} (h : m.Linked) :
    ∃ v, m.toValue = .ok v ∧ ofValue v = .ok { m with steps := 0 } :=
  h.reload_native fun n _ => n.native_empty

/-- The machine and the world after some calls of `step`, whether they fail or not. -/
def after [Strange α] (host : Host σ ε) : Nat → Machine α → σ → Machine α × σ
  | 0, m, s => (m, s)
  | k + 1, m, s => after host k (m.step host s).machine (m.step host s).world

theorem after_add [Strange α] (host : Host σ ε) (j k : Nat) (m : Machine α) (s : σ) :
    m.after host (j + k) s = (m.after host j s).1.after host k (m.after host j s).2 := by
  induction j generalizing m s with
  | zero => rw [Nat.zero_add]; rfl
  | succ j ih => rw [Nat.add_right_comm]; exact ih ..

/-- The outcome of the next call of `step` after some. -/
def call [Strange α] (host : Host σ ε) (m : Machine α) (k : Nat) (s : σ) : Outcome α σ ε :=
  (m.after host k s).1.step host (m.after host k s).2

theorem after_succ [Strange α] (host : Host σ ε) (k : Nat) (m : Machine α) (s : σ) :
    m.after host (k + 1) s = ((m.call host k s).machine, (m.call host k s).world) :=
  after_add host k 1 m s

theorem Linked.after [Strange α] {host : Host σ ε} (k : Nat) {m : Machine α} {s : σ} (h : m.Linked) :
    (m.after host k s).1.Linked := by
  induction k generalizing m s with
  | zero => exact h
  | succ k ih => exact ih h.step

/-- Every machine that is reached from a tree, past failing steps too, is saved as a record, and the
record gives it back: the same frames and the same halted flag. Each frame above the root is of the child
that the one below it began last, and a halted machine holds only the root. -/
theorem reload_after (host : Host σ ε) (n : Node Empty) (k : Nat) (s : σ) :
    start n = .ok (ofRoot n) ∧
      (∃ v, ((ofRoot n).after host k s).1.toValue = .ok v ∧
        ofValue v = .ok { ((ofRoot n).after host k s).1 with steps := 0 }) ∧
      ((ofRoot n).after host k s).1.stack.IsChain Frame.IsChild ∧
      (((ofRoot n).after host k s).1.halted = true → ((ofRoot n).after host k s).1.stack.length = 1) := by
  have h : ((ofRoot n).after host k s).1.Linked := (linked_ofRoot n).after k
  exact ⟨start_ofRoot n, h.reload, h.path.chain, h.alone⟩

end Machine

end Pausable
