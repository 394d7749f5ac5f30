import Pausable.Proofs.Machine.Restored
import Pausable.Proofs.Program.Pruned

/-!
Writing a machine that was read from a record brings the record into one form, which is read as the same machine
(`Machine.ofValue_normalised`). The order of the keys aside, the form is the record without the fields and the nulls
that are not read, with a null for a missing left operand, and with references to children written in one way.
-/
namespace Pausable

variable {α : Type}

namespace Restore

/-- The fields that are read of a context. -/
def contextNames : Kind → List String
  | .literal => []
  | .binary => ["state", "left"]
  | .print => ["exprDone"]
  | .block => ["index"]

/-- A context with the fields that are read of it; a missing one is null. -/
def keptContext (k : Kind) (cs : List (Value × Value)) : Value :=
  .record ((contextNames k).map fun name => Value.named name ((Value.field? name cs).getD .null))

/-- The value of a frame, if it has one that is not null. -/
def keptSlot (fs : List (Value × Value)) : List (Value × Value) :=
  match Value.field? "value" fs with
  | none | some .null => []
  | some v => [Value.named "value" v]

/-- How the node of a frame is written: the whole tree without what is not read of it, or else the reference to the
child that the frame below has begun last, which is equal to the one in the record. -/
inductive Renamed : Option (Frame α) → Frame α → Value → Value → Prop
  | root {f v w} : Node.Pruned v w → Renamed none f v w
  | child {below f v t} : below.activity.child? = some (t, f.node) → Value.same v t.toValue = true →
      Renamed (some below) f v t.toValue

/-- How frames are written, the lowest first. -/
inductive Normalised : Option (Frame α) → List (Frame α) → List Value → List Value → Prop
  | nil {below} : Normalised below [] [] []
  | cons {below f fs node node' rest rest' cs vs} : Value.field? "node" rest = some node →
      Value.field? "ctx" rest = some (.record cs) → Renamed below f node node' → Normalised (some f) fs vs rest' →
      Normalised below (f :: fs) (.record rest :: vs)
        (.record (Value.named "node" node' :: Value.named "ctx" (keptContext (kindOf f.activity) cs) :: keptSlot rest) ::
          rest')

theorem field?_of_need {k : Kind} {name : Text} {fs : List (Value × Value)} {v : Value} (h : need k name fs = .ok v) :
    Value.field? name fs = some v := by
  rw [need] at h
  split at h <;> cases h
  assumption

theorem getD_of_number? {v : Option Value} {c : Text → Corrupt} {x : Option Number} (h : number? v c = .ok x) :
    v.getD .null = .ofNumber? x := by
  rw [number?.eq_def] at h
  split at h <;> cases h <;> rfl

theorem int_of_stageNumber? {v : Value} {n : Nat} (h : stageNumber? v = some n) : v = .int n ∧ n ≤ 2 := by
  rw [stageNumber?.eq_def] at h
  split at h
  · split at h <;> cases h
    rename_i hbound
    exact ⟨by rw [Int.toNat_of_nonneg hbound.1], by omega⟩
  · cases h

theorem int_of_index? {count : Nat} {v : Value} {n : Nat} (h : index? count v = some n) : v = .int n ∧ n ≤ count := by
  rw [index?.eq_def] at h
  split at h
  · split at h <;> cases h
    rename_i hbound
    exact ⟨by rw [Int.toNat_of_nonneg hbound.1], by omega⟩
  · cases h

theorem stage_kept {fs : List (Value × Value)} {s : Stage} (h : stage fs = .ok s) :
    Value.field? "state" fs = some (.int s.number) ∧ (Value.field? "left" fs).getD .null = .ofNumber? s.left? := by
  rw [stage] at h
  split at h
  · cases h
  · rename_i v hv
    rw [field?_of_need hv]
    split at h
    · exact (refuse_ne_ok _ _ _ h).elim
    · rename_i n hn
      obtain ⟨rfl, hle⟩ := int_of_stageNumber? hn
      split at h
      · cases h
      · rename_i left hleft
        rw [getD_of_number? hleft]
        split at h <;> cases h
        · exact ⟨rfl, rfl⟩
        · exact ⟨rfl, rfl⟩
        · rename_i hzero hone
          have htwo : n = 2 := by
            rcases n with _ | _ | n
            · exact (hzero rfl).elim
            · exact (hone rfl).elim
            · omega
          exact ⟨by rw [htwo]; rfl, rfl⟩

theorem context_kept {cs : List (Value × Value)} {n : Node α} {a : Activity α} (h : activity cs n = .ok a)
    (hn : n.Native) : a.context = keptContext (kindOf a) cs := by
  cases n with
  | literal => cases h; rfl
  | binary s l r =>
      obtain ⟨stage, hstage, rfl⟩ := ok_of_map h
      obtain ⟨hstate, hleft⟩ := stage_kept hstage
      simp only [kindOf, keptContext, contextNames, List.map_cons, List.map_nil, hstate, hleft, Option.getD_some,
        Activity.context]
  | print e =>
      simp only [activity] at h
      split at h
      · cases h
      · rename_i b hb
        cases h
        simp only [kindOf, keptContext, contextNames, List.map_cons, List.map_nil, field?_of_need hb, Option.getD_some,
          Activity.context]
      · exact (refuse_ne_ok _ _ _ h).elim
  | block ss =>
      simp only [activity] at h
      split at h
      · cases h
      · rename_i v hv
        split at h
        · rename_i i hi
          cases h
          obtain ⟨rfl, hle⟩ := int_of_index? hi
          simp only [kindOf, keptContext, contextNames, List.map_cons, List.map_nil, field?_of_need hv, Option.getD_some,
            Activity.context, List.length_reverse, List.length_take_of_le hle]
        · exact (refuse_ne_ok _ _ _ h).elim
  | foreign => exact hn.elim

theorem toRecord_kept {f : Frame α} {fs : List (Value × Value)} {c : Text → Corrupt}
    (h : number? (Value.field? "value" fs) c = .ok f.slot) (node : Value) :
    f.toRecord node = .record (Value.named "node" node :: Value.named "ctx" f.activity.context :: keptSlot fs) := by
  obtain ⟨place, a, slot⟩ := f
  rw [Frame.toRecord, keptSlot]
  generalize Value.field? "value" fs = v at h ⊢
  rw [number?.eq_def] at h
  split at h <;> cases h <;> rfl

theorem frame_kept {below : Option (Frame α)} {position : Nat} {v : Value} {f : Frame α}
    (h : frame below position v = .ok f) (hn : f.node.Native) :
    ∃ rest cs node, v = .record rest ∧ Value.field? "node" rest = some node ∧ Value.field? "ctx" rest = some (.record cs) ∧
      Restore.node below position node = .ok (f.place, f.node) ∧
      ∀ node', f.toRecord node' = .record (Value.named "node" node' ::
        Value.named "ctx" (keptContext (kindOf f.activity) cs) :: keptSlot rest) := by
  obtain ⟨rest, cs, node, rfl, hnode, hctx, hread, hactivity, hslot⟩ := frame_fields h
  refine ⟨rest, cs, node, rfl, hnode, hctx, hread, fun node' => ?_⟩
  rw [toRecord_kept hslot, context_kept hactivity hn]

theorem frames_normalised {b : Frame α} {built stack : List (Frame α)} {position : Nat} {vs : List Value}
    (hb : b.place.isSome = true) (hn : b.node.Native) (h : frames (b :: built) position vs = .ok stack) :
    ∃ above ws, stack = above.reverse ++ b :: built ∧ Machine.recordsAbove b position above = .ok ws ∧
      Normalised (some b) above vs ws := by
  induction vs generalizing b built position with
  | nil =>
      cases h
      exact ⟨[], [], rfl, rfl, .nil⟩
  | cons v vs ih =>
      rw [frames, List.head?_cons] at h
      split at h
      · cases h
      · rename_i f hf
        have hchild : f.IsChild b := frame_isChild hb hf
        obtain ⟨t, hc, hplace, -⟩ := hchild
        have hnative : f.node.Native := Activity.native_child? hn hc
        obtain ⟨rest, cs, node, rfl, hnode, hctx, hread, hrecord⟩ := frame_kept hf hnative
        obtain ⟨t', hc', -, hsame⟩ := node_some hread
        cases hc.symm.trans hc'
        obtain ⟨above, ws, rfl, hws, hrest⟩ := ih hplace hnative h
        refine ⟨f :: above, f.toRecord t.toValue :: ws, ?_, ?_, ?_⟩
        · simp only [List.reverse_cons, List.append_assoc, List.cons_append, List.nil_append]
        · simp only [Machine.recordsAbove, Frame.toChildRecord, Frame.IsChild.continues (frame_isChild hb hf), ↓reduceIte,
            hc, hws, Except.map]
        · rw [hrecord]
          exact .cons hnode hctx (.child hc hsame) hrest

end Restore

namespace Machine

/-- How a machine is written, seen from the record that it was read from. -/
inductive Normalised (m : Machine α) : Value → Value → Prop
  | record {fs vs ws} : Value.field? Wire.stackField fs = some (.list vs) →
      Value.field? "halted" fs = some (.bool m.halted) → Restore.Normalised none m.stack.reverse vs ws →
      Normalised m (.record fs) (.record [(.text Wire.stackField, .list ws), Value.named "halted" (.bool m.halted)])

/-- A record that is read as a machine is brought into one form by writing the machine: the form is read as the same
machine, so that it is written as itself, and it has from the record what is read of it. -/
theorem ofValue_normalised [Strange α] {v : Value} {m : Machine α} (h : ofValue v = .ok m) :
    ∃ w, m.toValue = .ok w ∧ ofValue w = .ok m ∧ m.Normalised v w := by
  obtain ⟨fs, root, vs, rfl, hstack, hhalted, -, hframes, hsteps⟩ := ofValue_fields h
  rw [Restore.frames, List.head?_nil] at hframes
  split at hframes
  · cases hframes
  · rename_i f hf
    obtain ⟨u, hu⟩ := Restore.frame_node hf
    obtain ⟨hplace, hnode⟩ := Restore.node_none hu
    have hnative : f.node.Native := Node.native_ofValue hnode
    obtain ⟨rest, cs, node, rfl, hfield, hctx, hread, hrecord⟩ := Restore.frame_kept hf hnative
    obtain ⟨-, hroot⟩ := Restore.node_none hread
    obtain ⟨node', hwritten, hpruned⟩ := Node.pruned_ofValue hroot
    obtain ⟨above, ws, hall, hws, habove⟩ := Restore.frames_normalised (by rw [hplace]; rfl) hnative hframes
    have hreverse : m.stack.reverse = f :: above := by simp [hall]
    have hvalue : m.toValue = .ok (.record [(.text Wire.stackField, .list (f.toRecord node' :: ws)),
        Value.named "halted" (.bool m.halted)]) := by
      simp only [toValue, records, hreverse, hwritten, hws, Except.map]
    refine ⟨_, hvalue, ?_, .record hstack hhalted ?_⟩
    · obtain ⟨w, hw, hback⟩ := (sound_ofValue h).reload
      cases hvalue.symm.trans hw
      rw [hback]
      cases m
      cases hsteps
      rfl
    · rw [hreverse, hrecord]
      exact .cons hfield hctx (.root hpruned) habove

/-- A sum in a block, paused on its left operand, with its keys in some order, with fields that nothing reads, nulls for
values, no left operand and a truth value for an index. -/
def looseRecord : Value :=
  .record
    [Value.named "by" (.text "hand"), Value.named "halted" (.bool false), Value.named "stateStack" (.list
      [.record
        [Value.named "value" .null, Value.named "ctx" (.record [Value.named "index" (.int 1), Value.named "line" (.int 1)]),
          Value.named "node" (.record
            [Value.named "stmts" (.list
              [.record
                [Value.named "op" (.text "+"), Value.named "kind" (.text "binop"),
                  Value.named "right" (.record [Value.named "value" (.int 2), Value.named "kind" (.text "literal")]),
                  Value.named "left" (.record
                    [Value.named "kind" (.text "literal"), Value.named "value" (.int 1), Value.named "line" (.int 1)])]]),
              Value.named "kind" (.text "program")])],
      .record
        [Value.named "node" (.record [Value.named "index" (.bool false), Value.named "ref" (.text "stmts")]),
          Value.named "ctx" (.record [Value.named "state" (.int 1)])],
      .record
        [Value.named "ctx" (.record [Value.named "state" (.int 9)]), Value.named "value" (.int 5),
          Value.named "node" (.record [Value.named "ref" (.text "left")])]])]

def normalRecord : Value :=
  .record
    [Value.named "stateStack" (.list
      [.record
        [Value.named "node" (.record
          [Value.named "kind" (.text "program"), Value.named "stmts" (.list
            [.record
              [Value.named "kind" (.text "binop"), Value.named "op" (.text "+"),
                Value.named "left" (.record [Value.named "kind" (.text "literal"), Value.named "value" (.int 1)]),
                Value.named "right" (.record [Value.named "kind" (.text "literal"), Value.named "value" (.int 2)])]])]),
          Value.named "ctx" (.record [Value.named "index" (.int 1)])],
      .record
        [Value.named "node" (.record [Value.named "ref" (.text "stmts"), Value.named "index" (.int 0)]),
          Value.named "ctx" (.record [Value.named "state" (.int 1), Value.named "left" .null])],
      .record
        [Value.named "node" (.record [Value.named "ref" (.text "left")]), Value.named "ctx" (.record []),
          Value.named "value" (.int 5)]]),
      Value.named "halted" (.bool false)]

theorem ofValue_normalised_loose :
    let m : Machine Empty :=
      ⟨[⟨some [.left, .statement 0], .literal (.int 1), some (.int 5)⟩,
        ⟨some [.statement 0], .binary "+" (.literal (.int 1)) (.literal (.int 2)) (.onLeft none), none⟩,
        ⟨some [], .block [.binary "+" (.literal (.int 1)) (.literal (.int 2))] [], none⟩], false, 0⟩
    ofValue looseRecord = .ok m ∧ m.toValue = .ok normalRecord ∧ ofValue normalRecord = .ok m ∧
      m.Normalised looseRecord normalRecord := by
  intro m
  have hread : ofValue looseRecord = .ok m := by decide +kernel
  have hform : m.toValue = .ok normalRecord := rfl
  obtain ⟨w, hw, hback, hnormal⟩ := ofValue_normalised hread
  cases hform.symm.trans hw
  exact ⟨hread, hform, hback, hnormal⟩

end Machine
end Pausable
