import Pausable.Proofs.Machine.Reload
import Pausable.Proofs.Result

/-!
Records that are read as machines, whoever wrote them. Each frame is read against the one below it, so the
stack is a path through a tree without strangers (`Machine.sound_ofValue`), and steps keep it one.
-/
namespace Pausable

variable {α σ ε : Type}

namespace Restore

theorem refuse_ne_ok {β : Type} (v : Value) (c : Text → Corrupt) (b : β) : refuse v c ≠ .ok b := by
  intro h
  rw [refuse] at h
  split at h <;> cases h

/-- The progress that a context tells is progress of the same node. -/
theorem node_activity {cs : List (Value × Value)} {n : Node α} {a : Activity α} (h : activity cs n = .ok a) :
    a.node = n := by
  cases n with
  | literal | foreign => cases h; rfl
  | binary s l r =>
      rw [activity] at h
      obtain ⟨stage, -, rfl⟩ := ok_of_map h
      rfl
  | print e =>
      simp only [activity] at h
      split at h
      · cases h
      · cases h; rfl
      · exact (refuse_ne_ok _ _ _ h).elim
  | block ss =>
      simp only [activity] at h
      split at h
      · cases h
      · split at h
        · cases h
          simp only [Activity.node, List.reverse_reverse, List.take_append_drop]
        · exact (refuse_ne_ok _ _ _ h).elim

theorem node_none {position : Nat} {v : Value} {place : Option (List Node.Turn)} {n : Node α}
    (h : node none position v = .ok (place, n)) : place = some [] ∧ Node.ofValue v = .ok n := by
  simp only [node] at h
  split at h
  · rename_i hn
    cases h
    exact ⟨rfl, hn⟩
  · cases h
  · cases h

theorem node_some {f : Frame α} {position : Nat} {v : Value} {place : Option (List Node.Turn)} {n : Node α}
    (h : node (some f) position v = .ok (place, n)) :
    ∃ t, f.activity.child? = some (t, n) ∧ place = f.placeOf t ∧ Value.same v t.toValue = true := by
  simp only [node] at h
  split at h
  · cases h
  · rename_i t child hc
    split at h
    · rename_i hsame
      cases h
      exact ⟨t, hc, rfl, hsame⟩
    · exact (refuse_ne_ok _ _ _ h).elim

/-- What the record of a frame holds that is read. -/
theorem frame_fields {below : Option (Frame α)} {position : Nat} {v : Value} {f : Frame α}
    (h : frame below position v = .ok f) :
    ∃ fs cs w, v = .record fs ∧ Value.field? "node" fs = some w ∧ Value.field? "ctx" fs = some (.record cs) ∧
      node below position w = .ok (f.place, f.node) ∧ activity cs f.node = .ok f.activity ∧
      number? (Value.field? "value" fs) (.slotType position) = .ok f.slot := by
  unfold frame at h
  split at h
  · rename_i fs
    split at h
    · rename_i w _ hw hctx
      split at h
      · cases h
      · rename_i place n hnode
        split at h
        · rename_i cs
          split at h
          · cases h
          · rename_i a ha
            obtain ⟨x, hx, rfl⟩ := ok_of_map h
            have hn : a.node = n := node_activity ha
            exact ⟨fs, cs, w, rfl, hw, hctx, by rw [hnode, Frame.node, hn], by rw [Frame.node, hn, ha], hx⟩
        · cases h
    · cases h
  · cases h

theorem frame_node {below : Option (Frame α)} {position : Nat} {v : Value} {f : Frame α}
    (h : frame below position v = .ok f) : ∃ w, node below position w = .ok (f.place, f.node) := by
  obtain ⟨_, _, w, -, -, -, hnode, -⟩ := frame_fields h
  exact ⟨w, hnode⟩

theorem frame_isChild {f g : Frame α} {position : Nat} {v : Value} (hg : g.place.isSome = true)
    (h : frame (some g) position v = .ok f) : f.IsChild g := by
  obtain ⟨w, hw⟩ := frame_node h
  obtain ⟨t, hc, hp, -⟩ := node_some hw
  refine ⟨t, hc, ?_, hp⟩
  rw [hp, Frame.placeOf, Option.isSome_map, hg]

/-- Frames that are put on a path are a path, with the same root. -/
theorem frames_path {vs : List Value} {f : Frame α} {built fs : List (Frame α)} {position : Nat}
    (hb : Frame.Path (f :: built)) (h : frames (f :: built) position vs = .ok fs) :
    Frame.Path fs ∧ fs.getLast? = (f :: built).getLast? ∧ fs.length = (f :: built).length + vs.length := by
  induction vs generalizing f built position with
  | nil =>
      cases h
      exact ⟨hb, rfl, rfl⟩
  | cons v vs ih =>
      rw [frames, List.head?_cons] at h
      split at h
      · cases h
      · rename_i g hg
        have hpath := hb.push (frame_isChild hb.place_isSome hg)
        obtain ⟨hfs, hlast, hlength⟩ := ih hpath h
        refine ⟨hfs, by rw [hlast, List.getLast?_cons_cons], ?_⟩
        simp only [hlength, List.length_cons]
        omega

end Restore

theorem Activity.native_child? {a : Activity α} {t : Node.Turn} {c : Node α} (h : a.node.Native)
    (hc : a.child? = some (t, c)) : c.Native := by
  cases a with
  | literal | foreign => cases hc
  | binary s l r stage =>
      cases stage with
      | before => cases hc
      | onLeft => cases hc; exact h.1
      | onRight => cases hc; exact h.2
  | print e begun =>
      cases begun with
      | false => cases hc
      | true => cases hc; exact h
  | block begun waiting =>
      cases begun with
      | nil => cases hc
      | cons s earlier =>
          cases hc
          exact Node.nativeAll_iff.1 h c (by simp)

/-- On a path from a root without strangers there are none. -/
theorem Frame.Path.native {fs : List (Frame α)} (h : Frame.Path fs)
    (hroot : ∀ r, fs.getLast? = some r → r.node.Native) : ∀ f ∈ fs, f.node.Native := by
  induction fs with
  | nil => nofun
  | cons f fs ih =>
      cases fs with
      | nil => exact List.forall_mem_singleton.2 (hroot f rfl)
      | cons g fs =>
          obtain ⟨t, hc, -⟩ := (List.isChain_cons_cons.1 h.chain).1
          have hbelow := ih h.tail (by simpa only [List.getLast?_cons_cons] using hroot)
          have hg := hbelow g (List.mem_cons_self ..)
          exact List.forall_mem_cons.2 ⟨Activity.native_child? hg hc, hbelow⟩

namespace Machine

/-- The stack is a path through a tree without strangers, and a halted machine holds only its root. -/
structure Sound (m : Machine α) : Prop extends m.Linked where
  native : ∀ n, m.root? = some n → n.Native

namespace Sound

variable {m : Machine α}

theorem frames (h : m.Sound) : ∀ f ∈ m.stack, f.node.Native :=
  h.path.native fun r hr => h.native r.node (by rw [root?, hr]; rfl)

theorem step [Strange α] {host : Host σ ε} {s : σ} (h : m.Sound) : (m.step host s).machine.Sound := by
  refine ⟨h.toLinked.step, ?_⟩
  rw [root?_step]
  exact h.native

theorem after [Strange α] {host : Host σ ε} (k : Nat) {s : σ} (h : m.Sound) : (m.after host k s).1.Sound := by
  induction k generalizing m s with
  | zero => exact h
  | succ k ih => exact ih h.step

theorem reload [Strange α] (h : m.Sound) : ∃ v, m.toValue = .ok v ∧ ofValue v = .ok { m with steps := 0 } :=
  h.toLinked.reload_native h.native

end Sound

theorem sound_ofRoot {n : Node α} (h : n.Native) : (ofRoot n).Sound := by
  refine ⟨linked_ofRoot n, fun r hr => ?_⟩
  have hroot : (ofRoot n).root? = some (Activity.start n).node := rfl
  rw [Activity.node_start, hr] at hroot
  cases hroot
  exact h

/-- The record of a machine has one record for each frame, and the flag. -/
theorem ofValue_fields {v : Value} {m : Machine α} (h : ofValue v = .ok m) :
    ∃ fs w ws, v = .record fs ∧ Value.field? Wire.stackField fs = some (.list (w :: ws)) ∧
      Value.field? "halted" fs = some (.bool m.halted) ∧ ¬ (m.halted = true ∧ ws ≠ []) ∧
      Restore.frames [] 0 (w :: ws) = .ok m.stack ∧ m.steps = 0 := by
  unfold ofValue at h
  split at h
  · rename_i fs
    split at h
    · cases h
    · rename_i vs hne hvs
      split at h
      · rename_i halted hhalted
        split at h
        · cases h
        · rename_i hfew
          obtain ⟨stack, hstack, rfl⟩ := ok_of_map h
          cases vs with
          | nil => exact (hne rfl).elim
          | cons w ws =>
              refine ⟨fs, w, ws, rfl, hvs, ?_, ?_, hstack, rfl⟩
              · cases hf : Value.field? "halted" fs with
                | none => rw [hf] at hhalted; cases hhalted
                | some u => rw [hf] at hhalted; cases hhalted; rfl
              · rintro ⟨hh, hws⟩
                have := List.length_pos_iff.2 hws
                exact hfew ⟨hh, by rw [List.length_cons]; omega⟩
      · exact (Restore.refuse_ne_ok _ _ _ h).elim
    · cases h
  · cases h

/-- What a record is read as has one frame for each record in it. -/
theorem sound_ofValue {v : Value} {m : Machine α} (h : ofValue v = .ok m) : m.Sound := by
  obtain ⟨fs, w, ws, rfl, -, -, hfew, hframes, -⟩ := ofValue_fields h
  rw [Restore.frames, List.head?_nil] at hframes
  split at hframes
  · cases hframes
  · rename_i f hf
    obtain ⟨u, hu⟩ := Restore.frame_node hf
    obtain ⟨hplace, hroot⟩ := Restore.node_none hu
    obtain ⟨hpath, hlast, hlength⟩ := Restore.frames_path ⟨⟨f, rfl, hplace⟩, .singleton f⟩ hframes
    refine ⟨⟨hpath, fun hh => ?_⟩, fun n hn => ?_⟩
    · rw [not_and, not_not] at hfew
      rw [hlength, hfew hh]
      rfl
    · rw [root?, hlast] at hn
      cases hn
      exact Node.native_ofValue hroot

end Machine
end Pausable
