import Pausable.Proofs.Program.Written

/-!
Trees without strangers. What a record is read to has none (`native_ofValue`), and a tree that has none
has a record (`exists_toValue`).
-/
namespace Pausable

variable {α : Type}

namespace Node

mutual

/-- All nodes of the tree are of the four kinds. -/
def Native : Node α → Prop
  | literal _ => True
  | binary _ l r => l.Native ∧ r.Native
  | print e => e.Native
  | block ss => NativeAll ss
  | foreign _ => False

def NativeAll : List (Node α) → Prop
  | [] => True
  | s :: ss => s.Native ∧ NativeAll ss

end

theorem nativeAll_iff {ss : List (Node α)} : NativeAll ss ↔ ∀ s ∈ ss, s.Native := by
  induction ss with
  | nil => simp [NativeAll]
  | cons s ss ih => simp [NativeAll, ih]

mutual

theorem native_empty : (n : Node Empty) → n.Native
  | literal _ => trivial
  | binary _ l r => ⟨native_empty l, native_empty r⟩
  | print e => native_empty e
  | block ss => nativeAll_empty ss
  | foreign e => e.elim

theorem nativeAll_empty : (ns : List (Node Empty)) → NativeAll ns
  | [] => trivial
  | n :: ns => ⟨native_empty n, nativeAll_empty ns⟩

end

theorem kind_native [Strange α] {n : Node α} (h : n.Native) : ∃ k, n.kind = .ok k := by
  cases n with
  | foreign a => exact h.elim
  | literal | binary | print | block => exact ⟨_, rfl⟩

/-! ## Reading -/

theorem native_assemble (h : Head) {built : List (Node α)} (hb : ∀ n ∈ built, n.Native) :
    ∀ n ∈ h.assemble built, n.Native := by
  cases h with
  | literal m => exact List.forall_mem_cons.2 ⟨trivial, hb⟩
  | binary s =>
      match built, hb with
      | [], hb => exact hb
      | [_], hb => exact hb
      | r :: l :: built, hb =>
          obtain ⟨hr, hb⟩ := List.forall_mem_cons.1 hb
          obtain ⟨hl, hb⟩ := List.forall_mem_cons.1 hb
          exact List.forall_mem_cons.2 ⟨⟨hl, hr⟩, hb⟩
  | print =>
      cases built with
      | nil => exact hb
      | cons e built =>
          obtain ⟨he, hb⟩ := List.forall_mem_cons.1 hb
          exact List.forall_mem_cons.2 ⟨he, hb⟩
  | block k =>
      refine List.forall_mem_cons.2 ⟨nativeAll_iff.2 fun n hn => ?_, fun n hn => ?_⟩
      · exact hb n (List.mem_of_mem_take (List.mem_reverse.1 hn))
      · exact hb n (List.mem_of_mem_drop hn)

theorem native_readPending {pending : List Pending} {built nodes : List (Node α)}
    (h : readPending pending built = .ok nodes) (hb : ∀ n ∈ built, n.Native) : ∀ n ∈ nodes, n.Native := by
  fun_induction readPending pending built with
  | case1 built =>
      cases h
      exact hb
  | case2 built hd rest ih => exact ih h (native_assemble hd hb)
  | case3 => cases h
  | case4 built v rest hd children hh ih => exact ih h hb

theorem native_ofValue {v : Value} {n : Node α} (h : ofValue v = .ok n) : n.Native := by
  rw [ofValue] at h
  split at h
  · cases h
  · rename_i hread
    cases h
    exact native_readPending hread (List.forall_mem_nil _) n (List.mem_cons_self ..)
  · cases h

/-! ## Writing -/

mutual

theorem exists_toValue [Strange α] : (n : Node α) → n.Native → ∃ v, toValue n = .ok v
  | literal n, _ => ⟨_, rfl⟩
  | binary s l r, h => by
      obtain ⟨vl, hl⟩ := exists_toValue l h.1
      obtain ⟨vr, hr⟩ := exists_toValue r h.2
      exact ⟨_, by simp only [toValue, hl, hr]; rfl⟩
  | print e, h => by
      obtain ⟨v, he⟩ := exists_toValue e h
      exact ⟨_, by simp only [toValue, he]; rfl⟩
  | block ss, h => by
      obtain ⟨vs, hs⟩ := exists_toValues ss h
      exact ⟨_, by simp only [toValue, hs]; rfl⟩
  | foreign a, h => h.elim

theorem exists_toValues [Strange α] : (ns : List (Node α)) → NativeAll ns → ∃ vs, toValues ns = .ok vs
  | [], _ => ⟨_, rfl⟩
  | n :: ns, h => by
      obtain ⟨v, hn⟩ := exists_toValue n h.1
      obtain ⟨vs, hs⟩ := exists_toValues ns h.2
      exact ⟨_, by simp only [toValues, hs, hn]; rfl⟩

end

end Node

end Pausable
