import Pausable.Json.Reader
import Pausable.Proofs.Result
import Pausable.Proofs.Value.Shown

/-!
What is read of a JSON text is plain data: its records have texts as keys, each but once, and an integer with too
long a numeral ends the reading. The containers that are open hold plain data at every step of the reader.
-/
namespace Pausable

variable {p : Number → Prop} {q : Text → Prop}

theorem Value.nodup_setField {k v : Value} (hk : ∀ w : Value, w = k → w.same k = true) {fs : List (Value × Value)}
    (h : (fs.map (·.1)).Nodup) : ((setField k v fs).map (·.1)).Nodup := by
  have hmem {w : Value} {gs : List (Value × Value)} :
      w ∈ (setField k v gs).map (·.1) → w = k ∨ w ∈ gs.map (·.1) := by
    induction gs with
    | nil => exact fun hw => .inl (List.mem_singleton.1 hw)
    | cons g gs ih =>
        rw [setField]
        split
        · exact .inr
        · intro hw
          rcases List.mem_cons.1 hw with hw | hw
          · exact .inr (hw ▸ List.mem_cons_self ..)
          · exact (ih hw).imp_right (List.mem_cons_of_mem _)
  induction fs with
  | nil => exact List.nodup_cons.2 ⟨List.not_mem_nil, .nil⟩
  | cons f fs ih =>
      obtain ⟨hf, hfs⟩ := List.nodup_cons.1 h
      rw [setField]
      split
      · exact h
      · rename_i hne
        refine List.nodup_cons.2 ⟨fun hw => ?_, ih hfs⟩
        exact (hmem hw).elim (fun heq => hne (hk _ heq)) hf

theorem Value.Plain.setField {k : Text} {v : Value} {fs : List (Value × Value)} (hk : q k) (hv : v.Plain p q)
    (hfs : (record fs).Plain p q) : (record (Value.setField (.text k) v fs)).Plain p q :=
  ⟨nodup_setField (fun w => (same_text w k).2) hfs.1, plainFields_setField hk hv hfs.2⟩

namespace Json

/-- A container all of whose members so far are plain. -/
def PlainContainer (p : Number → Prop) (q : Text → Prop) : Container → Prop
  | .list items => ∀ v ∈ items, v.Plain p q
  | .record fields key => (Value.record fields).Plain p q ∧ q key

theorem PlainContainer.add {k : Container} {v : Value} (hk : PlainContainer p q k) (hv : v.Plain p q) :
    PlainContainer p q (k.add v) := by
  cases k with
  | list items => exact List.forall_mem_cons.2 ⟨hv, hk⟩
  | record fields key => exact ⟨.setField hk.2 hv hk.1, hk.2⟩

theorem PlainContainer.close {k : Container} (hk : PlainContainer p q k) : k.close.Plain p q := by
  cases k with
  | list items => exact Value.plainItems_iff.2 fun v hv => hk v (List.mem_reverse.1 hv)
  | record fields key => exact hk.1

/-- What begins is plain. -/
def PlainOpening (p : Number → Prop) (q : Text → Prop) : Opening → Prop
  | .value v => v.Plain p q
  | .container k => PlainContainer p q k

variable {c a : Cursor}

theorem plain_readNumber {n : Number} (h : readNumber c = .ok (n, a)) : n.Short := by
  simp only [readNumber] at h
  split at h
  · cases h
  · split at h
    · rename_i hn
      cases h
      exact WrittenNumber.short_toNumber? hn
    · cases h

theorem plain_constant? {v : Value} (h : constant? c = some (v, a)) : v.Plain Number.Short fun _ => True := by
  obtain ⟨k, hk, hv⟩ := List.exists_of_findSome?_eq_some h
  split at hv
  · cases hv
    have hconstants : ∀ k ∈ constants, k.2.Plain Number.Short fun _ => True := by
      simp only [constants, List.forall_mem_cons]
      exact ⟨trivial, trivial, trivial, trivial, trivial, trivial, List.forall_mem_nil _⟩
    exact hconstants k hk
  · cases hv

theorem plain_readScalar {v : Value} (h : readScalar c = .ok (v, a)) : v.Plain Number.Short fun _ => True := by
  rw [readScalar] at h
  split at h
  · obtain ⟨t, -, ht⟩ := ok_of_map h
    cases ht
    trivial
  · split at h
    · rename_i hword
      cases h
      exact plain_constant? hword
    · obtain ⟨n, hn, hnv⟩ := ok_of_map h
      cases hnv
      exact plain_readNumber hn

theorem plain_readOpening {o : Opening} (h : readOpening c = .ok (o, a)) :
    PlainOpening Number.Short (fun _ => True) o := by
  simp only [readOpening] at h
  split at h
  · split at h
    · cases h
      trivial
    · cases h
      exact List.forall_mem_nil _
  · split at h
    · split at h
      · cases h
        exact ⟨.nil, trivial⟩
      · obtain ⟨name, -, hname⟩ := ok_of_map h
        cases hname
        exact ⟨⟨.nil, trivial⟩, trivial⟩
    · obtain ⟨v, hv, hvo⟩ := ok_of_map h
      cases hvo
      exact plain_readScalar hv

theorem plain_proceed {k k' : Container} (hk : PlainContainer p (fun _ => True) k) (h : proceed c k = .ok (k', a)) :
    PlainContainer p (fun _ => True) k' := by
  cases k with
  | list items =>
      cases h
      exact hk
  | record fields key =>
      obtain ⟨name, -, hname⟩ := ok_of_map h
      cases hname
      exact ⟨hk.1, trivial⟩

/-- A value that waits to be put away is plain. -/
def PlainTask (p : Number → Prop) (q : Text → Prop) : Task → Prop
  | .seek => True
  | .store v => v.Plain p q

theorem plain_readOpen {task : Task} {stack : List Container} {v : Value}
    (htask : PlainTask Number.Short (fun _ => True) task)
    (hstack : ∀ k ∈ stack, PlainContainer Number.Short (fun _ => True) k)
    (h : readOpen task stack c = .ok (v, a)) : v.Plain Number.Short fun _ => True := by
  fun_induction readOpen task stack c generalizing v a with
  | case1 => cases h
  | case2 stack c v after ho ih => exact ih (plain_readOpening ho) hstack h
  | case3 stack c k after ho ih => exact ih trivial (List.forall_mem_cons.2 ⟨plain_readOpening ho, hstack⟩) h
  | case4 c v =>
      cases h
      exact htask
  | case5 => cases h
  | case6 c v k below k' rest hc =>
      rename_i ih
      obtain ⟨hk, hbelow⟩ := List.forall_mem_cons.1 hstack
      exact ih (hk.add htask).close hbelow h
  | case7 => cases h
  | case8 c v k below k' rest k'' after hp hc hd =>
      rename_i ih
      obtain ⟨hk, hbelow⟩ := List.forall_mem_cons.1 hstack
      exact ih trivial (List.forall_mem_cons.2 ⟨plain_proceed (hk.add htask) hp, hbelow⟩) h
  | case9 => cases h

theorem plain_read {t : Text} {v : Value} (h : read t = .ok v) : v.Plain Number.Short fun _ => True := by
  have hread : readAll t = .ok v := by
    rw [read] at h
    cases hall : readAll t with
    | error e =>
        rw [hall] at h
        cases h
    | ok w =>
        rw [hall] at h
        cases h
        rfl
  rw [readAll] at hread
  split at hread
  · cases hread
  · split at hread
    · cases hread
    · rename_i w c hw
      simp only at hread
      split at hread
      · cases hread
        exact plain_readOpen (show PlainTask _ _ .seek from trivial) (List.forall_mem_nil _) hw
      · cases hread

end Json
end Pausable
