import Mathlib.Data.List.Nodup
import Pausable.Proofs.Wire.Reread

/-!
Snapshot text is read back to the value that was written (`read_write`): a plain value is written as the
format has it (`write_plain`), and comes back as it is (`reread_plain`).
-/
namespace Pausable.Wire

section

variable {q : Text → Prop}

mutual

/-- A plain value is written as the format has it. -/
theorem nested_plain : (v : Value) → v.Plain Number.Short q → nested v = .ok (format.text v)
  | .null, _ => rfl
  | .bool _, _ => rfl
  | .text _, _ => rfl
  | .number n, hv => by
      obtain ⟨t, ht, -⟩ := writeNumber_short hv
      have htext : format.text (.number n) = (writeNumber n).toOption.getD [] := rfl
      rw [nested, htext, ht]
      rfl
  | .list vs, hv => by
      rw [nested, nestedItems_plain vs hv]
      rfl
  | .record fs, hv => by
      obtain ⟨ms, hms⟩ := keyed_plain fs hv.2
      rw [nested, hms, nestedFields_plain fs hv.2]
      rfl
  | .tuple _, hv => hv.elim
  | .alien _, hv => hv.elim

theorem nestedItems_plain :
    (vs : List Value) → Value.PlainItems Number.Short q vs → nestedItems vs = .ok (format.items vs)
  | [], _ => rfl
  | v :: vs, hvs => by
      rw [nestedItems, nested_plain v hvs.1, nestedItems_plain vs hvs.2]
      rfl

theorem nestedFields_plain : (fs : List (Value × Value)) → Value.PlainFields Number.Short q fs →
    nestedFields fs = .ok (format.fields fs)
  | [], _ => rfl
  | (k, v) :: fs, hfs => by
      obtain ⟨⟨t, rfl, -⟩, hv, hfs⟩ := hfs
      rw [nestedFields, fieldKey, nested_plain v hv, nestedFields_plain fs hfs]
      rfl

theorem keyed_plain : (fs : List (Value × Value)) → Value.PlainFields Number.Short q fs →
    ∃ ms, Piece.keyed fs = .ok ms
  | [], _ => ⟨[], rfl⟩
  | (k, v) :: fs, hfs => by
      obtain ⟨⟨t, rfl, -⟩, -, hfs⟩ := hfs
      obtain ⟨ms, hms⟩ := keyed_plain fs hfs
      exact ⟨(keyText t, v) :: ms, by rw [Piece.keyed, fieldKey, hms]; rfl⟩

end

theorem write_plain {v : Value} (h : v.Plain Number.Short q) : write v = .ok (format.text v) :=
  (write_eq_nested v).trans (nested_plain v h)

end

section

variable {p : Number → Prop}

mutual

/-- A plain value comes back as it is, if no first surrogate stands before an escape in it. -/
theorem reread_plain : (v : Value) → v.Plain p Unjoined → reread v = some v
  | .null, _ => rfl
  | .bool _, _ => rfl
  | .number _, _ => rfl
  | .text t, hv => by rw [reread, joined_unjoined hv, Option.map_some]
  | .list vs, hv => by rw [reread, rereadItems_plain vs hv, Option.map_some]
  | .record fs, hv => by
      obtain ⟨gs, hgs, rfl⟩ := rereadFields_plain fs hv.2
      have hkeys : (gs.map (·.1)).Nodup := by
        have hnodup := hv.1
        rw [List.map_map] at hnodup
        exact List.Nodup.of_map Value.text (by rwa [List.map_map])
      rw [reread, hgs, Option.map_some, settled_nodup hkeys]
  | .tuple _, hv => hv.elim
  | .alien _, hv => hv.elim

theorem rereadItems_plain : (vs : List Value) → Value.PlainItems p Unjoined vs → rereadItems vs = some vs
  | [], _ => rfl
  | v :: vs, hvs => by
      rw [rereadItems, reread_plain v hvs.1, rereadItems_plain vs hvs.2]
      rfl

theorem rereadFields_plain : (fs : List (Value × Value)) → Value.PlainFields p Unjoined fs →
    ∃ gs, rereadFields fs = some gs ∧ fs = gs.map fun g => (.text g.1, g.2)
  | [], _ => ⟨[], rfl, rfl⟩
  | (k, v) :: fs, hfs => by
      obtain ⟨⟨t, rfl, ht⟩, hv, hfs⟩ := hfs
      obtain ⟨gs, hgs, hmap⟩ := rereadFields_plain fs hfs
      refine ⟨(t, v) :: gs, ?_, by rw [List.map_cons, ← hmap]⟩
      rw [rereadFields, joined_unjoined ht, reread_plain v hv, hgs]
      rfl

end

/-- What is written of a plain value is read as the value. -/
theorem read_of_write {v : Value} {t : Text} (h : v.Plain p Unjoined) (ht : write v = .ok t) : read t = .ok v := by
  have hread := read_written ht
  rw [reread_plain v h] at hread
  cases hr : read t with
  | error e => rw [hr] at hread; cases hread
  | ok w => rw [hr] at hread; cases hread; rfl

end

theorem read_text {v : Value} (h : v.Plain Number.Short Unjoined) : read (format.text v) = .ok v :=
  read_of_write h (write_plain h)

/-- Every plain value is written, and read back as it is. -/
theorem read_write (v : Value) (h : v.Plain Number.Short Unjoined) :
    ∃ t, write v = .ok t ∧ read t = .ok v :=
  ⟨format.text v, write_plain h, read_text h⟩

/-- A quoted and a bare key, a list in a record, and a text with an escape. -/
def sample : Value :=
  .record [(.text "a b", .list [.int (-12), .number (.float .nan), .text "\n"]), (.text "k", .bool true)]

theorem read_write_sample :
    sample.Plain Number.Short Unjoined ∧ ∃ t, write sample = .ok t ∧ read t = .ok sample := by
  have hne : ("a b" : Text) ≠ "k" := by decide
  have hkeys : [Value.text "a b", Value.text "k"].Nodup := by simp [hne]
  have hshort : (Number.int (-12)).Short := by decide +kernel
  have hfirst : Unjoined "a b" := by
    unfold Unjoined
    decide
  have hplain : sample.Plain Number.Short Unjoined :=
    ⟨hkeys, ⟨_, rfl, hfirst⟩, ⟨hshort, trivial, .singleton _, trivial⟩, ⟨_, rfl, .singleton _⟩, trivial, trivial⟩
  exact ⟨hplain, read_write sample hplain⟩

end Pausable.Wire
