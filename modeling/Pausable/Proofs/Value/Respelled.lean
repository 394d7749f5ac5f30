import Pausable.Proofs.Json.RoundTrip
import Pausable.Proofs.Wire.RoundTrip

/-!
Values whose texts are spelled in another way. Both text formats write a code point above 16 bits as the pair of
surrogates that stand for it. So they write a value as they write it with its pairs in one (`Json.writeAt_paired`),
and that is the value they read back (`Json.read_paired`, `Wire.read_paired`).
-/
namespace Pausable

namespace Value

mutual

/-- The value with every text in it, keys included, spelled in another way. -/
def respelled (g : Text → Text) : Value → Value
  | null => null
  | bool b => bool b
  | number n => number n
  | text t => text (g t)
  | list vs => list (respelledItems g vs)
  | tuple vs => tuple (respelledItems g vs)
  | record fs => record (respelledFields g fs)
  | alien name => alien name

def respelledItems (g : Text → Text) : List Value → List Value
  | [] => []
  | v :: vs => v.respelled g :: respelledItems g vs

def respelledFields (g : Text → Text) : List (Value × Value) → List (Value × Value)
  | [] => []
  | (k, v) :: fs => (k.respelled g, v.respelled g) :: respelledFields g fs

end

end Value

variable {p : Number → Prop} {q : Text → Prop}

namespace Json

/-! ## JSON text -/

mutual

/-- A value is written as it is with its pairs in one. -/
theorem writeAt_paired (l : Layout) (depth : Nat) :
    (v : Value) → writeAt l depth (v.respelled Text.paired) = writeAt l depth v
  | .null | .bool _ | .number _ | .alien _ => rfl
  | .text t => congrArg Except.ok (quote_paired t)
  | .list vs => by rw [Value.respelled, writeAt, writeAt, writeItems_paired l (depth + 1) vs]
  | .tuple vs => by rw [Value.respelled, writeAt, writeAt, writeItems_paired l (depth + 1) vs]
  | .record fs => by rw [Value.respelled, writeAt, writeAt, writeFields_paired l (depth + 1) fs]

theorem writeItems_paired (l : Layout) (depth : Nat) :
    (vs : List Value) → writeItems l depth (Value.respelledItems Text.paired vs) = writeItems l depth vs
  | [] => rfl
  | v :: vs => by
      rw [Value.respelledItems, writeItems, writeItems, writeAt_paired l depth v, writeItems_paired l depth vs]

theorem writeFields_paired (l : Layout) (depth : Nat) : (fs : List (Value × Value)) →
    writeFields l depth (Value.respelledFields Text.paired fs) = writeFields l depth fs
  | [] => rfl
  | (k, v) :: fs => by
      rw [Value.respelledFields, writeFields, writeFields, writeAt_paired l depth v, writeFields_paired l depth fs]
      cases k with
      | text t => simp only [Value.respelled, nameOf, quote_paired]
      | null | bool | number | list | tuple | record | alien => rfl

end

theorem short_of_writeNumber {n : Number} {t : Text} (h : writeNumber n = .ok t) : n.Short := by
  cases n with
  | int n =>
      unfold writeNumber at h
      cases hsome : Numeral.ofInt? n with
      | none => simp [hsome] at h
      | some u => exact (Number.short_int n).2 (Option.ite_none_right_eq_some.1 hsome).1
  | float x => trivial

mutual

/-- A plain value that is written holds no integer that is too long. -/
theorem short_of_writeAt {l : Layout} {depth : Nat} :
    (v : Value) → v.Plain p q → {t : Text} → writeAt l depth v = .ok t → v.Plain Number.Short q
  | .null, _, _, _ | .bool _, _, _, _ => trivial
  | .number _, _, _, h => short_of_writeNumber h
  | .text _, hv, _, _ => hv
  | .list vs, hv, _, h => by
      obtain ⟨ts, hts, -⟩ := ok_of_map h
      exact short_of_writeItems vs hv hts
  | .record fs, hv, _, h => by
      obtain ⟨ts, hts, -⟩ := ok_of_map h
      exact ⟨hv.1, short_of_writeFields fs hv.2 hts⟩
  | .tuple _, hv, _, _ | .alien _, hv, _, _ => hv.elim

theorem short_of_writeItems {l : Layout} {depth : Nat} : (vs : List Value) → Value.PlainItems p q vs →
    {ts : List Text} → writeItems l depth vs = .ok ts → Value.PlainItems Number.Short q vs
  | [], _, _, _ => trivial
  | v :: vs, hvs, ts, h => by
      rw [writeItems] at h
      split at h
      · cases h
      · rename_i t ht
        obtain ⟨us, hus, -⟩ := ok_of_map h
        exact ⟨short_of_writeAt v hvs.1 ht, short_of_writeItems vs hvs.2 hus⟩

theorem short_of_writeFields {l : Layout} {depth : Nat} : (fs : List (Value × Value)) → Value.PlainFields p q fs →
    {ts : List Text} → writeFields l depth fs = .ok ts → Value.PlainFields Number.Short q fs
  | [], _, _, _ => trivial
  | (k, v) :: fs, hfs, ts, h => by
      rw [writeFields] at h
      split at h
      · cases h
      split at h
      · cases h
      · rename_i t ht
        obtain ⟨us, hus, -⟩ := ok_of_map h
        exact ⟨hfs.1, short_of_writeAt v hfs.2.1 ht, short_of_writeFields fs hfs.2.2 hus⟩

end

/-- What is written of a value is read as the value with its pairs in one, if that is plain. -/
theorem read_paired {v : Value} {t : Text} (hv : (v.respelled Text.paired).Plain p Text.Unpaired)
    (h : write .compact v = .ok t) : read t = .ok (v.respelled Text.paired) := by
  have hpaired : write .compact (v.respelled Text.paired) = .ok t := (writeAt_paired .compact 0 v).trans h
  have hshort := short_of_writeAt _ hv hpaired
  rw [write_plain hshort] at hpaired
  rw [← Except.ok.inj hpaired, read_text hshort]

end Json

namespace Wire

/-! ## Snapshot text -/

mutual

/-- What comes back of a value has its pairs in one, if that is plain. -/
theorem reread_paired : (v : Value) → (v.respelled Text.paired).Plain p q → {w : Value} → reread v = some w →
    w = v.respelled Text.paired
  | .null, _, _, h | .bool _, _, _, h | .number _, _, _, h => (Option.some.inj h).symm
  | .text t, _, _, h => by
      obtain ⟨s, hs, rfl⟩ := Option.map_eq_some_iff.1 h
      rw [eq_paired_of_joined hs, Value.respelled]
  | .list vs, hv, _, h => by
      obtain ⟨ws, hws, rfl⟩ := Option.map_eq_some_iff.1 h
      rw [rereadItems_paired vs hv hws, Value.respelled]
  | .record fs, hv, _, h => by
      obtain ⟨gs, hgs, rfl⟩ := Option.map_eq_some_iff.1 h
      have hfields := rereadFields_paired fs hv.2 hgs
      have hkeys : (gs.map (·.1)).Nodup := by
        have hnodup := hv.1
        rw [← hfields, List.map_map] at hnodup
        exact List.Nodup.of_map Value.text (by rwa [List.map_map])
      rw [settled_nodup hkeys, hfields, Value.respelled]
  | .tuple _, hv, _, _ | .alien _, hv, _, _ => hv.elim

theorem rereadItems_paired : (vs : List Value) → Value.PlainItems p q (Value.respelledItems Text.paired vs) →
    {ws : List Value} → rereadItems vs = some ws → ws = Value.respelledItems Text.paired vs
  | [], _, _, h => (Option.some.inj h).symm
  | v :: vs, hvs, _, h => by
      obtain ⟨w, hw, h⟩ := Option.bind_eq_some_iff.1 h
      obtain ⟨us, hus, rfl⟩ := Option.map_eq_some_iff.1 h
      rw [reread_paired v hvs.1 hw, rereadItems_paired vs hvs.2 hus, Value.respelledItems]

theorem rereadFields_paired : (fs : List (Value × Value)) →
    Value.PlainFields p q (Value.respelledFields Text.paired fs) → {gs : List (Text × Value)} →
    rereadFields fs = some gs → (gs.map fun g => (Value.text g.1, g.2)) = Value.respelledFields Text.paired fs
  | [], _, _, h => by cases h; rfl
  | (.text l, v) :: fs, hfs, _, h => by
      obtain ⟨s, hs, h⟩ := Option.bind_eq_some_iff.1 h
      obtain ⟨w, hw, h⟩ := Option.bind_eq_some_iff.1 h
      obtain ⟨gs, hgs, rfl⟩ := Option.map_eq_some_iff.1 h
      rw [List.map_cons, rereadFields_paired fs hfs.2.2 hgs, reread_paired v hfs.2.1 hw, eq_paired_of_joined hs]
      rfl
  | (.null, _) :: _, _, _, h | (.bool _, _) :: _, _, _, h | (.number _, _) :: _, _, _, h | (.list _, _) :: _, _, _, h
  | (.tuple _, _) :: _, _, _, h | (.record _, _) :: _, _, _, h | (.alien _, _) :: _, _, _, h => nomatch h

end

/-- What is read of a written value is the value with its pairs in one, if that is plain. -/
theorem read_paired {v w : Value} {t : Text} (hv : (v.respelled Text.paired).Plain p q) (h : write v = .ok t)
    (hw : read t = .ok w) : w = v.respelled Text.paired := by
  have hread := read_written h
  rw [hw] at hread
  exact reread_paired v hv hread.symm

end Wire
end Pausable
