import Pausable.Proofs.Wire.Printable
import Pausable.Proofs.Wire.Renders

/-!
What a value is written as, or the offender for which it is not written. The writer looks at a value before its members
and at these from left to right; of a record that it opens it looks at all keys first. It stops at the first one in that
row that it cannot write, and else it writes the text that the value has by the rules of the format
(`write_or_first_offence`).
-/
namespace Pausable.Wire

/-! ## Keys -/

theorem escaped_ne_nil (c : CodePoint) : escaped c ≠ [] := by
  rcases escaped_cases c with ⟨e, hc, -⟩ | ⟨hc, -⟩ | ⟨hc, -⟩ | ⟨-, hc⟩ <;> rw [hc] <;> exact List.cons_ne_nil _ _

theorem length_quote (t : Text) : t.length < (quote t).length := by
  have hescaped : t.length ≤ (t.flatMap escaped).length := by
    induction t with
    | nil => exact Nat.zero_le _
    | cons c t ih =>
        have hc := List.length_pos_iff.2 (escaped_ne_nil c)
        rw [List.flatMap_cons, List.length_append, List.length_cons]
        omega
  have hmark : ("\"" : Text).length = 1 := rfl
  simp only [quote, List.length_append]
  omega

/-- A key stands without quotes just if it is a name and no keyword. -/
theorem keyText_eq_self_iff {k : Text} : keyText k = k ↔ Identifier k ∧ k ∉ keywords := by
  rw [← keyText_iff]
  constructor
  · intro h
    cases h with
    | bare hname hkeyword => exact ⟨hname, hkeyword⟩
    | quoted _ h =>
        have hlonger := length_quote k
        rw [quotedText_iff.1 h] at hlonger
        exact absurd hlonger (Nat.lt_irrefl _)
  · rintro ⟨hname, hkeyword⟩
    exact .bare hname hkeyword

/-! ## The row of what is looked at -/

/-- What the writer looks at: a value, or a key of a record. -/
inductive Subject where
  | value (v : Value)
  | key (k : Value)

/-- What is wrong with a subject by itself, its members not looked at. -/
def Subject.offence? : Subject → Option WriteError
  | value (.number n) => if n.Short then none else some .numeralTooLong
  | value (.alien name) => some (.unknownType name)
  | value _ => none
  | key (.text _) => none
  | key k => some (.keyType k.typeName)

mutual

/-- A value and all that it holds, in the order in which the writer looks at it. -/
def subjects : Value → List Subject
  | .null => [.value .null]
  | .bool b => [.value (.bool b)]
  | .number n => [.value (.number n)]
  | .text t => [.value (.text t)]
  | .list vs => .value (.list vs) :: subjectsOfItems vs
  | .tuple vs => .value (.tuple vs) :: subjectsOfItems vs
  | .record fs => .value (.record fs) :: (fs.map (fun f => .key f.1) ++ subjectsOfFields fs)
  | .alien name => [.value (.alien name)]

def subjectsOfItems : List Value → List Subject
  | [] => []
  | v :: vs => subjects v ++ subjectsOfItems vs

def subjectsOfFields : List (Value × Value) → List Subject
  | [] => []
  | (_, v) :: fs => subjects v ++ subjectsOfFields fs

end

/-! ## The first offender -/

theorem writeNumber_error {n : Number} {e : WriteError} (h : writeNumber n = .error e) : e = .numeralTooLong := by
  cases n with
  | int n =>
      unfold writeNumber at h
      cases hn : Numeral.ofInt? n with
      | none => simpa [hn] using h.symm
      | some t => simp [hn] at h
  | float x => cases h

theorem failure?_writeNumber (n : Number) : failure? (writeNumber n) = (Subject.value (.number n)).offence? := by
  have hoffence : (Subject.value (.number n)).offence? = if n.Short then none else some .numeralTooLong := rfl
  by_cases hshort : n.Short
  · obtain ⟨t, ht, -⟩ := writeNumber_short hshort
    rw [hoffence, if_pos hshort, ht]
    rfl
  · cases hn : writeNumber n with
    | ok t => exact absurd (short_of_writeNumber hn) hshort
    | error e =>
        rw [hoffence, if_neg hshort, writeNumber_error hn]
        rfl

theorem failure?_fieldKey (k : Value) : failure? (fieldKey k) = (Subject.key k).offence? := by
  cases k <;> rfl

theorem failure?_keyed (fs : List (Value × Value)) :
    failure? (Piece.keyed fs) = (fs.map fun f => Subject.key f.1).findSome? Subject.offence? := by
  induction fs with
  | nil => rfl
  | cons f fs ih =>
      obtain ⟨k, v⟩ := f
      rw [List.map_cons, List.findSome?_cons, ← failure?_fieldKey, ← ih, Piece.keyed]
      cases hk : fieldKey k with
      | error e => rfl
      | ok t => exact failure?_map ..

mutual

theorem failure?_nested : (v : Value) → failure? (nested v) = (subjects v).findSome? Subject.offence?
  | .null | .bool _ | .text _ | .alien _ => rfl
  | .number n => by
      rw [nested, subjects, List.findSome?_singleton, failure?_writeNumber]
  | .list vs => by
      rw [nested, failure?_map, failure?_nestedItems vs]
      rfl
  | .tuple vs => by
      rw [nested, failure?_map, failure?_nestedItems vs]
      rfl
  | .record fs => by
      have hkeys := failure?_keyed fs
      rw [nested, subjects, List.findSome?_cons, List.findSome?_append, ← hkeys]
      cases hkeyed : Piece.keyed fs with
      | error e => rfl
      | ok ms => exact (failure?_map ..).trans (failure?_nestedFields fs hkeyed)

theorem failure?_nestedItems :
    (vs : List Value) → failure? (nestedItems vs) = (subjectsOfItems vs).findSome? Subject.offence?
  | [] => rfl
  | v :: vs => by
      rw [nestedItems, subjectsOfItems, List.findSome?_append, ← failure?_nested v, ← failure?_nestedItems vs]
      cases nested v with
      | error e => rfl
      | ok t => exact failure?_map ..

/-- Behind the keys nothing else is wrong than what the values have. -/
theorem failure?_nestedFields : (fs : List (Value × Value)) → {ms : List (Text × Value)} → Piece.keyed fs = .ok ms →
    failure? (nestedFields fs) = (subjectsOfFields fs).findSome? Subject.offence?
  | [], _, _ => rfl
  | (k, v) :: fs, ms, h => by
      obtain ⟨t, ms', ht, hms', -⟩ := keyed_cons h
      rw [nestedFields, ht, subjectsOfFields, List.findSome?_append, ← failure?_nested v,
        ← failure?_nestedFields fs hms']
      cases nested v with
      | error e => rfl
      | ok u => exact failure?_map ..

end

/-- A value is written by the rules of the format, as the text that it has, in which a key stands without quotes just if
it is a name and no keyword; it is refused just if something in it cannot be written, and then for the first such
thing. -/
theorem write_or_first_offence (v : Value) :
    write v = nested v ∧ (∀ t, write v = .ok t ↔ ValueText v t) ∧
      (∀ e, write v = .error e ↔ (subjects v).findSome? Subject.offence? = some e) ∧
      ∀ k, (keyText k = k ↔ Identifier k ∧ k ∉ keywords) ∧ (keyText k = k ∨ keyText k = quote k) := by
  refine ⟨write_eq_nested v, fun t => ?_, fun e => ?_, fun k => ⟨keyText_eq_self_iff, ?_⟩⟩
  · rw [write_eq_nested, nested_ok_iff]
  · rw [write_eq_nested, ← failure?_eq_some, failure?_nested]
  · unfold keyText
    split
    · exact .inl rfl
    · exact .inr rfl

/-- The second key is found to be wrong before the value of the first one is looked at. -/
example : failure? (write (.record [(.text "a", .alien "set"), (.null, .null)])) = some (.keyType "NoneType") := by
  decide +kernel

end Pausable.Wire
