import Pausable.Number.Written
import Pausable.Proofs.Number.Digits
import Pausable.Proofs.Value.Plain
import Pausable.Value.Shown

/-! A value can be shown in a message just if none of its integers has too long a numeral. -/
namespace Pausable

theorem Number.isSome_print? (n : Number) : n.print?.isSome = true ↔ n.Short := by
  cases n with
  | int n =>
      rw [Number.print?, Numeral.ofInt?, short_int]
      split
      · rename_i h
        exact iff_of_true rfl h
      · rename_i h
        exact iff_of_false Bool.false_ne_true h
  | float x => exact iff_of_true rfl trivial

theorem WrittenNumber.short_toNumber? {w : WrittenNumber} {n : Number} (h : w.toNumber? = some n) : n.Short := by
  rw [toNumber?] at h
  split at h
  · obtain ⟨i, hi, rfl⟩ := Option.map_eq_some_iff.1 h
    obtain ⟨_, hcast, rfl⟩ := Option.map_eq_some_iff.1 hi
    obtain ⟨m, hm, ⟨⟩⟩ := Option.bind_eq_some_iff.1 hcast
    have hlt := Numeral.bounded?_lt hm
    rw [Number.short_int]
    split <;> omega
  · obtain ⟨x, -, rfl⟩ := Option.map_eq_some_iff.1 h
    trivial

namespace Value

/-- No integer in the value has too long a numeral. -/
abbrev Short (v : Value) : Prop := ∀ n ∈ v.numbers, n.Short

mutual

theorem isSome_shown? : (v : Value) → (v.shown?.isSome = true ↔ ∀ n ∈ v.numbers, n.Short)
  | null | bool _ | text _ | alien _ => iff_of_true rfl nofun
  | number n => by
      rw [numbers, List.forall_mem_singleton]
      exact n.isSome_print?
  | list vs => by
      rw [shown?, Option.isSome_map]
      exact isSome_shownItems? vs
  | tuple vs => by
      rw [shown?, Option.isSome_map]
      exact isSome_shownItems? vs
  | record fs => by
      rw [shown?, Option.isSome_map]
      exact isSome_shownFields? fs

theorem isSome_shownItems? : (vs : List Value) →
    ((shownItems? vs).isSome = true ↔ ∀ n ∈ numbersOfItems vs, n.Short)
  | [] => iff_of_true rfl nofun
  | v :: vs => by
      rw [numbersOfItems, List.forall_mem_append, ← isSome_shown? v, ← isSome_shownItems? vs, shownItems?]
      cases v.shown? <;> simp

theorem isSome_shownFields? : (fs : List (Value × Value)) →
    ((shownFields? fs).isSome = true ↔ ∀ n ∈ numbersOfFields fs, n.Short)
  | [] => iff_of_true rfl nofun
  | (k, v) :: fs => by
      rw [numbersOfFields, List.forall_mem_append, List.forall_mem_append, ← isSome_shown? k, ← isSome_shown? v,
        ← isSome_shownFields? fs, shownFields?]
      cases k.shown? <;> cases v.shown? <;> simp

end

/-! ## Numbers of members -/

theorem numbers_item {v : Value} {vs : List Value} (h : v ∈ vs) : v.numbers ⊆ (list vs).numbers := by
  show _ ⊆ numbersOfItems vs
  induction vs with
  | nil => cases h
  | cons w ws ih =>
      rw [numbersOfItems]
      rcases List.mem_cons.1 h with rfl | h
      · exact List.subset_append_left ..
      · exact List.Subset.trans (ih h) (List.subset_append_right ..)

theorem numbers_field? {name : Text} {fs : List (Value × Value)} {v : Value} (h : field? name fs = some v) :
    v.numbers ⊆ (record fs).numbers := by
  show _ ⊆ numbersOfFields fs
  induction fs with
  | nil => cases h
  | cons f fs ih =>
      rw [numbersOfFields]
      rw [field?, List.find?_cons] at h
      split at h
      · cases h
        exact List.Subset.trans (List.subset_append_right ..) (List.subset_append_left ..)
      · exact List.Subset.trans (ih h) (List.subset_append_right ..)

end Value
end Pausable
