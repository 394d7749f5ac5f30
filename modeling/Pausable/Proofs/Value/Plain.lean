import Pausable.Value

/-!
Values that both text formats can hold: scalars, lists, and records whose keys are different texts.
-/
namespace Pausable

/-- Integers are not too long. -/
def Number.Short : Number → Prop
  | int n => n.natAbs < Numeral.bound
  | float _ => True

instance : DecidablePred Number.Short
  | .int n => inferInstanceAs (Decidable (n.natAbs < Numeral.bound))
  | .float _ => isTrue trivial

theorem Number.short_int (n : Int) : (int n).Short ↔ n.natAbs < Numeral.bound := by rw [Short]

namespace Value

mutual

/-- All numbers satisfy `p`, all texts and keys `q`. -/
def Plain (p : Number → Prop) (q : Text → Prop) : Value → Prop
  | null | bool _ => True
  | number n => p n
  | text t => q t
  | list vs => PlainItems p q vs
  | record fs => (fs.map (·.1)).Nodup ∧ PlainFields p q fs
  | tuple _ | alien _ => False

/-- All members are plain. -/
def PlainItems (p : Number → Prop) (q : Text → Prop) : List Value → Prop
  | [] => True
  | v :: vs => v.Plain p q ∧ PlainItems p q vs

/-- All fields are plain. -/
def PlainFields (p : Number → Prop) (q : Text → Prop) : List (Value × Value) → Prop
  | [] => True
  | (k, v) :: fs => (∃ t, k = text t ∧ q t) ∧ v.Plain p q ∧ PlainFields p q fs

end

mutual

/-- All numbers in a value. -/
def numbers : Value → List Number
  | null | bool _ | text _ | alien _ => []
  | number n => [n]
  | list vs => numbersOfItems vs
  | tuple vs => numbersOfItems vs
  | record fs => numbersOfFields fs

/-- All numbers in a row of values. -/
def numbersOfItems : List Value → List Number
  | [] => []
  | v :: vs => v.numbers ++ numbersOfItems vs

/-- All numbers in a row of fields, keys included. -/
def numbersOfFields : List (Value × Value) → List Number
  | [] => []
  | (k, v) :: fs => k.numbers ++ v.numbers ++ numbersOfFields fs

end

section

variable {p p' : Number → Prop} {q q' : Text → Prop}

mutual

theorem Plain.imp (hq : ∀ t, q t → q' t) :
    (v : Value) → v.Plain p q → (∀ n ∈ v.numbers, p' n) → v.Plain p' q'
  | null, _, _ => trivial
  | bool _, _, _ => trivial
  | number n, _, hp => hp n (List.mem_singleton_self n)
  | text t, hv, _ => hq t hv
  | list vs, hv, hp => PlainItems.imp hq vs hv hp
  | record fs, hv, hp => ⟨hv.1, PlainFields.imp hq fs hv.2 hp⟩
  | tuple _, hv, _ => hv.elim
  | alien _, hv, _ => hv.elim

theorem PlainItems.imp (hq : ∀ t, q t → q' t) :
    (vs : List Value) → PlainItems p q vs → (∀ n ∈ numbersOfItems vs, p' n) → PlainItems p' q' vs
  | [], _, _ => trivial
  | v :: vs, hvs, hp => by
      rw [numbersOfItems, List.forall_mem_append] at hp
      exact ⟨Plain.imp hq v hvs.1 hp.1, PlainItems.imp hq vs hvs.2 hp.2⟩

theorem PlainFields.imp (hq : ∀ t, q t → q' t) : (fs : List (Value × Value)) →
    PlainFields p q fs → (∀ n ∈ numbersOfFields fs, p' n) → PlainFields p' q' fs
  | [], _, _ => trivial
  | (k, v) :: fs, hfs, hp => by
      obtain ⟨⟨t, rfl, ht⟩, hv, hfs⟩ := hfs
      rw [numbersOfFields, List.forall_mem_append, List.forall_mem_append] at hp
      exact ⟨⟨t, rfl, hq t ht⟩, Plain.imp hq v hv hp.1.2, PlainFields.imp hq fs hfs hp.2⟩

end

mutual

theorem Plain.numbers : (v : Value) → v.Plain p q → ∀ n ∈ v.numbers, p n
  | null, _ | bool _, _ | text _, _ => nofun
  | number _, h => List.forall_mem_singleton.2 h
  | list vs, h => PlainItems.numbers vs h
  | record fs, h => PlainFields.numbers fs h.2
  | tuple _, h | alien _, h => h.elim

theorem PlainItems.numbers : (vs : List Value) → PlainItems p q vs → ∀ n ∈ numbersOfItems vs, p n
  | [], _ => nofun
  | v :: vs, h => List.forall_mem_append.2 ⟨Plain.numbers v h.1, PlainItems.numbers vs h.2⟩

theorem PlainFields.numbers : (fs : List (Value × Value)) → PlainFields p q fs → ∀ n ∈ numbersOfFields fs, p n
  | [], _ => nofun
  | (k, v) :: fs, h => by
      obtain ⟨⟨t, rfl, -⟩, hv, hfs⟩ := h
      exact List.forall_mem_append.2 ⟨List.forall_mem_append.2 ⟨nofun, Plain.numbers v hv⟩, PlainFields.numbers fs hfs⟩

end

end

/-- Values without members. -/
def IsScalar : Value → Prop
  | null | bool _ | number _ | text _ => True
  | list _ | tuple _ | record _ | alien _ => False

theorem same_text (k : Value) (t : Text) : same k (text t) = true ↔ k = text t := by
  cases k with
  | text u => simp [same]
  | null | bool | number | list | tuple | record | alien => simp [same, number?]

/-- A field with a new key goes to the end. -/
theorem setField_of_new {t : Text} {v : Value} {fs : List (Value × Value)}
    (h : text t ∉ fs.map (·.1)) : setField (text t) v fs = fs ++ [(text t, v)] := by
  induction fs with
  | nil => rfl
  | cons f fs ih =>
      rw [List.map_cons, List.mem_cons, not_or] at h
      have hf : ¬ same f.1 (text t) = true := by
        rw [same_text]
        exact Ne.symm h.1
      rw [setField, if_neg hf, ih h.2, List.cons_append]

section

variable {p : Number → Prop} {q : Text → Prop}

theorem plainItems_iff {vs : List Value} : PlainItems p q vs ↔ ∀ v ∈ vs, v.Plain p q := by
  induction vs with
  | nil => simp [PlainItems]
  | cons v vs ih => simp [PlainItems, ih]

theorem plainFields_setField {p : Number → Prop} {q : Text → Prop} {k : Text} {v : Value} (hk : q k)
    (hv : v.Plain p q) : {fs : List (Value × Value)} → PlainFields p q fs → PlainFields p q (setField (.text k) v fs)
  | [], _ => ⟨⟨k, rfl, hk⟩, hv, trivial⟩
  | (l, w) :: fs, ⟨hl, hw, hfs⟩ => by
      rw [setField]
      split
      · exact ⟨hl, hv, hfs⟩
      · exact ⟨hl, hw, plainFields_setField hk hv hfs⟩

end

end Value
end Pausable
