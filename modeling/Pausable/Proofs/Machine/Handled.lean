import Pausable.Proofs.Json.Plain
import Pausable.Proofs.Json.Stopped
import Pausable.Proofs.Machine.Refused
import Pausable.Proofs.Wire.Places
import Pausable.Proofs.Wire.Plain

/-!
What comes of records and texts: a machine, or a refusal as corrupt. What is read of a text has no integer with too
long a numeral, so that whatever a refusal shows of it can be shown; other records may have one in the exhibit.
-/
namespace Pausable

variable {α β : Type} {q : Text → Prop}

namespace Restore

/-- A result, or a refusal as corrupt. -/
inductive Handled : Except RestoreError β → Prop where
  | ok (b : β) : Handled (.ok b)
  | corrupt (c : Corrupt) : Handled (.error (.corrupt c))

theorem Told.handled_iff {x : Option Value} {r : Except RestoreError β} (h : Told x r) :
    Handled r ↔ ∀ u ∈ x, u.Short := by
  cases h with
  | ok b => exact iff_of_true (.ok b) nofun
  | corrupt c hx => exact iff_of_true (.corrupt c) hx
  | tooLong hu => exact iff_of_false nofun fun hx => hu (hx _ rfl)

end Restore

namespace Machine

open Restore (Handled)

theorem ofValue_handled {v : Value} (hv : v.Plain Number.Short q) :
    Handled (ofValue v : Except RestoreError (Machine α)) :=
  (told_ofValue v).handled_iff.2 fun _ hu n hn => Value.Plain.numbers v hv n (numbers_exhibit? hu hn)

/-- Every text gives a machine or is refused as corrupt. The reader of the text stays within the trimmed text and
never goes back, and a refusal names only positions in that text, at the end of its message. -/
theorem ofText_handled (t : Text) :
    ((∃ m : Machine α, ofText t = .ok m) ∨
        ∃ c, (ofText t : Except RestoreError (Machine α)) = .error (.corrupt c)) ∧
      (∀ task stack a, Wire.Comes (t.trim CodePoint.isBlank) task stack a → a ∈ Wire.places t) ∧
      (Wire.places t).Pairwise (fun a b => a.position ≤ b.position) ∧
      (∀ a ∈ Wire.places t, a.position ≤ (t.trim CodePoint.isBlank).length ∧
        a.rest = (t.trim CodePoint.isBlank).drop a.position) ∧
      (Wire.places t).getLast?.map (·.position) = some (Wire.readAll t).stopped ∧
      ∀ p ∈ (Wire.readAll t).named?, p ≤ (t.trim CodePoint.isBlank).length ∧
        ∃ c lead, (ofText t : Except RestoreError (Machine α)) = .error (.corrupt c) ∧
          (RestoreError.corrupt c).message = lead ++ ("position " ++ Numeral.ofNat p) := by
  obtain ⟨hturns, hforward, hwithin, hlast, hnamed⟩ := Wire.places_spec t
  refine ⟨?_, fun _ _ _ h => (hturns _ _ _ h).1, hforward, hwithin, hlast, fun p hp => ⟨?_, ?_⟩⟩
  · have hhandled : Handled (ofText t : Except RestoreError (Machine α)) := by
      rw [ofText]
      cases h : Wire.read t with
      | error e => exact .corrupt _
      | ok v => exact ofValue_handled (Wire.plain_read h)
    cases h : (ofText t : Except RestoreError (Machine α)) with
    | ok m => exact .inl ⟨m, rfl⟩
    | error e =>
        rw [h] at hhandled
        cases hhandled with
        | corrupt c => exact .inr ⟨c, rfl⟩
  · obtain ⟨a, ha, rfl⟩ := hnamed p hp
    exact (hwithin a ha).1
  · cases hread : Wire.readAll t with
    | ok r =>
        rw [hread] at hp
        cases hp
    | error e =>
        rw [hread] at hp
        obtain ⟨lead, hlead⟩ := Wire.ReadError.detail_position hp
        refine ⟨.text e.error, "[E_CORRUPT_STATE] " ++ ("E_ST_DECODE: " ++ lead), by rw [ofText, Wire.read, hread], ?_⟩
        rw [RestoreError.message, Corrupt.detail, Wire.ReadError.message, hlead, List.append_assoc, List.append_assoc]

/-- A record gives a machine or is refused as corrupt just if the value that its refusal shows, if any, holds no
integer with too long a numeral; else reading ends with that numeral. A JSON text gives a machine or is refused as
corrupt just if no integer in it stops its reader, whatever records it holds; an integer that does is a run of too many
digits in the text. -/
theorem ofValue_ofJson_handled :
    (∀ v : Value,
      (Handled (ofValue v : Except RestoreError (Machine α)) ↔ ∀ u ∈ exhibit? α v, u.Short) ∧
      ((∃ u ∈ exhibit? α v, ¬ u.Short) → (ofValue v : Except RestoreError (Machine α)) = .error .numeralTooLong) ∧
      ∀ u ∈ exhibit? α v, u.numbers ⊆ v.numbers) ∧
    ∀ t : Text,
      (Handled (ofJson t : Except RestoreError (Machine α)) ↔ ∀ n, Json.read t ≠ .error (.numeralTooLong n)) ∧
      ∀ n, Json.read t = .error (.numeralTooLong n) →
        (ofJson t : Except RestoreError (Machine α)) = .error (.digits n) ∧ Json.LongRun t n := by
  refine ⟨fun v => ⟨(told_ofValue v).handled_iff, ?_, fun _ => numbers_exhibit?⟩,
    fun t => ⟨?_, fun n hn => ⟨?_, Json.read_numeralTooLong hn⟩⟩⟩
  · rintro ⟨u, hu, hlong⟩
    have htold := told_ofValue (α := α) v
    rw [Option.mem_def.1 hu] at htold
    generalize (ofValue v : Except RestoreError (Machine α)) = r at htold ⊢
    cases htold with
    | corrupt c hshort => exact (hlong (hshort u rfl)).elim
    | tooLong => rfl
  · rw [ofJson]
    cases hread : Json.read t with
    | ok v => exact iff_of_true (ofValue_handled (Json.plain_read hread)) nofun
    | error e =>
        cases e with
        | problem => exact iff_of_true (.corrupt _) nofun
        | numeralTooLong n => exact iff_of_false nofun fun h => h n rfl
  · rw [ofJson, hn]

/-- A flag that is no truth value but an integer of 4301 digits. -/
def longFlag : Value :=
  .record [Value.named "stateStack" (.list [.null]), Value.named "halted" (.int (10 ^ 4300))]

theorem ofValue_ofJson_handled_longFlag :
    (ofValue longFlag : Except RestoreError (Machine Empty)) = .error .numeralTooLong ∧
      (ofJson (List.replicate 4301 '1') : Except RestoreError (Machine Empty)) = .error (.digits 4301) := by
  obtain ⟨hrecord, htext⟩ := ofValue_ofJson_handled (α := Empty)
  have hlong : ¬ (Value.int (10 ^ 4300)).Short := fun h =>
    absurd ((Number.short_int _).1 (h _ (List.mem_singleton_self _))) (by decide +kernel)
  have hread : Json.read (List.replicate 4301 '1') = .error (.numeralTooLong 4301) :=
    error_of_map (f := fun _ => ()) (by decide +kernel)
  exact ⟨(hrecord longFlag).2.1 ⟨_, rfl, hlong⟩, ((htext _).2 4301 hread).1⟩

/-- A plain record and a JSON text of which neither gives a machine or is refused as corrupt. -/
theorem longFlag_unhandled :
    longFlag.Plain (fun _ => True) (fun _ => True) ∧
      ¬ Handled (ofValue longFlag : Except RestoreError (Machine Empty)) ∧
      ¬ Handled (ofJson (List.replicate 4301 '1') : Except RestoreError (Machine Empty)) := by
  have hkeys : ([.text "stateStack", .text "halted"] : List Value).Nodup :=
    List.Nodup.map (fun _ _ => Value.text.inj) (show [("stateStack" : Text), "halted"].Nodup by decide)
  have hrecord : (ofValue longFlag : Except RestoreError (Machine Empty)) = .error .numeralTooLong := by
    decide +kernel
  have htext : (ofJson (List.replicate 4301 '1') : Except RestoreError (Machine Empty)) = .error (.digits 4301) := by
    decide +kernel
  refine ⟨⟨hkeys, ⟨_, rfl, trivial⟩, ⟨trivial, trivial⟩, ⟨_, rfl, trivial⟩, trivial, trivial⟩, ?_, ?_⟩
  · rw [hrecord]
    exact nofun
  · rw [htext]
    exact nofun

end Machine
end Pausable
