import Pausable.Proofs.Value.Nesting
import Pausable.Proofs.Wire.Joined
import Pausable.Proofs.Wire.Scalars

/-! Scalars are written as the grammar has them. -/
namespace Pausable

namespace Wire

open WrittenNumber

variable {r : Text}

theorem isDigits_of_digits {t : Text} (ht : Numeral.Digits t) : IsDigits t := fun c hc =>
  Numeral.isDigit_of_isAsciiDigit (ht c hc)

theorem fractionText_spell {w : WrittenNumber} (hw : w.Spelled) :
    FractionText w.fraction (spellFraction w.fraction) := by
  cases hf : w.fraction with
  | none => exact .none
  | some t => exact .point (isDigits_of_digits (hw.fraction t hf).2)

theorem exponentText_spell {w : WrittenNumber} (hw : w.Spelled) :
    ExponentText w.exponent (spellExponent w.exponent) := by
  cases he : w.exponent with
  | none => exact .none
  | some e =>
      obtain ⟨negative, t⟩ := e
      have ht := isDigits_of_digits (hw.exponent negative t he).2
      cases negative with
      | false => exact .plus (.inl rfl) ht
      | true => exact .minus (.inl rfl) ht

/-- A spelled number is cut into the parts it is spelled from. -/
theorem takeNumber_spell (p : Nat) {w : WrittenNumber} (hw : w.Spelled) (hr : r.Ends) :
    ∃ p', takeNumber ⟨p, w.spell ++ r⟩ = (w, ⟨p', r⟩) := by
  have hwhole := isDigits_of_digits hw.whole
  have hminus (u : Text) : Text.Stops (· = '-') (w.whole ++ u) := by
    refine stops_digits hwhole (fun d hd => decide_eq_false ?_) fun hnil => absurd hnil hw.whole_ne_nil
    rintro rfl
    cases hd
  simp only [spell, List.append_assoc]
  exact takeNumber_text p hwhole (fractionText_spell hw) (exponentText_spell hw) (fun _ => hminus _)
    (hr.stops rfl rfl rfl) (fun _ _ => hr.stops rfl rfl rfl) (fun _ => hr.stops rfl rfl rfl)
    fun _ => hr.stops rfl rfl rfl

/-- Nothing that can stand behind a value makes the text of a spelled number longer. -/
theorem longest_spell {w : WrittenNumber} (hw : w.Spelled) (hr : r.Ends) :
    ∃ c t, w.spell = c :: t ∧ (c = '-' ∨ c.isDigit = true) ∧ w.Longest (c :: t) r := by
  obtain ⟨c, u, hcu, hc⟩ := hw.head_spell r
  have hstart : c = '-' ∨ c.isDigit = true :=
    hc.elim (fun hc => .inr (Numeral.isDigit_of_isAsciiDigit hc)) fun hc => .inl hc.1
  obtain ⟨p, hp⟩ := takeNumber_spell 0 hw hr
  obtain ⟨t, ht, hlongest⟩ := takeNumber_sound hcu hstart hp
  exact ⟨c, t, List.append_cancel_right ht, hstart, hlongest⟩

/-- The text of a number is a keyword, or spelled from parts that give the number back. -/
theorem writeNumber_short {n : Number} (h : n.Short) : ∃ t, writeNumber n = .ok t ∧
    ((t, Value.number n) ∈ constants ∨
      ∃ w : WrittenNumber, w.Spelled ∧ w.spell = t ∧ w.toNumber? = some n) := by
  cases n with
  | int n =>
      have hn := (Number.short_int n).1 h
      refine ⟨Numeral.ofInt n, ?_, .inr (exists_spelled_int hn)⟩
      unfold writeNumber
      simp only [Numeral.ofInt?_of_lt hn]
  | float x =>
      refine ⟨x.write numberWords, rfl, ?_⟩
      cases x with
      | nan => exact .inl (by simp [constants, Binary64.write, numberWords])
      | infinite negative =>
          have hminus : ("-" : Text) ++ "INF" = "-INF" := rfl
          cases negative <;> exact .inl (by simp [constants, Binary64.write, numberWords, hminus])
      | finite negative m => exact .inr (exists_spelled_finite numberWords negative m)

/-- The text of a scalar. -/
def scalarText : Value → Text
  | .null => "NULL"
  | .bool b => if b then "TRUE" else "FALSE"
  | .number n => (writeNumber n).toOption.getD []
  | .text t => quote t
  | .list _ | .tuple _ | .record _ | .alien _ => []

/-- A scalar is a keyword, a quoted text or a spelled number. -/
theorem scalarText_cases {v : Value} (hs : v.IsScalar) (hv : v.Plain Number.Short Unjoined) :
    (scalarText v, v) ∈ constants ∨ (∃ t, Unjoined t ∧ v = .text t) ∨
      ∃ (w : WrittenNumber) (n : Number), w.Spelled ∧ w.toNumber? = some n ∧ v = .number n ∧
        scalarText v = w.spell := by
  cases v with
  | null => exact .inl (List.mem_cons_self ..)
  | bool b => cases b <;> exact .inl (by simp [constants, scalarText])
  | text t => exact .inr (.inl ⟨t, hv, rfl⟩)
  | number n =>
      obtain ⟨t, ht, hword | ⟨w, hw, rfl, hn⟩⟩ := writeNumber_short hv
      · exact .inl (by simpa only [scalarText, ht, Except.toOption, Option.getD_some] using hword)
      · exact .inr (.inr ⟨w, n, hw, hn, rfl, by simp only [scalarText, ht]; rfl⟩)
  | list | tuple | record | alien => exact hs.elim

theorem begins_scalarText {v : Value} (r : Text) (hs : v.IsScalar) (hv : v.Plain Number.Short Unjoined) :
    (scalarText v ++ r).Begins := by
  rcases scalarText_cases hs hv with hword | ⟨t, -, rfl⟩ | ⟨w, n, hw, -, -, ht⟩
  · generalize scalarText v = word at hword
    simp only [constants, List.mem_cons, Prod.mk.injEq, List.not_mem_nil, or_false] at hword
    rcases hword with ⟨rfl, rfl⟩ | ⟨rfl, rfl⟩ | ⟨rfl, rfl⟩ | ⟨rfl, rfl⟩ | ⟨rfl, rfl⟩ | ⟨rfl, rfl⟩ <;>
      exact ⟨_, _, rfl, by decide⟩
  · exact ⟨'"', _, rfl, by decide⟩
  · obtain ⟨c, u, hcu, hc, -⟩ := hw.head_value r
    rw [ht]
    exact ⟨c, u, hcu, hc⟩

theorem quote_append (t r : Text) : quote t ++ r = CodePoint.ofChar '"' :: (t.flatMap escaped ++ ("\"" ++ r)) := by
  rw [quote, List.append_assoc, List.append_assoc]
  rfl

/-- A scalar is at the front of its text. -/
theorem scalar_scalarText {v : Value} (hs : v.IsScalar) (hv : v.Plain Number.Short Unjoined) (hr : r.Ends) :
    Scalar (scalarText v ++ r) v r := by
  rcases scalarText_cases hs hv with hword | ⟨t, ht, rfl⟩ | ⟨w, n, hw, hn, rfl, ht⟩
  · exact .constant hword (hr.stops rfl rfl rfl)
  · rw [scalarText, quote_append]
    exact .text (quoted_joined (joined_unjoined ht) r)
  · obtain ⟨c, t, hct, hc, hlongest⟩ := longest_spell hw hr
    rw [ht, hct]
    exact .number hc hlongest hn

end Wire
end Pausable
