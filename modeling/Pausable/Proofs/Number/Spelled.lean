import Pausable.Number.Written
import Pausable.Proofs.Number.Digits
import Pausable.Proofs.Number.Shortest
import Pausable.Proofs.Text.Cut

/-!
The numbers that have digits are written part by part (`spell`), and the parts of a written number give
the number back: `exists_spelled_int`, `exists_spelled_finite`.
-/
namespace Pausable.WrittenNumber

open Numeral Binary64

/-- A fraction with its point. -/
def spellFraction : Option Text → Text
  | none => []
  | some digits => '.' :: digits

/-- An exponent with its letter and its sign. -/
def spellExponent : Option (Bool × Text) → Text
  | none => []
  | some (negative, digits) => 'e' :: (if negative then '-' else '+') :: digits

/-- The text of a sign. -/
def spellSign (negative : Bool) : Text := if negative then ['-'] else []

theorem takeMinus_sign (p : Nat) {negative : Bool} {r : Text} (hr : negative = false → r.Stops (· = '-')) :
    ∃ p', (⟨p, spellSign negative ++ r⟩ : Cursor).takeMinus = (negative, ⟨p', r⟩) := by
  cases negative with
  | true => exact ⟨p + 1, rfl⟩
  | false =>
      refine ⟨p, ?_⟩
      have hnext : ¬ (⟨p, r⟩ : Cursor).next (· = '-') = true := by
        rw [Cursor.next_stops (hr rfl)]
        exact nofun
      rw [Cursor.takeMinus]
      exact if_neg hnext

/-- The text of the parts. -/
def spell (w : WrittenNumber) : Text :=
  spellSign w.negative ++ (w.whole ++ (spellFraction w.fraction ++ spellExponent w.exponent))

/-- The parts are rows of digits, none of them empty, and zero stands before no other digit. -/
structure Spelled (w : WrittenNumber) : Prop where
  whole : Digits w.whole
  starts : w.whole = "0" ∨ Leading w.whole
  fraction : ∀ t, w.fraction = some t → t ≠ [] ∧ Digits t
  exponent : ∀ b t, w.exponent = some (b, t) → t ≠ [] ∧ Digits t

theorem Spelled.whole_ne_nil {w : WrittenNumber} (h : w.Spelled) : w.whole ≠ [] := by
  rcases h.starts with hw | hw
  · rw [hw]
    exact nofun
  · exact hw.ne_nil

/-- The text of a spelled number begins with a digit, or with a minus sign before one. -/
theorem Spelled.head_spell {w : WrittenNumber} (h : w.Spelled) (r : Text) : ∃ c t, w.spell ++ r = c :: t ∧
    (c.isAsciiDigit = true ∨ c = '-' ∧ ∃ d u, t = d :: u ∧ d.isAsciiDigit = true) := by
  obtain ⟨c, t, hct⟩ := List.exists_cons_of_ne_nil h.whole_ne_nil
  have hc := h.whole c (hct ▸ List.mem_cons_self ..)
  have htext : w.spell ++ r = spellSign w.negative ++
      c :: (t ++ (spellFraction w.fraction ++ (spellExponent w.exponent ++ r))) := by
    simp only [spell, hct, List.append_assoc, List.cons_append]
  rw [htext]
  cases w.negative with
  | false => exact ⟨c, _, rfl, .inl hc⟩
  | true => exact ⟨'-', _, rfl, .inr ⟨rfl, c, _, rfl, hc⟩⟩

theorem Spelled.wordless {w : WrittenNumber} (h : w.Spelled) (r : Text) : (w.spell ++ r).Wordless := by
  have hlow {d : CodePoint} (hd : d.isAsciiDigit = true) : d.val < 0x41 := by
    have := CodePoint.isAsciiDigit_iff.1 hd
    omega
  obtain ⟨c, u, hcu, hc | ⟨rfl, d, v, rfl, hd⟩⟩ := h.head_spell r
  · refine ⟨c, u, hcu, hlow hc, ?_⟩
    rintro rfl
    exact absurd hc (by decide)
  · exact ⟨_, _, hcu, by decide, fun _ => ⟨d, v, rfl, hlow hd⟩⟩

/-- A spelled number begins like a value, and not like a container. -/
theorem Spelled.head_value {w : WrittenNumber} (h : w.Spelled) (r : Text) : ∃ c u, w.spell ++ r = c :: u ∧
    (0x20 < c.val ∧ c.val < 0x7F ∧ c ≠ ']' ∧ c ≠ '\x7d') ∧ c ≠ '[' ∧ c ≠ '\x7b' := by
  obtain ⟨c, u, hcu, hc | ⟨rfl, -⟩⟩ := h.head_spell r
  · have := CodePoint.isAsciiDigit_iff.1 hc
    refine ⟨c, u, hcu, ⟨by omega, by omega, ?_, ?_⟩, ?_, ?_⟩ <;> rintro rfl <;> exact absurd hc (by decide)
  · exact ⟨_, u, hcu, by decide, by decide, by decide⟩

/-- A spelled number consists of digits, signs, the point and the letter of the exponent. -/
theorem Spelled.mem_spell {w : WrittenNumber} (h : w.Spelled) {c : CodePoint} (hc : c ∈ w.spell) :
    0x2B ≤ c.val ∧ c.val ≤ 0x65 := by
  have hdigits {t : Text} (ht : Digits t) (hc : c ∈ t) : 0x2B ≤ c.val ∧ c.val ≤ 0x65 := by
    have := CodePoint.isAsciiDigit_iff.1 (ht c hc)
    omega
  simp only [spell, List.mem_append] at hc
  rcases hc with hc | hc | hc | hc
  · cases hn : w.negative with
    | false =>
        rw [hn] at hc
        cases hc
    | true =>
        rw [hn] at hc
        rw [List.mem_singleton.1 hc]
        decide
  · exact hdigits h.whole hc
  · cases hf : w.fraction with
    | none =>
        rw [hf] at hc
        cases hc
    | some t =>
        rw [hf, spellFraction] at hc
        rcases List.mem_cons.1 hc with rfl | hc
        · decide
        · exact hdigits (h.fraction t hf).2 hc
  · cases he : w.exponent with
    | none =>
        rw [he] at hc
        cases hc
    | some e =>
        rw [he, spellExponent] at hc
        rcases List.mem_cons.1 hc with rfl | hc
        · decide
        rcases List.mem_cons.1 hc with rfl | hc
        · split <;> decide
        · exact hdigits (h.exponent e.1 e.2 he).2 hc

theorem stops_spellExponent {q : CodePoint → Bool} {r : Text} (hr : r.Stops q) (hletter : q 'e' = false)
    (e : Option (Bool × Text)) : Text.Stops q (spellExponent e ++ r) := by
  cases e with
  | none => exact hr
  | some e =>
      rintro _ ⟨⟩
      exact hletter

theorem stops_spellFraction {q : CodePoint → Bool} {r : Text} (hr : r.Stops q) (hpoint : q '.' = false)
    (f : Option Text) : Text.Stops q (spellFraction f ++ r) := by
  cases f with
  | none => exact hr
  | some t =>
      rintro _ ⟨⟩
      exact hpoint

theorem Spelled.decimal?_eq {w : WrittenNumber} (h : w.Spelled) {e : Int}
    (he : exponentValue? w.exponent = some e) :
    w.decimal? = some ⟨valueOf (w.whole ++ w.fraction.getD []), e - (w.fraction.getD []).length⟩ := by
  have hdigits : Digits (w.whole ++ w.fraction.getD []) := by
    refine h.whole.append ?_
    cases hf : w.fraction with
    | none => exact .nil
    | some t => exact (h.fraction t hf).2
  have hne : (w.whole ++ w.fraction.getD []).isEmpty = false := by
    rw [List.isEmpty_eq_false_iff]
    exact List.append_ne_nil_of_left_ne_nil h.whole_ne_nil _
  simp [decimal?, hne, value?_eq hdigits, he]

theorem exponentValue?_digits {negative : Bool} {t : Text} (hne : t ≠ []) (ht : Digits t) :
    exponentValue? (some (negative, t)) =
      some (if negative then -(valueOf t : Int) else valueOf t) := by
  have hempty : t.isEmpty = false := List.isEmpty_eq_false_iff.2 hne
  simp [exponentValue?, hempty, value?_eq ht]

/-- An integer that is not too long is spelled without point and exponent. -/
theorem exists_spelled_int {n : Int} (h : n.natAbs < bound) :
    ∃ w : WrittenNumber, w.Spelled ∧ w.spell = ofInt n ∧ w.toNumber? = some (.int n) := by
  refine ⟨⟨n < 0, ofNat n.natAbs, none, none⟩, ⟨digits_ofNat _, ?_, nofun, nofun⟩, ?_, ?_⟩
  · rcases Nat.eq_zero_or_pos n.natAbs with h0 | hpos
    · exact .inl (by rw [h0, ofNat_of_lt (by decide)]; rfl)
    · exact .inr (leading_ofNat hpos)
  · clear h
    cases n with
    | ofNat n =>
        simp [spell, spellSign, spellFraction, spellExponent, ofInt]
    | negSucc n =>
        have hn : Int.negSucc n < 0 := Int.negSucc_lt_zero n
        simp [spell, spellSign, spellFraction, spellExponent, ofInt, hn]
  · have hvalue : (if n < 0 then -(n.natAbs : Int) else n.natAbs) = n := by
      clear h
      split <;> omega
    simp only [toNumber?, isInteger, toInt?, bounded?_ofNat h, Option.bind_eq_bind, Option.bind_some,
      Option.pure_def, Option.map_some, decide_eq_true_eq, hvalue, Option.isNone_none, Bool.and_self, ↓reduceIte]

section Layout

variable {d : Decimal}

/-- The parts of the text that a decimal is laid out as. -/
def parts (negative : Bool) (d : Decimal) : WrittenNumber :=
  let digits := ofNat d.coefficient
  let place : Int := d.exponent + digits.length
  if -4 < place ∧ place ≤ 16 then
    if place ≤ 0 then ⟨negative, "0", some (zeros (-place).toNat ++ digits), none⟩
    else if digits.length ≤ place then
      ⟨negative, digits ++ zeros (place.toNat - digits.length), some "0", none⟩
    else ⟨negative, digits.take place.toNat, some (digits.drop place.toNat), none⟩
  else
    let power := ofNat (place - 1).natAbs
    ⟨negative, digits.take 1, if digits.length = 1 then none else some (digits.drop 1),
      some (place < 1, zeros (2 - power.length) ++ power)⟩

theorem spell_parts (negative : Bool) (d : Decimal) :
    (parts negative d).spell = spellSign negative ++ layOut d := by
  have hzero : ("0." : Text) = [CodePoint.ofChar '0', CodePoint.ofChar '.'] := rfl
  have htail : (".0" : Text) = [CodePoint.ofChar '.', CodePoint.ofChar '0'] := rfl
  have hpoint : ("." : Text) = [CodePoint.ofChar '.'] := rfl
  have hletter : ("e" : Text) = [CodePoint.ofChar 'e'] := rfl
  have hplus : ("+" : Text) = [CodePoint.ofChar '+'] := rfl
  have hminus : ("-" : Text) = [CodePoint.ofChar '-'] := rfl
  have hnone : ("" : Text) = [] := rfl
  have hdigit : ("0" : Text) = [CodePoint.ofChar '0'] := rfl
  simp only [parts, layOut]
  split
  · split
    · simp [spell, spellFraction, spellExponent, hzero, hdigit]
    · split
      · simp [spell, spellFraction, spellExponent, htail, hdigit]
      · simp [spell, spellFraction, spellExponent, hpoint]
  · simp only [spell, hletter, hplus, hminus, hpoint, hnone]
    split <;> split <;> simp_all [spellFraction, spellExponent]

theorem digits_zero : Digits "0" := digits_zeros 1

theorem parts_zero (negative : Bool) : parts negative ⟨0, 0⟩ = ⟨negative, "0", some "0", none⟩ := by
  simp only [parts, ofNat_of_lt (show 0 < 10 by decide)]
  rfl

/-- The parts are well spelled; zero has only one exponent. -/
theorem spelled_parts (negative : Bool) (hd : d.coefficient = 0 → d.exponent = 0) :
    (parts negative d).Spelled := by
  by_cases h0 : d.coefficient = 0
  · obtain ⟨c, e⟩ := d
    obtain rfl : c = 0 := h0
    obtain rfl : e = 0 := hd rfl
    rw [parts_zero]
    exact ⟨digits_zero, .inl rfl, fun t ht => Option.some.inj ht ▸ ⟨nofun, digits_zero⟩, nofun⟩
  · have hlead := leading_ofNat (Nat.pos_of_ne_zero h0)
    have hdigits := digits_ofNat d.coefficient
    have hne := ofNat_ne_nil d.coefficient
    simp only [parts]
    split
    · split
      · refine ⟨digits_zero, .inl rfl, ?_, nofun⟩
        rintro _ ⟨⟩
        exact ⟨List.append_ne_nil_of_right_ne_nil _ hne, (digits_zeros _).append hdigits⟩
      · split
        · refine ⟨hdigits.append (digits_zeros _), .inr (hlead.append _), ?_, nofun⟩
          rintro _ ⟨⟩
          exact ⟨nofun, digits_zero⟩
        · rename_i hpos hlt
          refine ⟨hdigits.take _, .inr (hlead.take (by omega)), ?_, nofun⟩
          rintro _ ⟨⟩
          refine ⟨?_, hdigits.drop _⟩
          rw [Ne, List.drop_eq_nil_iff]
          omega
    · refine ⟨hdigits.take _, .inr (hlead.take Nat.one_pos), ?_, ?_⟩
      · intro u hu
        split at hu
        · cases hu
        · rename_i hlen
          obtain rfl := Option.some.inj hu
          refine ⟨?_, hdigits.drop _⟩
          have := List.length_pos_iff.2 hne
          rw [Ne, List.drop_eq_nil_iff]
          omega
      · rintro _ _ ⟨⟩
        exact ⟨List.append_ne_nil_of_right_ne_nil _ (ofNat_ne_nil _),
          (digits_zeros _).append (digits_ofNat _)⟩

/-- What the parts are read as has the value of the decimal. -/
theorem decimal?_parts (negative : Bool) (hd : d.coefficient = 0 → d.exponent = 0) :
    ∃ d', (parts negative d).decimal? = some d' ∧ d'.value = d.value := by
  have hspelled := spelled_parts negative hd
  have hlen := List.length_pos_iff.2 (ofNat_ne_nil d.coefficient)
  have hvalue := valueOf_ofNat d.coefficient
  have hzero : ("0" : Text) = zeros 1 := rfl
  obtain ⟨c, e⟩ := d
  simp only [parts] at hspelled hlen hvalue ⊢
  generalize ofNat c = digits at *
  subst hvalue
  split
  · rename_i hfix
    rw [if_pos hfix] at hspelled
    split
    · rename_i hpos
      rw [if_pos hpos] at hspelled
      have he : (0 : Int) - (zeros (-(e + digits.length)).toNat ++ digits).length = e := by
        rw [List.length_append, length_zeros]
        omega
      refine ⟨_, hspelled.decimal?_eq rfl, ?_⟩
      simp only [Option.getD_some, he]
      rw [hzero, valueOf_zeros_append, valueOf_zeros_append]
    · rename_i hpos
      rw [if_neg hpos] at hspelled
      split
      · rename_i hle
        rw [if_pos hle] at hspelled
        obtain ⟨k, rfl⟩ := Int.eq_ofNat_of_zero_le (show 0 ≤ e by omega)
        have hk : ((k : Int) + digits.length).toNat - digits.length = k := by omega
        refine ⟨_, hspelled.decimal?_eq rfl, ?_⟩
        simp only [hk, Option.getD_some, hzero, valueOf_append, valueOf_zeros, length_zeros, Decimal.value,
          Nat.add_zero, pow_one, zpow_natCast]
        push_cast
        rw [zpow_neg, zpow_one]
        ring
      · rename_i hle
        rw [if_neg hle] at hspelled
        have he : (0 : Int) - (digits.drop (e + digits.length).toNat).length = e := by
          rw [List.length_drop]
          omega
        refine ⟨_, hspelled.decimal?_eq rfl, ?_⟩
        simp only [Option.getD_some, he, List.take_append_drop]
  · rename_i hfix
    rw [if_neg hfix] at hspelled
    have hfraction : (if digits.length = 1 then none else some (digits.drop 1)).getD [] = digits.drop 1 := by
      split
      · rename_i h1
        exact (List.drop_eq_nil_of_le (Nat.le_of_eq h1)).symm
      · rfl
    have hpower : valueOf (zeros (2 - (ofNat (e + digits.length - 1).natAbs).length) ++
        ofNat (e + digits.length - 1).natAbs) = (e + digits.length - 1).natAbs := by
      rw [valueOf_zeros_append, valueOf_ofNat]
    obtain ⟨hne, hdigits⟩ := hspelled.exponent _ _ rfl
    have he : e + digits.length - 1 - (digits.drop 1).length = e := by
      rw [List.length_drop]
      omega
    have hexponent : exponentValue? (some (decide (e + digits.length < 1),
        zeros (2 - (ofNat (e + digits.length - 1).natAbs).length) ++ ofNat (e + digits.length - 1).natAbs)) =
          some (e + digits.length - 1) := by
      rw [exponentValue?_digits hne hdigits, hpower]
      simp only [decide_eq_true_eq]
      split <;> congr 1 <;> omega
    refine ⟨_, hspelled.decimal?_eq hexponent, ?_⟩
    simp only [hfraction, he, List.take_append_drop]

theorem isInteger_parts (negative : Bool) (d : Decimal) : (parts negative d).isInteger = false := by
  simp only [parts]
  split
  · split
    · rfl
    · split <;> rfl
  · exact Bool.and_false _

end Layout

/-- A finite floating point number is spelled with a point or an exponent, and read back as it is. -/
theorem exists_spelled_finite (words : Words) (negative : Bool) (m : Fin magnitudes) :
    ∃ w : WrittenNumber, w.Spelled ∧ w.spell = Binary64.write words (.finite negative m) ∧
      w.toNumber? = some (.float (.finite negative m)) := by
  have hd : (Decimal.shortest m).coefficient = 0 → (Decimal.shortest m).exponent = 0 := by
    intro hc
    by_cases h0 : m.val = 0
    · rw [h0]
      rfl
    · exact absurd hc (Decimal.coefficient_shortest m.isLt h0)
  obtain ⟨d, hdec, hvalue⟩ := decimal?_parts negative hd
  have hsign : (parts negative (Decimal.shortest m)).negative = negative := by
    simp only [parts]
    split
    · split
      · rfl
      · split <;> rfl
    · rfl
  refine ⟨_, spelled_parts negative hd, ?_, ?_⟩
  · have hminus : ("-" : Text) = [CodePoint.ofChar '-'] := rfl
    rw [spell_parts]
    cases negative with
    | false => rfl
    | true => rfl
  · simp only [toNumber?, isInteger_parts, toFloat?, hdec, hsign, Option.map_some, Decimal.toBinary64,
      Decimal.nearestMagnitude_of_value m.isLt hvalue, ofMagnitude, m.isLt, ↓reduceDIte, Fin.eta,
      Bool.false_eq_true, ↓reduceIte]

end Pausable.WrittenNumber
