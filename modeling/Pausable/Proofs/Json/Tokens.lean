import Pausable.Proofs.Json.Quoted
import Pausable.Proofs.Number.Spelled
import Pausable.Proofs.Value.Nesting

/-! Words and numbers of JSON text are read back. -/
namespace Pausable.Json

open WrittenNumber

section

variable {r : Text}

theorem constant?_word (p : Nat) {word : Text} {v : Value} (h : (word, v) ∈ constants) (r : Text) :
    ∃ p', constant? ⟨p, word ++ r⟩ = some (v, ⟨p', r⟩) := by
  simp only [constants, List.mem_cons, Prod.mk.injEq, List.not_mem_nil, or_false] at h
  rcases h with ⟨rfl, rfl⟩ | ⟨rfl, rfl⟩ | ⟨rfl, rfl⟩ | ⟨rfl, rfl⟩ | ⟨rfl, rfl⟩ | ⟨rfl, rfl⟩ <;>
    exact ⟨_, rfl⟩

theorem isWord_of_mem {word : Text} {v : Value} (h : (word, v) ∈ constants) : word.IsWord := by
  simp only [constants, List.mem_cons, Prod.mk.injEq, List.not_mem_nil, or_false] at h
  rcases h with ⟨rfl, -⟩ | ⟨rfl, -⟩ | ⟨rfl, -⟩ | ⟨rfl, -⟩ | ⟨rfl, -⟩ | ⟨rfl, -⟩ <;>
    first
      | exact ⟨_, _, rfl, .inl (by decide)⟩
      | exact ⟨_, _, rfl, .inr ⟨rfl, _, _, rfl, by decide⟩⟩

theorem constant?_wordless (p : Nat) {t : Text} (ht : t.Wordless) : constant? ⟨p, t⟩ = none := by
  simp only [constant?, List.findSome?_eq_none_iff]
  intro k hk
  exact if_neg ((isWord_of_mem hk).take_ne ht)

theorem takeWhole_spell (p : Nat) {w : WrittenNumber} (hw : w.Spelled)
    (hr : r.Stops CodePoint.isAsciiDigit) :
    ∃ p', takeWhole ⟨p, w.whole ++ r⟩ = (w.whole, ⟨p', r⟩) := by
  rcases hw.starts with hzero | ⟨c, t, hct, hc⟩
  · rw [hzero]
    exact ⟨p + 1, rfl⟩
  · have hnext : ¬ (⟨p, w.whole ++ r⟩ : Cursor).next (· = '0') = true := by
      rw [hct]
      refine Cursor.not_next_of_ne ?_
      rintro rfl
      exact hc rfl
    rw [takeWhole, if_neg hnext, Cursor.takeRun_append hw.whole hr]
    exact ⟨p + w.whole.length, rfl⟩

theorem takeFraction_spell (p : Nat) {w : WrittenNumber} (hw : w.Spelled)
    (hr : r.Stops CodePoint.isAsciiDigit) (hpoint : r.Stops (· = '.')) :
    ∃ p', takeFraction ⟨p, spellFraction w.fraction ++ r⟩ = (w.fraction, ⟨p', r⟩) := by
  cases hf : w.fraction with
  | none =>
      refine ⟨p, ?_⟩
      rw [spellFraction, List.nil_append, takeFraction, Cursor.next_stops hpoint]
      rfl
  | some t =>
      obtain ⟨hne, ht⟩ := hw.fraction t hf
      obtain ⟨d, u, rfl⟩ := List.exists_cons_of_ne_nil hne
      have hskip : (⟨p, spellFraction (some (d :: u)) ++ r⟩ : Cursor).skip 1 = ⟨p + 1, d :: u ++ r⟩ := rfl
      have hnext : (⟨p, spellFraction (some (d :: u)) ++ r⟩ : Cursor).next (· = '.') = true ∧
          (⟨p + 1, d :: u ++ r⟩ : Cursor).next CodePoint.isAsciiDigit = true :=
        ⟨rfl, ht d (List.mem_cons_self ..)⟩
      refine ⟨p + 1 + (d :: u).length, ?_⟩
      rw [takeFraction, hskip, if_pos hnext, Cursor.takeRun_append ht hr]

theorem takeExponent_spell (p : Nat) {w : WrittenNumber} (hw : w.Spelled)
    (hr : r.Stops CodePoint.isAsciiDigit) (hletter : r.Stops fun d => d = 'e' ∨ d = 'E') :
    ∃ p', takeExponent ⟨p, spellExponent w.exponent ++ r⟩ = (w.exponent, ⟨p', r⟩) := by
  cases he : w.exponent with
  | none =>
      refine ⟨p, ?_⟩
      rw [spellExponent, List.nil_append, takeExponent, Cursor.next_stops hletter]
      rfl
  | some e =>
      obtain ⟨negative, t⟩ := e
      obtain ⟨hne, ht⟩ := hw.exponent negative t he
      have hempty : t.isEmpty = false := List.isEmpty_eq_false_iff.2 hne
      have hrun := Cursor.takeRun_append (p := p + 1 + 1) ht hr
      have hcut : takeExponent ⟨p, spellExponent (some (negative, t)) ++ r⟩ =
          (let cut := (⟨p + 1 + 1, t ++ r⟩ : Cursor).takeRun CodePoint.isAsciiDigit
            if cut.1.isEmpty then (none, ⟨p, spellExponent (some (negative, t)) ++ r⟩)
            else (some (negative, cut.1), cut.2)) := by
        cases negative <;> rfl
      exact ⟨p + 1 + 1 + t.length, by rw [hcut, hrun]; simp only [hempty, Bool.false_eq_true, ↓reduceIte]⟩

/-- A spelled number is cut into the parts it is spelled from. -/
theorem takeNumber_spell (p : Nat) {w : WrittenNumber} (hw : w.Spelled) (hr : r.Ends) :
    ∃ p', takeNumber ⟨p, w.spell ++ r⟩ = (w, ⟨p', r⟩) := by
  have hdigit : r.Stops CodePoint.isAsciiDigit := hr.stops rfl rfl rfl
  have hafter := stops_spellExponent hdigit rfl w.exponent
  have hpoint : Text.Stops (· = '.') (spellExponent w.exponent ++ r) :=
    stops_spellExponent (hr.stops rfl rfl rfl) rfl w.exponent
  have hminus : w.negative = false →
      Text.Stops (· = '-') (w.whole ++ (spellFraction w.fraction ++ (spellExponent w.exponent ++ r))) := by
    intro _
    obtain ⟨c, t, hct⟩ := List.exists_cons_of_ne_nil hw.whole_ne_nil
    rw [hct]
    rintro _ ⟨⟩
    refine decide_eq_false ?_
    rintro rfl
    exact absurd (hw.whole _ (hct ▸ List.mem_cons_self ..)) (by decide)
  obtain ⟨p₁, h₁⟩ := takeMinus_sign p hminus
  obtain ⟨p₂, h₂⟩ := takeWhole_spell p₁ hw (stops_spellFraction hafter rfl w.fraction)
  obtain ⟨p₃, h₃⟩ := takeFraction_spell p₂ hw hafter hpoint
  obtain ⟨p₄, h₄⟩ := takeExponent_spell p₃ hw hdigit (hr.stops rfl rfl rfl)
  refine ⟨p₄, ?_⟩
  simp only [spell, List.append_assoc, takeNumber, h₁, h₂, h₃, h₄]

theorem readNumber_spell (p : Nat) {w : WrittenNumber} {n : Number} (hw : w.Spelled)
    (hn : w.toNumber? = some n) (hr : r.Ends) : ∃ p', readNumber ⟨p, w.spell ++ r⟩ = .ok (n, ⟨p', r⟩) := by
  obtain ⟨p', hp⟩ := takeNumber_spell p hw hr
  have hempty : w.whole.isEmpty = false := List.isEmpty_eq_false_iff.2 hw.whole_ne_nil
  exact ⟨p', by simp only [readNumber, hp, hempty, hn, Bool.false_eq_true, ↓reduceIte]⟩

/-- The text of a number is a word, or spelled from parts that give the number back. -/
theorem writeNumber_short {n : Number} (h : n.Short) : ∃ t, writeNumber n = .ok t ∧
    ((t, Value.number n) ∈ constants ∨
      ∃ w : WrittenNumber, w.Spelled ∧ w.spell = t ∧ w.toNumber? = some n) := by
  cases n with
  | int n =>
      have hn := (Number.short_int n).1 h
      refine ⟨Numeral.ofInt n, ?_, .inr (exists_spelled_int hn)⟩
      unfold writeNumber
      simp only [Numeral.ofInt?_of_lt hn]
  | float x =>
      refine ⟨x.write numberWords, rfl, ?_⟩
      cases x with
      | nan => exact .inl (by simp [constants, Binary64.write, numberWords])
      | infinite negative =>
          have hminus : ("-" : Text) ++ "Infinity" = "-Infinity" := rfl
          cases negative <;> exact .inl (by simp [constants, Binary64.write, numberWords, hminus])
      | finite negative m => exact .inr (exists_spelled_finite numberWords negative m)

/-- The text of a scalar. -/
def scalarText : Value → Text
  | .null => "null"
  | .bool b => boolWord b
  | .number n => (writeNumber n).toOption.getD []
  | .text t => quote t
  | .list _ | .tuple _ | .record _ | .alien _ => []

/-- A scalar is a word, a string or a spelled number. -/
theorem scalarText_cases {v : Value} (hs : v.IsScalar) (hv : v.Plain Number.Short Text.Unpaired) :
    (scalarText v, v) ∈ constants ∨ (∃ t, Text.Unpaired t ∧ v = .text t) ∨
      ∃ (w : WrittenNumber) (n : Number), w.Spelled ∧ w.toNumber? = some n ∧ v = .number n ∧
        scalarText v = w.spell := by
  cases v with
  | null => exact .inl (List.mem_cons_self ..)
  | bool b => cases b <;> exact .inl (by simp [constants, scalarText, boolWord])
  | text t => exact .inr (.inl ⟨t, hv, rfl⟩)
  | number n =>
      obtain ⟨t, ht, hword | ⟨w, hw, rfl, hn⟩⟩ := writeNumber_short hv
      · exact .inl (by simpa only [scalarText, ht, Except.toOption, Option.getD_some] using hword)
      · exact .inr (.inr ⟨w, n, hw, hn, rfl, by simp only [scalarText, ht]; rfl⟩)
  | list | tuple | record | alien => exact hs.elim

/-- The text of a scalar begins like a value, and not like a container. -/
theorem head_scalarText {v : Value} (r : Text) (hs : v.IsScalar) (hv : v.Plain Number.Short Text.Unpaired) :
    ∃ c u, scalarText v ++ r = c :: u ∧ (0x20 < c.val ∧ c.val < 0x7F ∧ c ≠ ']' ∧ c ≠ '\x7d') ∧
      c ≠ '[' ∧ c ≠ '\x7b' := by
  rcases scalarText_cases hs hv with hword | ⟨t, -, rfl⟩ | ⟨w, n, hw, -, -, ht⟩
  · generalize scalarText v = word at hword
    simp only [constants, List.mem_cons, Prod.mk.injEq, List.not_mem_nil, or_false] at hword
    rcases hword with ⟨rfl, rfl⟩ | ⟨rfl, rfl⟩ | ⟨rfl, rfl⟩ | ⟨rfl, rfl⟩ | ⟨rfl, rfl⟩ | ⟨rfl, rfl⟩ <;>
      exact ⟨_, _, rfl, by decide, by decide, by decide⟩
  · exact ⟨'"', _, rfl, by decide, by decide, by decide⟩
  · rw [ht]
    exact hw.head_value r

theorem begins_scalarText {v : Value} (r : Text) (hs : v.IsScalar) (hv : v.Plain Number.Short Text.Unpaired) :
    (scalarText v ++ r).Begins := by
  obtain ⟨c, u, hcu, hc, -⟩ := head_scalarText r hs hv
  exact ⟨c, u, hcu, hc⟩

/-- A scalar is read back from its text. -/
theorem readScalar_scalarText (p : Nat) {v : Value} (hs : v.IsScalar)
    (hv : v.Plain Number.Short Text.Unpaired) (hr : r.Ends) :
    ∃ p', readScalar ⟨p, scalarText v ++ r⟩ = .ok (v, ⟨p', r⟩) := by
  rcases scalarText_cases hs hv with hword | ⟨t, ht, rfl⟩ | ⟨w, n, hw, hn, rfl, ht⟩
  · obtain ⟨p', hp⟩ := constant?_word p hword r
    have hnext : ¬ (⟨p, scalarText v ++ r⟩ : Cursor).next (· = '"') = true := by
      generalize scalarText v = word at hword
      simp only [constants, List.mem_cons, Prod.mk.injEq, List.not_mem_nil, or_false] at hword
      rcases hword with ⟨rfl, -⟩ | ⟨rfl, -⟩ | ⟨rfl, -⟩ | ⟨rfl, -⟩ | ⟨rfl, -⟩ | ⟨rfl, -⟩ <;> exact Bool.false_ne_true
    exact ⟨p', by rw [readScalar, if_neg hnext, hp]⟩
  · obtain ⟨p', hp⟩ := readString_quote ht p r
    have hnext : (⟨p, quote t ++ r⟩ : Cursor).next (· = '"') = true := rfl
    exact ⟨p', by rw [scalarText, readScalar, if_pos hnext, hp]; rfl⟩
  · obtain ⟨p', hp⟩ := readNumber_spell p hw hn hr
    obtain ⟨c, u, hcu, hc⟩ := hw.head_spell r
    have hnone := constant?_wordless p (hw.wordless r)
    have hnext : ¬ (⟨p, c :: u⟩ : Cursor).next (· = '"') = true := by
      refine Cursor.not_next_of_ne ?_
      rintro rfl
      rcases hc with hc | ⟨hc, -⟩
      · exact absurd hc (by decide)
      · exact absurd hc (by decide)
    refine ⟨p', ?_⟩
    rw [hcu] at hp hnone
    rw [ht, hcu, readScalar, if_neg hnext, hnone]
    simp only [hp]
    rfl

end
end Pausable.Json
