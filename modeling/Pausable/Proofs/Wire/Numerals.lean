import Mathlib.Data.Nat.Find
import Pausable.Proofs.Wire.Grammar

/-!
The reader cuts the longest text of a number (`exists_longest`), part by part; which part comes next is told
by one code point.
-/
namespace Pausable

namespace WrittenNumber

theorem stops_fraction {q : CodePoint → Bool} {f : Option Text} {t r : Text} (hf : FractionText f t)
    (hpoint : q '.' = false) (hr : r.Stops q) : (t ++ r).Stops q := by
  cases hf with
  | none => exact hr
  | point =>
      rintro _ ⟨⟩
      exact hpoint

theorem stops_exponent {q : CodePoint → Bool} {e : Option (Bool × Text)} {t r : Text} (he : ExponentText e t)
    (hletter : ∀ c, IsExponentLetter c → q c = false) (hr : e = none → r.Stops q) : (t ++ r).Stops q := by
  cases he with
  | none => exact hr rfl
  | bare hc | plus hc | minus hc =>
      rintro _ ⟨⟩
      exact hletter _ hc

theorem stops_digits {q : CodePoint → Bool} {t r : Text} (ht : IsDigits t) (hq : ∀ c, c.isDigit = true → q c = false)
    (hr : t = [] → r.Stops q) : (t ++ r).Stops q := by
  cases t with
  | nil => exact hr rfl
  | cons c t =>
      rintro _ ⟨⟩
      exact hq c (ht c (List.mem_cons_self ..))

theorem IsDigits.append_digit {t : Text} (ht : IsDigits t) {d : CodePoint} (hd : d.isDigit = true) :
    IsDigits (t ++ [d]) := List.forall_mem_append.2 ⟨ht, List.forall_mem_singleton.2 hd⟩

theorem not_isDigit_letter (c : CodePoint) (hc : IsExponentLetter c) : c.isDigit = false := by
  rcases hc with rfl | rfl <;> rfl

/-! ## What makes the text of a number longer -/

section

variable {w : WrittenNumber} {t : Text} {d : CodePoint}

theorem FractionText.append_digit {f : Text} (hf : FractionText (some f) t) (hd : d.isDigit = true) :
    FractionText (some (f ++ [d])) (t ++ [d]) := by
  cases hf with
  | point hf => exact .point (hf.append_digit hd)

theorem ExponentText.append_digit {e : Bool × Text} (he : ExponentText (some e) t) (hd : d.isDigit = true) :
    ExponentText (some (e.1, e.2 ++ [d])) (t ++ [d]) := by
  cases he with
  | bare hc ht => exact .bare hc (ht.append_digit hd)
  | plus hc ht => exact .plus hc (ht.append_digit hd)
  | minus hc ht => exact .minus hc (ht.append_digit hd)

theorem ExponentText.append_sign {e : Option (Bool × Text)} (he : ExponentText e t) (ht : t.length = 1)
    (hd : d = '+' ∨ d = '-') : ∃ negative, ExponentText (some (negative, [])) (t ++ [d]) := by
  cases he with
  | none => cases ht
  | plus | minus => simp at ht
  | @bare c t hc =>
      obtain rfl : t = [] := List.eq_nil_of_length_eq_zero (Nat.succ.inj ht)
      rcases hd with rfl | rfl
      · exact ⟨false, .plus hc nofun⟩
      · exact ⟨true, .minus hc nofun⟩

theorem IsText.append_digit (h : w.IsText t) (hd : d.isDigit = true) : ∃ w', IsText w' (t ++ [d]) := by
  obtain ⟨negative, whole, fraction, exponent⟩ := w
  obtain ⟨f, e, rfl, hwhole, hf, he⟩ := h
  simp only [List.append_assoc]
  cases exponent with
  | some x => exact ⟨⟨negative, whole, fraction, some (x.1, x.2 ++ [d])⟩, f, e ++ [d], rfl, hwhole, hf, he.append_digit hd⟩
  | none =>
      cases he
      rw [List.nil_append]
      cases fraction with
      | some x =>
          refine ⟨⟨negative, whole, some (x ++ [d]), none⟩, f ++ [d], [], ?_, hwhole, hf.append_digit hd, .none⟩
          rw [List.append_nil]
      | none =>
          cases hf
          refine ⟨⟨negative, whole ++ [d], none, none⟩, [], [], ?_, hwhole.append_digit hd, .none, .none⟩
          simp only [List.nil_append, List.append_nil]

theorem IsText.append_point (h : w.IsText t) (hf : w.fraction = none) (he : w.exponent = none) :
    ∃ w', IsText w' (t ++ ".") := by
  obtain ⟨negative, whole, fraction, exponent⟩ := w
  cases hf; cases he
  obtain ⟨f, e, rfl, hwhole, hf, he⟩ := h
  cases hf; cases he
  refine ⟨⟨negative, whole, some [], none⟩, ".", [], ?_, hwhole, .point nofun, .none⟩
  simp only [List.append_assoc, List.append_nil]

theorem IsText.append_letter (h : w.IsText t) (he : w.exponent = none) (hd : IsExponentLetter d) :
    ∃ w', IsText w' (t ++ [d]) := by
  obtain ⟨negative, whole, fraction, exponent⟩ := w
  cases he
  obtain ⟨f, e, rfl, hwhole, hf, he⟩ := h
  cases he
  refine ⟨⟨negative, whole, fraction, some (false, [])⟩, f, [d], ?_, hwhole, hf, .bare hd nofun⟩
  simp only [List.append_assoc, List.append_nil]

/-- Nothing that would make the text longer stands behind the longest one. -/
theorem Longest.stops {q : CodePoint → Bool} {r : Text} (h : w.Longest t r)
    (hq : ∀ d, q d = true → ∃ w', IsText w' (t ++ [d])) : r.Stops q := by
  rintro d hd
  rw [Bool.eq_false_iff]
  intro hqd
  obtain ⟨w', hw'⟩ := hq d hqd
  obtain ⟨u, rfl⟩ : ∃ u, r = d :: u := by
    cases r with
    | nil => cases hd
    | cons c u => cases hd; exact ⟨u, rfl⟩
  have hlength := h.longest w' _ hw' ⟨u, by rw [List.append_assoc]; rfl⟩
  rw [List.length_append, List.length_singleton] at hlength
  omega

end

/-! ## A longest text -/

/-- A text that begins like a number has a longest text of a number at its front. -/
theorem exists_longest {c : CodePoint} (hc : c = '-' ∨ c.isDigit = true) (u : Text) :
    ∃ w t r, c :: u = c :: t ++ r ∧ Longest w (c :: t) r := by
  classical
  have hfirst : ∃ w, IsText w ((c :: u).take 1) := by
    rcases hc with rfl | hc
    · exact ⟨⟨true, [], none, none⟩, [], [], rfl, nofun, .none, .none⟩
    · exact ⟨⟨false, [c], none, none⟩, [], [], rfl, List.forall_mem_singleton.2 hc, .none, .none⟩
  have hone : 1 ≤ (c :: u).length := by
    rw [List.length_cons]
    omega
  -- the longest one is sought among the beginnings, by their lengths
  let n := Nat.findGreatest (fun n => ∃ w, IsText w ((c :: u).take n)) (c :: u).length
  have hpos : 1 ≤ n := Nat.le_findGreatest hone hfirst
  obtain ⟨w, hw⟩ : ∃ w, IsText w ((c :: u).take n) := Nat.findGreatest_spec (P := fun n => ∃ w, IsText w ((c :: u).take n)) hone hfirst
  obtain ⟨k, hk⟩ := Nat.exists_eq_add_of_le' hpos
  have htake : (c :: u).take n = c :: u.take k := by rw [hk, List.take_succ_cons]
  have hsplit : c :: u = c :: u.take k ++ u.drop k := by rw [List.cons_append, List.take_append_drop]
  rw [htake] at hw
  refine ⟨w, u.take k, u.drop k, hsplit, hw, fun w' t' hw' hprefix => ?_⟩
  rw [← hsplit] at hprefix
  have hbound : t'.length ≤ n := by
    refine Nat.le_findGreatest hprefix.length_le ⟨w', ?_⟩
    rwa [← List.prefix_iff_eq_take.1 hprefix]
  have hlength : ((c :: u).take n).length = n :=
    List.length_take_of_le (Nat.findGreatest_le _)
  rw [← htake, hlength]
  exact hbound

end WrittenNumber

namespace Wire

open WrittenNumber

variable {r : Text}

/-! ## Cutting -/

theorem takeFraction_text (p : Nat) {f : Option Text} {t : Text} (hf : FractionText f t)
    (hr : r.Stops CodePoint.isDigit) (hpoint : f = none → r.Stops (· = '.')) :
    ∃ p', takeFraction ⟨p, t ++ r⟩ = (f, ⟨p', r⟩) := by
  cases hf with
  | none =>
      refine ⟨p, ?_⟩
      rw [List.nil_append, takeFraction, Cursor.next_stops (hpoint rfl)]
      rfl
  | @point t ht =>
      have hrun := Cursor.takeRun_append (p := p + 1) ht hr
      have hskip : (⟨p, CodePoint.ofChar '.' :: t ++ r⟩ : Cursor).skip 1 = ⟨p + 1, t ++ r⟩ := rfl
      refine ⟨p + 1 + t.length, ?_⟩
      rw [takeFraction, hskip, hrun]
      rfl

theorem takeExponent_bare (p : Nat) {c : CodePoint} {t : Text} (hc : IsExponentLetter c) (ht : IsDigits t)
    (hr : r.Stops CodePoint.isDigit) (hsign : t = [] → r.Stops fun d => d = '+' ∨ d = '-') :
    ∃ p', takeExponent ⟨p, c :: t ++ r⟩ = (some (false, t), ⟨p', r⟩) := by
  have hletter : (⟨p, c :: t ++ r⟩ : Cursor).next (fun d => d = 'e' ∨ d = 'E') = true := decide_eq_true hc
  have hskip : (⟨p, c :: t ++ r⟩ : Cursor).skip 1 = ⟨p + 1, t ++ r⟩ := rfl
  have hdigit (d : CodePoint) (hd : d.isDigit = true) : ¬ (d = '+' ∨ d = '-') := by
    rintro (rfl | rfl) <;> cases hd
  have hstops : Text.Stops (fun d => d = '+' ∨ d = '-') (t ++ r) :=
    stops_digits ht (fun d hd => decide_eq_false (hdigit d hd)) hsign
  have hminus : Text.Stops (· = '-') (t ++ r) := by
    intro d hd
    have hnot := of_decide_eq_false (hstops d hd)
    exact decide_eq_false fun h => hnot (.inr h)
  refine ⟨p + 1 + t.length, ?_⟩
  rw [takeExponent, if_pos hletter, hskip]
  simp only [Cursor.next_stops hstops, Cursor.next_stops hminus, Bool.false_eq_true, ↓reduceIte,
    Cursor.takeRun_append ht hr]

theorem takeExponent_signed (p : Nat) {c : CodePoint} {t : Text} (negative : Bool) (hc : IsExponentLetter c)
    (ht : IsDigits t) (hr : r.Stops CodePoint.isDigit) :
    ∃ p', takeExponent ⟨p, c :: (if negative then '-' else '+') :: t ++ r⟩ = (some (negative, t), ⟨p', r⟩) := by
  have hcut : takeExponent ⟨p, c :: (if negative then '-' else '+') :: t ++ r⟩ =
      (some (negative, ((⟨p + 1 + 1, t ++ r⟩ : Cursor).takeRun CodePoint.isDigit).1),
        ((⟨p + 1 + 1, t ++ r⟩ : Cursor).takeRun CodePoint.isDigit).2) := by
    rcases hc with rfl | rfl <;> cases negative <;> rfl
  rw [hcut, Cursor.takeRun_append ht hr]
  exact ⟨_, rfl⟩

theorem takeExponent_text (p : Nat) {e : Option (Bool × Text)} {t : Text} (he : ExponentText e t)
    (hr : r.Stops CodePoint.isDigit) (hletter : e = none → r.Stops fun d => d = 'e' ∨ d = 'E')
    (hsign : t.length = 1 → r.Stops fun d => d = '+' ∨ d = '-') :
    ∃ p', takeExponent ⟨p, t ++ r⟩ = (e, ⟨p', r⟩) := by
  cases he with
  | none =>
      refine ⟨p, ?_⟩
      rw [List.nil_append, takeExponent, Cursor.next_stops (hletter rfl)]
      rfl
  | bare hc ht => exact takeExponent_bare p hc ht hr fun hnil => hsign (by rw [hnil]; rfl)
  | plus hc ht => exact takeExponent_signed p false hc ht hr
  | minus hc ht => exact takeExponent_signed p true hc ht hr

/-- What stands behind the text of a number tells the reader where it ends. -/
theorem takeNumber_text (p : Nat) {w : WrittenNumber} {f e : Text} (hwhole : IsDigits w.whole)
    (hf : FractionText w.fraction f) (he : ExponentText w.exponent e)
    (hminus : w.negative = false → Text.Stops (· = '-') (w.whole ++ (f ++ (e ++ r))))
    (hdigit : r.Stops CodePoint.isDigit)
    (hpoint : w.fraction = none → w.exponent = none → r.Stops (· = '.'))
    (hletter : w.exponent = none → r.Stops fun d => d = 'e' ∨ d = 'E')
    (hsign : e.length = 1 → r.Stops fun d => d = '+' ∨ d = '-') :
    ∃ p', takeNumber ⟨p, spellSign w.negative ++ (w.whole ++ (f ++ (e ++ r)))⟩ = (w, ⟨p', r⟩) := by
  have hafter : Text.Stops CodePoint.isDigit (e ++ r) := stops_exponent he not_isDigit_letter fun _ => hdigit
  have hbehind (hnone : w.fraction = none) : Text.Stops (· = '.') (e ++ r) := by
    refine stops_exponent he (fun c hc => ?_) (hpoint hnone)
    rcases hc with rfl | rfl <;> rfl
  obtain ⟨p₁, h₁⟩ := takeMinus_sign p hminus
  have hrun := Cursor.takeRun_append (p := p₁) hwhole (stops_fraction hf rfl hafter)
  obtain ⟨p₂, h₂⟩ := takeFraction_text (p₁ + w.whole.length) hf hafter hbehind
  obtain ⟨p₃, h₃⟩ := takeExponent_text p₂ he hdigit hletter hsign
  refine ⟨p₃, ?_⟩
  simp only [takeNumber, h₁, hrun, h₂, h₃]

/-- The longest text of a number is cut into its parts. -/
theorem takeNumber_longest (p : Nat) {w : WrittenNumber} {c : CodePoint} {t : Text} (h : w.Longest (c :: t) r) :
    ∃ p', takeNumber ⟨p, c :: t ++ r⟩ = (w, ⟨p', r⟩) := by
  obtain ⟨f, e, ht, hwhole, hf, he⟩ := h.text
  have htext : c :: t ++ r = spellSign w.negative ++ (w.whole ++ (f ++ (e ++ r))) := by
    rw [ht]
    simp only [List.append_assoc]
  rw [htext]
  refine takeNumber_text p hwhole hf he (fun hnegative => ?_) ?_ (fun hf he => ?_) (fun he => ?_) fun hlength => ?_
  · -- without a sign the first code point is of the digits, of the fraction or of the exponent
    have hstops : Text.Stops (· = '-') (w.whole ++ (f ++ (e ++ []))) := by
      refine stops_digits hwhole (fun d hd => ?_) fun _ => stops_fraction hf rfl (stops_exponent he ?_ nofun)
      · refine decide_eq_false ?_
        rintro rfl
        cases hd
      · rintro d (rfl | rfl) <;> rfl
    rw [hnegative, spellSign, if_neg Bool.false_ne_true, List.nil_append] at ht htext
    rw [List.append_nil, ← ht] at hstops
    rw [← htext]
    rintro _ ⟨⟩
    exact hstops c rfl
  · exact h.stops fun d hd => h.text.append_digit hd
  · refine h.stops fun d hd => ?_
    obtain rfl : d = '.' := of_decide_eq_true hd
    exact h.text.append_point hf he
  · refine h.stops fun d hd => ?_
    have hletter : d = 'e' ∨ d = 'E' := of_decide_eq_true hd
    exact h.text.append_letter he hletter
  · refine h.stops fun d hd => ?_
    obtain ⟨negative, he'⟩ := he.append_sign hlength (of_decide_eq_true hd)
    rw [ht]
    refine ⟨⟨w.negative, w.whole, w.fraction, some (negative, [])⟩, f, e ++ [d], ?_, hwhole, hf, he'⟩
    simp only [List.append_assoc]

end Wire
end Pausable
