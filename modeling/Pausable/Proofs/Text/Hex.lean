import Mathlib.Data.List.Induction
import Mathlib.Tactic.IntervalCases
import Mathlib.Tactic.Ring
import Pausable.Text

/-! Escapes name a code point by hexadecimal digits, above 16 bits by those of two surrogates. -/
namespace Pausable

namespace CodePoint

theorem hexValue?_hexDigit {n : Nat} (h : n < 16) : (hexDigit n).hexValue? = some n := by
  interval_cases n <;> rfl

theorem hexDigit_val {n : Nat} (h : n < 16) : 0x30 ≤ (hexDigit n).val ∧ (hexDigit n).val ≤ 0x39 ∨
    0x61 ≤ (hexDigit n).val ∧ (hexDigit n).val ≤ 0x66 := by
  interval_cases n <;> decide

/-- A digit of small letters is that of its value. -/
theorem hexDigit_of_hexValue? {c : CodePoint} {d : Nat} (hc : ¬ (0x41 ≤ c.val ∧ c.val ≤ 0x46))
    (h : c.hexValue? = some d) : d < 16 ∧ hexDigit d = c := by
  obtain ⟨n, hn⟩ := c
  simp only [hexValue?, if_neg hc] at h
  split at h
  · obtain rfl := Option.some.inj h
    refine ⟨by omega, ?_⟩
    rw [hexDigit, dif_pos (by omega), mk.injEq]
    omega
  · split at h
    · obtain rfl := Option.some.inj h
      refine ⟨by omega, ?_⟩
      rw [hexDigit, dif_neg (by omega), dif_pos (by omega), mk.injEq]
      omega
    · cases h

theorem ofNat_val (c : CodePoint) : ofNat c.val = c := by
  rw [ofNat, ofNat?, dif_pos c.isLt, Option.getD_some]

/-- The halves of a code point above 16 bits make a pair that stands for it. -/
theorem ofPair_halves {c : CodePoint} (h : 0x10000 ≤ c.val) :
    ofPair (0xD800 + (c.val - 0x10000) / 0x400) (0xDC00 + (c.val - 0x10000) % 0x400) = c := by
  have hsum : 0x10000 + (0xD800 + (c.val - 0x10000) / 0x400 - 0xD800) * 0x400 +
      (0xDC00 + (c.val - 0x10000) % 0x400 - 0xDC00) = c.val := by omega
  rw [ofPair, hsum, ofNat_val]

theorem isHigh_half (c : CodePoint) : isHigh (0xD800 + (c.val - 0x10000) / 0x400) = true := by
  have := c.isLt
  simp only [isHigh, Bool.and_eq_true, decide_eq_true_eq]
  omega

theorem isLow_half (c : CodePoint) : isLow (0xDC00 + (c.val - 0x10000) % 0x400) = true := by
  simp only [isLow, Bool.and_eq_true, decide_eq_true_eq]
  omega

end CodePoint

namespace Text

theorem length_hex (width n : Nat) : (hex width n).length = width := by
  induction width generalizing n with
  | zero => rfl
  | succ width ih => rw [hex, List.length_append, ih, List.length_singleton]

theorem mem_hex {width n : Nat} {c : CodePoint} (hc : c ∈ hex width n) :
    0x30 ≤ c.val ∧ c.val ≤ 0x39 ∨ 0x61 ≤ c.val ∧ c.val ≤ 0x66 := by
  induction width generalizing n with
  | zero => cases hc
  | succ width ih =>
      rw [hex] at hc
      rcases List.mem_append.1 hc with hc | hc
      · exact ih hc
      · rw [List.mem_singleton.1 hc]
        exact CodePoint.hexDigit_val (Nat.mod_lt n (by decide))

theorem unitEscape_append (n : Nat) (r : Text) :
    unitEscape n ++ r = CodePoint.ofChar '\\' :: 'u' :: (hex 4 n ++ r) := rfl

theorem hexValue?_append (t u : Text) : hexValue? (t ++ u) =
    (hexValue? t).bind (fun n => u.foldlM (fun acc c => c.hexValue?.map (acc * 16 + ·)) n) := by
  rw [hexValue?, List.foldlM_append]
  rfl

theorem hexValue?_hex {width n : Nat} (h : n < 16 ^ width) : hexValue? (hex width n) = some n := by
  induction width generalizing n with
  | zero =>
      obtain rfl : n = 0 := by simpa using h
      rfl
  | succ width ih =>
      have hdiv : n / 16 < 16 ^ width := Nat.div_lt_of_lt_mul (by rwa [pow_succ'] at h)
      have hlast := CodePoint.hexValue?_hexDigit (Nat.mod_lt n (show 0 < 16 by decide))
      rw [hex, hexValue?_append, ih hdiv, Option.bind_some, List.foldlM_cons, hlast]
      simp only [Option.map_some, List.foldlM_nil, Option.bind_eq_bind, Option.bind_some, Option.pure_def]
      congr 1
      omega

/-- A row of digits in small letters is the one that its value has at its width. -/
theorem hex_of_hexValue? {t : Text} {n : Nat} (ht : ∀ c ∈ t, ¬ (0x41 ≤ c.val ∧ c.val ≤ 0x46))
    (h : hexValue? t = some n) : n < 16 ^ t.length ∧ t = hex t.length n := by
  induction t using List.reverseRecOn generalizing n with
  | nil =>
      cases h
      exact ⟨Nat.one_pos, rfl⟩
  | append_singleton t c ih =>
      rw [hexValue?_append] at h
      obtain ⟨m, hm, hlast⟩ := Option.bind_eq_some_iff.1 h
      obtain ⟨d, hd, rfl⟩ : ∃ d, c.hexValue? = some d ∧ m * 16 + d = n := by simpa using hlast
      obtain ⟨hlt, hdigit⟩ := CodePoint.hexDigit_of_hexValue? (ht c (by simp)) hd
      obtain ⟨hm, hhex⟩ := ih (fun e he => ht e (List.mem_append_left _ he)) hm
      have hdiv : (m * 16 + d) / 16 = m := by omega
      have hmod : (m * 16 + d) % 16 = d := by omega
      rw [List.length_append, List.length_singleton, hex, hdiv, hmod, hdigit, ← hhex]
      refine ⟨?_, rfl⟩
      rw [pow_succ]
      omega

/-- Whatever has a value consists of hexadecimal digits. -/
theorem isSome_of_hexValue? {t : Text} {n : Nat} (h : hexValue? t = some n) {c : CodePoint} (hc : c ∈ t) :
    c.hexValue?.isSome := by
  rw [hexValue?] at h
  generalize 0 = acc at h
  induction t generalizing acc with
  | nil => cases hc
  | cons d t ih =>
      rw [List.foldlM_cons] at h
      cases hd : d.hexValue? with
      | none => simp [hd] at h
      | some m =>
          rcases List.mem_cons.1 hc with rfl | hc
          · rw [hd]; rfl
          · rw [hd] at h
            exact ih hc _ h

end Text
end Pausable
