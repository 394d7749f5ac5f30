import Mathlib.Algebra.Field.Rat
import Mathlib.Algebra.Order.Field.Basic
import Mathlib.Data.Nat.Log
import Mathlib.Tactic.FieldSimp
import Mathlib.Tactic.NormNum
import Mathlib.Tactic.Ring
import Pausable.Binary64.Decimal

/-!
The shortest decimal of a magnitude is read back to it (`Decimal.nearestMagnitude_of_value`). What is read
depends on the value of a decimal alone (`Decimal.exactMagnitude_congr`), so that neither the layout nor the
zeros that are dropped matter.
-/
namespace Pausable.Binary64

theorem roundQuotient_mul (num den : Nat) {k : Nat} (hk : 0 < k) :
    roundQuotient (num * k) (den * k) = roundQuotient num den := by
  have hr : 2 * (num % den * k) = 2 * (num % den) * k := (Nat.mul_assoc ..).symm
  simp only [roundQuotient, Nat.mul_div_mul_right _ _ hk, Nat.mul_mod_mul_right, hr,
    Nat.mul_lt_mul_right hk]

theorem nearestMagnitude_mul (num den : Nat) {k : Nat} (hk : 0 < k) :
    nearestMagnitude (num * k) (den * k) = nearestMagnitude num den := by
  simp only [nearestMagnitude, Nat.mul_div_mul_right _ _ hk, Nat.mul_right_comm den k,
    roundQuotient_mul _ _ hk]

/-- Equal quotients are rounded to the same magnitude. -/
theorem nearestMagnitude_congr {num den num' den' : Nat} (hd : 0 < den) (hd' : 0 < den')
    (h : num * den' = num' * den) : nearestMagnitude num den = nearestMagnitude num' den' := by
  rw [← nearestMagnitude_mul num den hd', h, Nat.mul_comm den den', nearestMagnitude_mul num' den' hd]

theorem roundQuotient_one (n : Nat) : roundQuotient n 1 = n := by
  simp [roundQuotient, Nat.mod_one]

/-- A magnitude is the nearest one to its own units. -/
theorem nearestMagnitude_units (m : Nat) : nearestMagnitude (units m) 1 = m := by
  by_cases hm : m < 2 ^ 53
  · have hu : units m = m := by rw [units, Nat.pow_eq, if_pos hm]
    have hlog : m.log2 - 52 = 0 := by
      rcases Nat.eq_zero_or_pos m with rfl | hpos
      · rfl
      · have := (Nat.log2_lt (Nat.pos_iff_ne_zero.1 hpos)).2 hm
        omega
    simp only [nearestMagnitude, hu, Nat.div_one, hlog, Nat.zero_mul, Nat.zero_add, Nat.pow_eq, pow_zero,
      Nat.mul_one, roundQuotient_one]
  · have hu : units m = (2 ^ 52 + m % 2 ^ 52) * 2 ^ (m / 2 ^ 52 - 1) := by
      simp only [units, Nat.pow_eq, if_neg hm]
    have hmod : m % 2 ^ 52 < 2 ^ 52 := Nat.mod_lt _ (by norm_num)
    have hdiv := Nat.div_add_mod m (2 ^ 52)
    have hone : 1 ≤ m / 2 ^ 52 := by omega
    generalize m / 2 ^ 52 = k at *
    generalize m % 2 ^ 52 = f at *
    have hlog : (units m).log2 - 52 = k - 1 := by
      have hlow : 2 ^ (52 + (k - 1)) ≤ units m := by
        rw [hu, pow_add]
        exact Nat.mul_le_mul_right _ (Nat.le_add_right ..)
      have hhigh : units m < 2 ^ (53 + (k - 1)) := by
        rw [hu, pow_add]
        exact Nat.mul_lt_mul_of_pos_right (by omega) (Nat.two_pow_pos _)
      have hne : units m ≠ 0 := Nat.pos_iff_ne_zero.1 (Nat.lt_of_lt_of_le (Nat.two_pow_pos _) hlow)
      have h1 := (Nat.le_log2 hne).2 hlow
      have h2 := (Nat.log2_lt hne).2 hhigh
      omega
    have hround : roundQuotient (units m) (1 * 2 ^ (k - 1)) = 2 ^ 52 + f := by
      rw [hu, roundQuotient_mul _ _ (Nat.two_pow_pos _), roundQuotient_one]
    simp only [nearestMagnitude, Nat.div_one, hlog, Nat.pow_eq, hround]
    omega

namespace Decimal

/-- The value of a decimal. -/
def value (d : Decimal) : ℚ := d.coefficient * 10 ^ d.exponent

theorem ten_zpow (e : Int) : (10 : ℚ) ^ e = 10 ^ e.toNat / 10 ^ (-e).toNat := by
  rcases Int.le_total 0 e with h | h
  · have h0 : (-e).toNat = 0 := by omega
    rw [h0, pow_zero, div_one, ← zpow_natCast, Int.toNat_of_nonneg h]
  · have h0 : e.toNat = 0 := by omega
    rw [h0, pow_zero, one_div, ← zpow_natCast, Int.toNat_of_nonneg (by omega), zpow_neg, inv_inv]

/-- The magnitude nearest to a decimal, powers computed whatever the exponent is. -/
def exactMagnitude (d : Decimal) : Nat :=
  Binary64.nearestMagnitude (d.coefficient * unitsPerOne * 10 ^ d.exponent.toNat)
    (10 ^ (-d.exponent).toNat)

theorem exactMagnitude_congr {d d' : Decimal} (h : d.value = d'.value) :
    d.exactMagnitude = d'.exactMagnitude := by
  refine nearestMagnitude_congr (Nat.pow_pos (by decide)) (Nat.pow_pos (by decide)) ?_
  have hpos (n : Nat) : (10 : ℚ) ^ n ≠ 0 := pow_ne_zero n (by norm_num)
  simp only [value, ten_zpow, ← mul_div_assoc] at h
  rw [div_eq_div_iff (hpos _) (hpos _)] at h
  have hcast : ((d.coefficient * 10 ^ d.exponent.toNat * 10 ^ (-d'.exponent).toNat : Nat) : ℚ) =
      (d'.coefficient * 10 ^ d'.exponent.toNat * 10 ^ (-d.exponent).toNat : Nat) := by
    push_cast
    exact h
  have hnat := Nat.cast_injective hcast
  calc d.coefficient * unitsPerOne * 10 ^ d.exponent.toNat * 10 ^ (-d'.exponent).toNat
      = d.coefficient * 10 ^ d.exponent.toNat * 10 ^ (-d'.exponent).toNat * unitsPerOne := by ring
    _ = d'.coefficient * 10 ^ d'.exponent.toNat * 10 ^ (-d.exponent).toNat * unitsPerOne := by rw [hnat]
    _ = d'.coefficient * unitsPerOne * 10 ^ d'.exponent.toNat * 10 ^ (-d.exponent).toNat := by ring

theorem value_strip (c : Nat) (e : Int) : (strip c e).value = c * 10 ^ e := by
  fun_induction strip c e with
  | case1 c e h ih =>
      obtain ⟨k, rfl⟩ := Nat.dvd_of_mod_eq_zero h.2
      rw [Nat.mul_div_cancel_left k (by decide)] at ih ⊢
      rw [ih, zpow_add₀ (by norm_num), zpow_one]
      push_cast
      ring
  | case2 c e h => rfl

theorem exactMagnitude_strip (c : Nat) (e : Int) :
    (strip c e).exactMagnitude = (⟨c, e⟩ : Decimal).exactMagnitude :=
  exactMagnitude_congr (value_strip c e)

theorem exactMagnitude_of_coefficient {d : Decimal} (hc : d.coefficient = 0) : d.exactMagnitude = 0 := by
  simp [exactMagnitude, hc, Binary64.nearestMagnitude, roundQuotient]

/-- The exponent of the unit under a name of its own, so that its power is not computed. -/
theorem unitsPerOne_eq : ∃ u, u = 1074 ∧ unitsPerOne = 2 ^ u := by
  obtain ⟨u, hu⟩ : ∃ u, u = 1074 := ⟨_, rfl⟩
  refine ⟨u, hu, ?_⟩
  unfold unitsPerOne
  rw [← hu, Nat.pow_eq]

theorem two_pow_le_ten_pow {k n : Nat} (h : k ≤ 3 * n) : 2 ^ k ≤ 10 ^ n :=
  calc 2 ^ k ≤ 2 ^ (3 * n) := Nat.pow_le_pow_right (by decide) h
    _ = (2 ^ 3) ^ n := pow_mul ..
    _ ≤ 10 ^ n := Nat.pow_le_pow_left (by decide) n

theorem le_nearestMagnitude {num k : Nat} (h : 2 ^ (k + 52) ≤ num) :
    k * 2 ^ 52 ≤ Binary64.nearestMagnitude num 1 := by
  have hpos : 0 < num := Nat.lt_of_lt_of_le (Nat.two_pow_pos _) h
  have hlog := (Nat.le_log2 (Nat.pos_iff_ne_zero.1 hpos)).2 h
  simp only [Binary64.nearestMagnitude, Nat.div_one]
  exact Nat.le_add_right_of_le (Nat.mul_le_mul_right _ (by omega))

/-- Beyond the range of exponents the nearest magnitude is too large. -/
theorem magnitudes_le_exactMagnitude {d : Decimal} (hc : d.coefficient ≠ 0) (he : 400 < d.exponent) :
    magnitudes ≤ d.exactMagnitude := by
  obtain ⟨u, hu, hunits⟩ := unitsPerOne_eq
  obtain ⟨k, hk⟩ : ∃ k, k = 2047 := ⟨_, rfl⟩
  have hmag : magnitudes = k * 2 ^ 52 := by
    rw [hk]
    rfl
  have hden : (-d.exponent).toNat = 0 := by omega
  have hnum : 2 ^ (k + 52) ≤ d.coefficient * unitsPerOne * 10 ^ d.exponent.toNat :=
    calc 2 ^ (k + 52) ≤ 2 ^ (u + 3 * d.exponent.toNat) := Nat.pow_le_pow_right (by decide) (by omega)
      _ = 1 * 2 ^ u * 2 ^ (3 * d.exponent.toNat) := by rw [Nat.one_mul, pow_add]
      _ ≤ d.coefficient * unitsPerOne * 10 ^ d.exponent.toNat := by
        rw [hunits]
        exact Nat.mul_le_mul (Nat.mul_le_mul_right _ (Nat.one_le_iff_ne_zero.2 hc))
          (two_pow_le_ten_pow (Nat.le_refl _))
  rw [hmag, exactMagnitude, hden, pow_zero]
  exact le_nearestMagnitude hnum

theorem nearestMagnitude_eq_zero {num den : Nat} (h : 2 * num < den) :
    Binary64.nearestMagnitude num den = 0 := by
  have hlt : num < den := by omega
  simp only [Binary64.nearestMagnitude, Nat.div_eq_of_lt hlt, Nat.log2_zero, Nat.zero_sub, Nat.zero_mul,
    Nat.pow_eq, pow_zero, Nat.mul_one, Nat.zero_add, roundQuotient, Nat.mod_eq_of_lt hlt, if_pos h]

/-- Below the range of exponents the nearest magnitude is zero. -/
theorem exactMagnitude_eq_zero {d : Decimal} (he : d.exponent + d.coefficient.log2 / 3 + 1 < -400) :
    d.exactMagnitude = 0 := by
  obtain ⟨u, hu, hunits⟩ := unitsPerOne_eq
  have hexp : d.exponent.toNat = 0 := by omega
  have hsmall : 2 * (d.coefficient * 2 ^ u) < 10 ^ (-d.exponent).toNat :=
    calc 2 * (d.coefficient * 2 ^ u) = d.coefficient * 2 ^ (u + 1) := by ring
      _ < 2 ^ (d.coefficient.log2 + 1) * 2 ^ (u + 1) :=
        Nat.mul_lt_mul_of_pos_right Nat.lt_log2_self (Nat.two_pow_pos _)
      _ = 2 ^ (d.coefficient.log2 + 1 + (u + 1)) := (pow_add ..).symm
      _ ≤ 10 ^ (-d.exponent).toNat := two_pow_le_ten_pow (by omega)
  rw [exactMagnitude, hexp, pow_zero, Nat.mul_one, hunits]
  exact nearestMagnitude_eq_zero hsmall

/-- For finite magnitudes the decisions by the exponent alone agree with the computed powers. -/
theorem nearestMagnitude_eq_iff {d : Decimal} {m : Nat} (hm : m < magnitudes) :
    d.nearestMagnitude = m ↔ d.exactMagnitude = m := by
  unfold nearestMagnitude
  split
  · rename_i hc
    rw [exactMagnitude_of_coefficient hc]
  · rename_i hc
    split
    · rename_i he
      have := magnitudes_le_exactMagnitude hc he
      omega
    · split
      · rename_i he
        rw [exactMagnitude_eq_zero he]
      · rfl

theorem exactMagnitude_units (m u : Nat) (hunits : unitsPerOne = 2 ^ u) :
    (⟨units m * 5 ^ u, -u⟩ : Decimal).exactMagnitude = m := by
  have hexp : (-(u : Int)).toNat = 0 := by omega
  have hneg : (- -(u : Int)).toNat = u := by omega
  have hten : 10 ^ u = 5 ^ u * 2 ^ u := by
    rw [← mul_pow]
    norm_num
  simp only [exactMagnitude, hexp, hneg, hunits, hten, pow_zero, Nat.mul_one, Nat.mul_assoc]
  rw [nearestMagnitude_congr (Nat.mul_pos (Nat.pow_pos (by decide)) (Nat.two_pow_pos u)) Nat.one_pos
    (Nat.mul_one _), nearestMagnitude_units]

theorem exactMagnitude_exact (m : Nat) : (exact m).exactMagnitude = m := by
  obtain ⟨u, hu, hunits⟩ := unitsPerOne_eq
  have hexp : (-1074 : Int) = -u := by omega
  unfold exact
  rw [exactMagnitude_strip, ← hu, hexp, Nat.pow_eq]
  exact exactMagnitude_units m u hunits

theorem exactMagnitude_of_withDigits? {m n : Nat} {d : Decimal} (hm : m < magnitudes)
    (h : withDigits? m n = some d) : d.exactMagnitude = m := by
  simp only [withDigits?, neighbour?, Option.map_eq_some_iff] at h
  obtain ⟨c, hc, rfl⟩ := h
  have hpass := List.find?_some hc
  simp only [decide_eq_true_eq] at hpass
  rw [exactMagnitude_strip]
  exact (nearestMagnitude_eq_iff hm).1 hpass

theorem exactMagnitude_shortest {m : Nat} (hm : m < magnitudes) : (shortest m).exactMagnitude = m := by
  unfold shortest
  split
  · rename_i h0
    rw [h0, exactMagnitude_of_coefficient rfl]
  · cases hs : (List.range 17).findSome? fun n => withDigits? m (n + 1) with
    | none => rw [Option.getD_none, exactMagnitude_exact]
    | some d =>
        rw [Option.getD_some]
        obtain ⟨n, -, hn⟩ := List.exists_of_findSome?_eq_some hs
        exact exactMagnitude_of_withDigits? hm hn

/-- A decimal with the value of the shortest one of a magnitude is read back to the magnitude. -/
theorem nearestMagnitude_of_value {m : Nat} {d : Decimal} (hm : m < magnitudes)
    (h : d.value = (shortest m).value) : d.nearestMagnitude = m := by
  rw [nearestMagnitude_eq_iff hm, exactMagnitude_congr h, exactMagnitude_shortest hm]

/-- Only zero has no digits. -/
theorem coefficient_shortest {m : Nat} (hm : m < magnitudes) (h0 : m ≠ 0) :
    (shortest m).coefficient ≠ 0 := by
  intro hc
  rw [← exactMagnitude_shortest hm, exactMagnitude_of_coefficient hc] at h0
  exact h0 rfl

end Decimal
end Pausable.Binary64
