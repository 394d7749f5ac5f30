import Mathlib.Tactic.Ring
import Pausable.Number

/-!
The numeral of a natural number consists of digits of ASCII, has the number as its value, and is as long
as the number is large.
-/
namespace Pausable

theorem CodePoint.isAsciiDigit_iff {c : CodePoint} :
    c.isAsciiDigit = true ↔ 0x30 ≤ c.val ∧ c.val ≤ 0x39 := by
  simp [isAsciiDigit]

namespace Numeral

/-- Digits of ASCII and nothing else. -/
def Digits (t : Text) : Prop := ∀ c ∈ t, c.isAsciiDigit = true

/-- The value of a row of digits of ASCII. -/
def valueOf (t : Text) : Nat := t.foldl (fun acc c => acc * 10 + (c.val - 0x30)) 0

/-- The first digit is not zero. -/
def Leading (t : Text) : Prop := ∃ c u, t = c :: u ∧ c.val ≠ 0x30

theorem Leading.append {t : Text} (h : Leading t) (u : Text) : Leading (t ++ u) := by
  obtain ⟨c, v, rfl, hc⟩ := h
  exact ⟨c, v ++ u, List.cons_append, hc⟩

theorem Leading.take {t : Text} (h : Leading t) {k : Nat} (hk : 0 < k) : Leading (t.take k) := by
  obtain ⟨c, v, rfl, hc⟩ := h
  obtain ⟨j, rfl⟩ := Nat.exists_eq_succ_of_ne_zero (Nat.pos_iff_ne_zero.1 hk)
  exact ⟨c, v.take j, List.take_succ_cons, hc⟩

theorem Leading.ne_nil {t : Text} (h : Leading t) : t ≠ [] := by
  obtain ⟨c, v, rfl, -⟩ := h
  exact nofun

theorem Digits.nil : Digits [] := nofun

theorem Digits.append {t u : Text} (ht : Digits t) (hu : Digits u) : Digits (t ++ u) := by
  intro c hc
  rcases List.mem_append.1 hc with hc | hc
  · exact ht c hc
  · exact hu c hc

theorem Digits.take {t : Text} (h : Digits t) (n : Nat) : Digits (t.take n) :=
  fun c hc => h c (List.mem_of_mem_take hc)

theorem Digits.drop {t : Text} (h : Digits t) (n : Nat) : Digits (t.drop n) :=
  fun c hc => h c (List.mem_of_mem_drop hc)

theorem digits_zeros (n : Nat) : Digits (Binary64.zeros n) := by
  intro c hc
  rw [List.eq_of_mem_replicate hc]
  rfl

theorem digitValue?_of_isAsciiDigit {c : CodePoint} (h : c.isAsciiDigit = true) :
    c.digitValue? = some (c.val - 0x30) := by
  have hascii : c.isAscii = true := by
    have := CodePoint.isAsciiDigit_iff.1 h
    simp only [CodePoint.isAscii, decide_eq_true_eq]
    omega
  simp only [CodePoint.digitValue?, hascii, h, ↓reduceIte]

theorem digitValue?_lt {c : CodePoint} {d : Nat} (h : c.digitValue? = some d) : d < 10 := by
  rw [CodePoint.digitValue?] at h
  split at h
  · split at h
    · rename_i hdigit
      cases h
      have := CodePoint.isAsciiDigit_iff.1 hdigit
      omega
    · cases h
  · obtain ⟨z, hz, rfl⟩ := Option.map_eq_some_iff.1 h
    have hrange := List.find?_some hz
    simp only [Bool.and_eq_true, decide_eq_true_eq] at hrange
    omega

/-- A numeral with `k` digits, of any script, is of a number below ten to the `k`. -/
theorem value?_lt {t : Text} {n : Nat} (h : value? t = some n) : n < 10 ^ t.length := by
  have hfold (acc : Nat) (h : t.foldlM (fun acc c => c.digitValue?.map (acc * 10 + ·)) acc = some n) :
      n < (acc + 1) * 10 ^ t.length := by
    clear * - h
    induction t generalizing acc with
    | nil =>
        cases h
        simp
    | cons c t ih =>
        rw [List.foldlM_cons] at h
        obtain ⟨acc', hacc, ht⟩ := Option.bind_eq_some_iff.1 h
        obtain ⟨d, hd, rfl⟩ := Option.map_eq_some_iff.1 hacc
        have hlt := digitValue?_lt hd
        calc n < (acc * 10 + d + 1) * 10 ^ t.length := ih _ ht
          _ ≤ (acc + 1) * 10 * 10 ^ t.length := Nat.mul_le_mul_right _ (by omega)
          _ = (acc + 1) * 10 ^ (c :: t).length := by rw [List.length_cons, pow_succ]; ring
  simpa using hfold 0 h

theorem value?_lt_of_length {t : Text} {n k : Nat} (h : value? t = some n) (hk : t.length ≤ k) : n < Nat.pow 10 k :=
  Nat.lt_of_lt_of_le (value?_lt h) (Nat.pow_le_pow_right (by decide) hk)

theorem bounded?_lt {t : Text} {n : Nat} (h : bounded? t = some n) : n < bound := by
  rw [bounded?] at h
  split at h
  · cases h
  · rename_i hlength
    rw [Bool.or_eq_true, not_or, decide_eq_true_eq] at hlength
    unfold bound
    exact value?_lt_of_length (k := maxDigits) h (Nat.le_of_not_lt hlength.2)

theorem value?_eq {t : Text} (h : Digits t) : value? t = some (valueOf t) := by
  unfold value? valueOf
  generalize 0 = acc
  induction t generalizing acc with
  | nil => rfl
  | cons c t ih =>
      have hc := digitValue?_of_isAsciiDigit (h c (List.mem_cons_self ..))
      have ht : Digits t := fun d hd => h d (List.mem_cons_of_mem c hd)
      simp only [List.foldlM_cons, List.foldl_cons, hc, Option.map_some]
      exact ih ht _

theorem isDigit_of_isAsciiDigit {c : CodePoint} (h : c.isAsciiDigit = true) : c.isDigit = true := by
  rw [CodePoint.isDigit, digitValue?_of_isAsciiDigit h]
  rfl

theorem ofInt?_of_lt {n : Int} (h : n.natAbs < bound) : ofInt? n = some (ofInt n) := by
  rw [ofInt?, if_pos h]

theorem foldl_valueOf (t : Text) (acc : Nat) :
    t.foldl (fun acc c => acc * 10 + (c.val - 0x30)) acc = acc * 10 ^ t.length + valueOf t := by
  unfold valueOf
  induction t generalizing acc with
  | nil => simp
  | cons c t ih =>
      rw [List.foldl_cons, List.foldl_cons, ih, ih (0 * 10 + _), List.length_cons, pow_succ]
      ring

theorem valueOf_append (t u : Text) : valueOf (t ++ u) = valueOf t * 10 ^ u.length + valueOf u := by
  rw [valueOf, List.foldl_append, foldl_valueOf u]
  rfl

theorem valueOf_zeros (n : Nat) : valueOf (Binary64.zeros n) = 0 := by
  induction n with
  | zero => rfl
  | succ n ih =>
      have h : Binary64.zeros (n + 1) = Binary64.zeros 1 ++ Binary64.zeros n := rfl
      rw [h, valueOf_append, ih]
      exact Nat.zero_mul _

theorem valueOf_zeros_append (n : Nat) (t : Text) : valueOf (Binary64.zeros n ++ t) = valueOf t := by
  rw [valueOf_append, valueOf_zeros, Nat.zero_mul, Nat.zero_add]

theorem length_zeros (n : Nat) : (Binary64.zeros n).length = n := List.length_replicate

theorem prepend_append (n : Nat) (t rest : Text) : prepend n (t ++ rest) = prepend n t ++ rest := by
  induction n using Nat.strongRecOn generalizing t with
  | ind n ih =>
      rw [prepend.eq_def n (t ++ rest), prepend.eq_def n t]
      by_cases h : n < 10
      · rw [if_pos h, if_pos h, List.cons_append]
      · rw [if_neg h, if_neg h, ← ih (n / 10) (by omega), List.cons_append]

theorem prepend_eq (n : Nat) (rest : Text) : prepend n rest = ofNat n ++ rest :=
  prepend_append n [] rest

/-- The numeral of a number below ten is its digit. -/
theorem ofNat_of_lt {n : Nat} (h : n < 10) : ofNat n = [digit n] := by
  rw [ofNat, prepend, if_pos h]

/-- The last digit stands behind the numeral of the tenth part. -/
theorem ofNat_of_le {n : Nat} (h : 10 ≤ n) : ofNat n = ofNat (n / 10) ++ [digit n] := by
  rw [ofNat, prepend, if_neg (Nat.not_lt.2 h), prepend_eq]

theorem isAsciiDigit_digit (n : Nat) : (digit n).isAsciiDigit = true := by
  have h : (digit n).val = 0x30 + n % 10 := rfl
  rw [CodePoint.isAsciiDigit_iff, h]
  omega

theorem valueOf_digit (n : Nat) : valueOf [digit n] = n % 10 := by
  simp [valueOf, digit]

theorem digits_ofNat (n : Nat) : Digits (ofNat n) := by
  induction n using Nat.strongRecOn with
  | ind n ih =>
      have hd : Digits [digit n] := by
        intro c hc
        rw [List.mem_singleton.1 hc]
        exact isAsciiDigit_digit n
      by_cases h : n < 10
      · rw [ofNat_of_lt h]
        exact hd
      · rw [ofNat_of_le (Nat.le_of_not_lt h)]
        exact (ih (n / 10) (by omega)).append hd

theorem valueOf_ofNat (n : Nat) : valueOf (ofNat n) = n := by
  induction n using Nat.strongRecOn with
  | ind n ih =>
      by_cases h : n < 10
      · rw [ofNat_of_lt h, valueOf_digit, Nat.mod_eq_of_lt h]
      · rw [ofNat_of_le (Nat.le_of_not_lt h), valueOf_append, valueOf_digit, ih (n / 10) (by omega),
          List.length_singleton, pow_one]
        omega

theorem value?_ofNat (n : Nat) : value? (ofNat n) = some n := by
  rw [value?_eq (digits_ofNat n), valueOf_ofNat]

theorem ofNat_ne_nil (n : Nat) : ofNat n ≠ [] := by
  by_cases h : n < 10
  · simp [ofNat_of_lt h]
  · simp [ofNat_of_le (Nat.le_of_not_lt h)]

/-- The numeral of a positive number does not begin with zero. -/
theorem leading_ofNat {n : Nat} (hn : 0 < n) : Leading (ofNat n) := by
  induction n using Nat.strongRecOn with
  | ind n ih =>
      by_cases h : n < 10
      · refine ⟨digit n, [], ofNat_of_lt h, ?_⟩
        simp only [digit]
        omega
      · rw [ofNat_of_le (Nat.le_of_not_lt h)]
        exact (ih (n / 10) (by omega) (by omega)).append _

theorem length_ofNat_le {n k : Nat} (hk : 0 < k) (h : n < Nat.pow 10 k) : (ofNat n).length ≤ k := by
  rw [Nat.pow_eq] at h
  induction k generalizing n with
  | zero => omega
  | succ k ih =>
      by_cases hn : n < 10
      · simp [ofNat_of_lt hn]
      · have hk : 0 < k := by
          rcases Nat.eq_zero_or_pos k with rfl | hk
          · simp only [Nat.zero_add, pow_one] at h
            omega
          · exact hk
        have := ih hk (Nat.div_lt_of_lt_mul (by rwa [Nat.mul_comm, ← pow_succ]))
        simp only [ofNat_of_le (Nat.le_of_not_lt hn), List.length_append, List.length_singleton]
        omega

/-- A number that is not too large is read from its numeral. -/
theorem bounded?_ofNat {n : Nat} (h : n < bound) : bounded? (ofNat n) = some n := by
  have hlen : (ofNat n).length ≤ maxDigits := by
    unfold bound at h
    exact length_ofNat_le (by decide) h
  have hne : (ofNat n).isEmpty = false := by
    rw [List.isEmpty_eq_false_iff]
    exact ofNat_ne_nil n
  have hif : ((ofNat n).isEmpty || decide (maxDigits < (ofNat n).length)) = false := by
    rw [hne, Bool.false_or, decide_eq_false_iff_not]
    omega
  rw [bounded?, if_neg (by rw [hif]; exact nofun), value?_ofNat]

end Numeral
end Pausable
