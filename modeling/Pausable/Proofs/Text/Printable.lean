import Mathlib.Data.List.TakeWhile
import Pausable.Proofs.Text.Hex
import Pausable.Text.Bytes

/-! The printable code points of ASCII pass through the encodings, and through a file, as they are. -/
namespace Pausable

def CodePoint.Printable (c : CodePoint) : Prop := 0x20 ≤ c.val ∧ c.val ≤ 0x7E

instance : DecidablePred CodePoint.Printable := fun c => inferInstanceAs (Decidable (0x20 ≤ c.val ∧ c.val ≤ 0x7E))

namespace Text

def Printable (t : Text) : Prop := ∀ c ∈ t, c.Printable

instance : DecidablePred Printable := fun t => inferInstanceAs (Decidable (∀ c ∈ t, c.Printable))

theorem Printable.append {t u : Text} (ht : t.Printable) (hu : u.Printable) : Printable (t ++ u) :=
  List.forall_mem_append.2 ⟨ht, hu⟩

/-! ## Encodings -/

theorem firstRun?_eq_none_iff {encoding reason : String} {bad p : CodePoint → Bool} {t : Text} :
    firstRun? encoding reason bad p t = none ↔ ∀ c ∈ t, bad c = false := by
  have htake : (t.takeWhile fun c => !bad c) = t ↔ ∀ c ∈ t, bad c = false := by
    simp only [List.takeWhile_eq_self_iff, Bool.not_eq_true']
  rw [← htake]
  constructor
  · intro h
    simp only [firstRun?] at h
    split at h
    · rename_i hdrop
      exact (List.takeWhile_prefix _).eq_of_length_le (List.drop_eq_nil_iff.1 hdrop)
    · cases h
  · intro h
    simp only [firstRun?, h, List.drop_length]

variable {t : Text}

theorem toUtf8_of_scalar (h : ∀ c ∈ t, c.isSurrogate = false) : t.toUtf8 = .ok (t.flatMap utf8Bytes) := by
  rw [toUtf8, surrogates?, firstRun?_eq_none_iff.2 h]

theorem scalar_of_toUtf8 {bytes : Bytes} (h : t.toUtf8 = .ok bytes) : ∀ c ∈ t, c.isSurrogate = false := by
  rw [toUtf8, surrogates?] at h
  split at h
  · cases h
  · rename_i hnone
    exact firstRun?_eq_none_iff.1 hnone

theorem Printable.toAscii (h : t.Printable) : t.toAscii = .ok (t.map fun c => c.val.toUInt8) := by
  have hascii : ∀ c ∈ t, (!c.isAscii) = false := by
    intro c hc
    have := h c hc
    simp only [CodePoint.Printable] at this
    simp only [CodePoint.isAscii, Bool.not_eq_false', decide_eq_true_eq]
    omega
  simp only [Text.toAscii, firstRun?_eq_none_iff.2 hascii]

theorem Printable.decodeAscii (h : t.Printable) : Bytes.decodeAscii (t.map fun c => c.val.toUInt8) = .ok t := by
  have hbyte : ∀ c ∈ t, c.val.toUInt8.toNat = c.val := by
    intro c hc
    have := (h c hc).2
    rw [UInt8.toNat_ofNat']
    omega
  have hgood : (t.map fun c => c.val.toUInt8).takeWhile (· < 0x80) = t.map fun c => c.val.toUInt8 := by
    refine List.takeWhile_eq_self_iff.2 fun b hb => ?_
    obtain ⟨c, hc, rfl⟩ := List.mem_map.1 hb
    have := (h c hc).2
    rw [decide_eq_true_eq, UInt8.lt_iff_toNat_lt, hbyte c hc]
    exact Nat.lt_of_le_of_lt this (by decide)
  have hback : (t.map fun c => c.val.toUInt8).map (fun b => CodePoint.ofNat b.toNat) = t := by
    rw [List.map_map]
    conv_rhs => rw [← List.map_id t]
    refine List.map_congr_left fun c hc => ?_
    rw [Function.comp_apply, hbyte c hc, CodePoint.ofNat_val]
    rfl
  simp only [Bytes.decodeAscii, hgood, List.drop_length, hback]

theorem Printable.unifyLineEnds (h : t.Printable) : t.unifyLineEnds = t := by
  have hne {c : CodePoint} (hc : c.Printable) : c ≠ '\r' := by
    rintro rfl
    exact absurd hc (by decide)
  induction t using Text.unifyLineEnds.induct with
  | case1 => rfl
  | case2 | case3 | case5 => exact (hne (h _ (List.mem_cons_self ..)) rfl).elim
  | case4 c d t hc ih => rw [Text.unifyLineEnds, if_neg hc, ih fun e he => h e (List.mem_cons_of_mem c he)]
  | case6 c hc => rw [Text.unifyLineEnds, if_neg hc]

end Text
end Pausable
