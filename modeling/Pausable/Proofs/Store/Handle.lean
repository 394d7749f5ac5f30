import Mathlib.Tactic.IntervalCases
import Pausable.Proofs.Text.Hex
import Pausable.Proofs.Text.Printable
import Pausable.Store.Handle

/-! Handles come back from their texts. The digits of a handle are those of its bytes, two for each. -/
namespace Pausable

theorem CodePoint.asciiLower_hexDigit {n : Nat} (h : n < 16) : (hexDigit n).asciiLower = hexDigit n := by
  interval_cases n <;> rfl

namespace Handle

theorem length_digits (h : Handle) : h.digits.length = 64 := by
  have hsum (bs : List UInt8) : (bs.flatMap fun b => Text.hex 2 b.toNat).length = 2 * bs.length := by
    induction bs with
    | nil => rfl
    | cons b bs ih =>
        rw [List.flatMap_cons, List.length_append, ih, Text.length_hex, List.length_cons]
        omega
  rw [digits, hsum, Vector.length_toList]

theorem length_folder (h : Handle) : h.folder.length = 2 := by
  rw [folder, List.length_take, length_digits]
  rfl

theorem length_file (h : Handle) : h.file.length = 62 := by
  rw [file, List.length_drop, length_digits]

theorem bytes?_hex (bs : Bytes) : bytes? (bs.flatMap fun b => Text.hex 2 b.toNat) = some bs := by
  induction bs with
  | nil => rfl
  | cons b bs ih =>
      have hb := b.toNat_lt
      have hhigh : b.toNat / 16 < 16 := by omega
      have hlow : b.toNat % 16 < 16 := by omega
      have hhex : Text.hex 2 b.toNat = [CodePoint.hexDigit (b.toNat / 16), CodePoint.hexDigit (b.toNat % 16)] := by
        simp only [Text.hex, List.nil_append, List.singleton_append, Nat.mod_eq_of_lt hhigh]
      rw [List.flatMap_cons, hhex]
      simp only [List.cons_append, List.nil_append, bytes?, CodePoint.asciiLower_hexDigit hhigh,
        CodePoint.asciiLower_hexDigit hlow, ne_eq, not_true_eq_false, or_self, ↓reduceIte,
        CodePoint.hexValue?_hexDigit hhigh, CodePoint.hexValue?_hexDigit hlow, ih, Option.bind_eq_bind,
        Option.bind_some, Option.pure_def, Option.some.injEq, List.cons.injEq, and_true]
      rw [Nat.div_add_mod' b.toNat 16]
      exact UInt8.ofNat_toNat

/-- The handles of different texts are the digests of different bytes. -/
theorem ofSnapshot_of_ne {t u : Text} (ht : t.Printable) (hu : u.Printable) (hne : t ≠ u) :
    ∃ x y, t.toAscii = .ok x ∧ u.toAscii = .ok y ∧ x ≠ y ∧
      ofSnapshot t = .ok ⟨Blake2b.digest x⟩ ∧ ofSnapshot u = .ok ⟨Blake2b.digest y⟩ := by
  refine ⟨_, _, ht.toAscii, hu.toAscii, fun hbytes => ?_, ?_, ?_⟩
  · have hread := ht.decodeAscii
    rw [hbytes, hu.decodeAscii] at hread
    exact hne (Except.ok.inj hread).symm
  · simp only [ofSnapshot, ht.toAscii, Except.map]
  · simp only [ofSnapshot, hu.toAscii, Except.map]

/-- The text of a handle is read as the handle. -/
theorem ofText?_toText (h : Handle) : ofText? h.toText = some h := by
  have hmark : h.toText.take mark.length = mark := List.take_left
  have hdigits : h.toText.drop mark.length = h.digits := List.drop_left
  have hbytes : bytes? h.digits = some h.digest.toList := bytes?_hex _
  obtain ⟨digest⟩ := h
  rw [ofText?, if_neg (not_not_intro hmark), hdigits, hbytes]
  simp [Vector.toList]

end Handle
end Pausable
