import Mathlib.Data.List.Chain
import Pausable.Text

/-!
Texts in which surrogates stand by themselves. A text that is written with an escape for each code point says the
same with a first surrogate and a second one behind it as with the code point that they stand for
(`Text.flatMap_paired`), so whoever reads it takes them for one.
-/
namespace Pausable

namespace CodePoint

theorem isHigh_iff {n : Nat} : isHigh n = true ↔ 0xD800 ≤ n ∧ n ≤ 0xDBFF := by
  simp [isHigh]

theorem isLow_iff {n : Nat} : isLow n = true ↔ 0xDC00 ≤ n ∧ n ≤ 0xDFFF := by
  simp [isLow]

theorem not_isHigh_of_isLow {n : Nat} (h : isLow n = true) : ¬ isHigh n = true := by
  rw [isHigh_iff]
  have := isLow_iff.1 h
  omega

theorem val_ofPair {high low : Nat} (hhigh : isHigh high = true) (hlow : isLow low = true) :
    (ofPair high low).val = 0x10000 + (high - 0xD800) * 0x400 + (low - 0xDC00) := by
  have := isHigh_iff.1 hhigh
  have := isLow_iff.1 hlow
  rw [ofPair, ofNat, ofNat?, dif_pos (by omega)]
  rfl

/-- The two surrogates are those that a code point above 16 bits is written with. -/
theorem halves_ofPair {high low : Nat} (hhigh : isHigh high = true) (hlow : isLow low = true) :
    0x10000 ≤ (ofPair high low).val ∧ 0xD800 + ((ofPair high low).val - 0x10000) / 0x400 = high ∧
      0xDC00 + ((ofPair high low).val - 0x10000) % 0x400 = low := by
  have := isHigh_iff.1 hhigh
  have := isLow_iff.1 hlow
  rw [val_ofPair hhigh hlow]
  omega

end CodePoint

namespace Text

/-- A pair is escaped as its two surrogates are. -/
theorem unitEscapes_ofPair {c d : CodePoint} (hc : CodePoint.isHigh c.val = true) (hd : CodePoint.isLow d.val = true) :
    unitEscapes (CodePoint.ofPair c.val d.val) = unitEscapes c ++ unitEscapes d := by
  obtain ⟨hlarge, hfirst, hsecond⟩ := CodePoint.halves_ofPair hc hd
  have hhigh := CodePoint.isHigh_iff.1 hc
  have hlow := CodePoint.isLow_iff.1 hd
  rw [unitEscapes, if_neg (by omega), hfirst, hsecond, unitEscapes, if_pos (by omega), unitEscapes, if_pos (by omega)]

/-- No second surrogate stands directly behind a first one. -/
def Unpaired (t : Text) : Prop :=
  t.IsChain fun c d => CodePoint.isHigh c.val = true → ¬ CodePoint.isLow d.val = true

instance : DecidablePred Unpaired := fun t => inferInstanceAs (Decidable (t.IsChain _))

/-- The text with the code points that pairs of surrogates stand for in the place of the pairs. -/
def paired : Text → Text
  | [] => []
  | [c] => [c]
  | c :: d :: t =>
    if CodePoint.isHigh c.val ∧ CodePoint.isLow d.val then CodePoint.ofPair c.val d.val :: paired t
    else c :: paired (d :: t)

/-- The first code point is kept, or it becomes one above 16 bits. -/
theorem head?_paired {t : Text} {c : CodePoint} (h : c ∈ (paired t).head?) : c ∈ t.head? ∨ 0x10000 ≤ c.val := by
  fun_induction paired t with
  | case1 => exact .inl h
  | case2 => exact .inl h
  | case3 d e u hpair =>
      obtain rfl := Option.some.inj h
      exact .inr (CodePoint.halves_ofPair hpair.1 hpair.2).1
  | case4 d e u hpair => exact .inl h

theorem unpaired_paired (t : Text) : (paired t).Unpaired := by
  fun_induction paired t with
  | case1 => exact .nil
  | case2 c => exact .singleton c
  | case3 c d t hpair ih =>
      refine List.isChain_cons.2 ⟨fun e _ hhigh => ?_, ih⟩
      have := (CodePoint.halves_ofPair hpair.1 hpair.2).1
      have := CodePoint.isHigh_iff.1 hhigh
      omega
  | case4 c d t hpair ih =>
      refine List.isChain_cons.2 ⟨fun e he hhigh hlow => ?_, ih⟩
      rcases head?_paired he with he | hlarge
      · cases he
        exact hpair ⟨hhigh, hlow⟩
      · have := CodePoint.isLow_iff.1 hlow
        omega

theorem paired_of_unpaired {t : Text} (h : t.Unpaired) : paired t = t := by
  fun_induction paired t with
  | case1 => rfl
  | case2 => rfl
  | case3 c d t hpair => exact absurd hpair.2 ((List.isChain_cons_cons.1 h).1 hpair.1)
  | case4 c d t hpair ih => rw [ih h.tail]

@[simp] theorem paired_paired (t : Text) : paired (paired t) = paired t :=
  paired_of_unpaired (unpaired_paired t)

/-- Where two surrogates are written like the code point that they stand for, pairs make no difference. -/
theorem flatMap_paired {f : CodePoint → Text} (hf : ∀ c d : CodePoint, CodePoint.isHigh c.val = true →
    CodePoint.isLow d.val = true → f (.ofPair c.val d.val) = f c ++ f d) (t : Text) :
    (paired t).flatMap f = t.flatMap f := by
  fun_induction paired t with
  | case1 => rfl
  | case2 => rfl
  | case3 c d t hpair ih =>
      rw [List.flatMap_cons, List.flatMap_cons, List.flatMap_cons, ih, hf c d hpair.1 hpair.2, List.append_assoc]
  | case4 c d t hpair ih => rw [List.flatMap_cons, List.flatMap_cons, ih]

/-- A pair shows: the code point that it stands for lies above 16 bits. -/
theorem eq_of_paired {t s : Text} (h : paired t = s) (hs : ∀ c ∈ s, c.val < 0x10000) : t = s := by
  subst h
  fun_induction paired t with
  | case1 => rfl
  | case2 => rfl
  | case3 c d t hpair =>
      have := (List.forall_mem_cons.1 hs).1
      have := (CodePoint.halves_ofPair hpair.1 hpair.2).1
      omega
  | case4 c d t hpair ih => rw [← ih (List.forall_mem_cons.1 hs).2]

end Text
end Pausable
