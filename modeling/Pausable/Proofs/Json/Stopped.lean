import Pausable.Json.Reader
import Pausable.Proofs.Number.Spelled
import Pausable.Proofs.Result

/-!
What stops the reader of JSON text. Each reader goes on within the text that is left, so an integer with too many
digits is a run of digits that stands in the text (`read_numeralTooLong`).
-/
namespace Pausable

open Numeral (Digits)

theorem Cursor.skip_suffix (c : Cursor) (n : Nat) : (c.skip n).rest <:+ c.rest := List.drop_suffix n c.rest

namespace WrittenNumber

/-- Parts that are spelled give a number, or they are an integer with too many digits. -/
theorem Spelled.toNumber?_eq_none {w : WrittenNumber} (h : w.Spelled) (hn : w.toNumber? = none) :
    Numeral.maxDigits < w.whole.length := by
  rw [toNumber?] at hn
  split at hn
  · have hwhole : Numeral.bounded? w.whole = none :=
      Option.eq_none_iff_forall_ne_some.2 (by simpa [toInt?] using hn)
    rw [Numeral.bounded?] at hwhole
    split at hwhole
    · rename_i hlong
      have hne : w.whole.isEmpty = false := List.isEmpty_eq_false_iff.2 h.whole_ne_nil
      rw [hne, Bool.false_or] at hlong
      exact of_decide_eq_true hlong
    · cases (Numeral.value?_eq h.whole).symm.trans hwhole
  · have hexponent : ∃ e, exponentValue? w.exponent = some e := by
      cases he : w.exponent with
      | none => exact ⟨0, rfl⟩
      | some e => exact ⟨_, exponentValue?_digits (h.exponent e.1 e.2 he).1 (h.exponent e.1 e.2 he).2⟩
    obtain ⟨e, he⟩ := hexponent
    rw [toFloat?, h.decimal?_eq he] at hn
    cases hn

end WrittenNumber

namespace Json

variable {β γ : Type} {c a : Cursor}

/-- So many digits stand side by side in the text, and they are too many. -/
def LongRun (t : Text) (n : Nat) : Prop :=
  Numeral.maxDigits < n ∧ ∃ run, run <:+: t ∧ run.length = n ∧ Digits run

/-- A reader at a cursor goes on from there, finds a problem, or is stopped by digits. -/
inductive Reads (c : Cursor) : Reading β → Prop where
  | ok (b : β) {a : Cursor} : a.rest <:+ c.rest → Reads c (.ok (b, a))
  | problem (p : Problem) (k : Nat) : Reads c (.error (.problem p k))
  | stopped {n : Nat} : LongRun c.rest n → Reads c (.error (.numeralTooLong n))

namespace Reads

theorem suffix {b : β} (h : Reads c (.ok (b, a))) : a.rest <:+ c.rest := by
  cases h with
  | ok _ ha => exact ha

theorem mono {r : Reading β} (h : Reads a r) (ha : a.rest <:+ c.rest) : Reads c r := by
  cases h with
  | ok b hb => exact .ok b (hb.trans ha)
  | problem p k => exact .problem p k
  | stopped hn =>
      obtain ⟨hlong, run, hrun, hdigits⟩ := hn
      exact .stopped ⟨hlong, run, hrun.trans ha.isInfix, hdigits⟩

theorem error {e : Refusal} (h : Reads c (.error e : Reading β)) : Reads c (.error e : Reading γ) := by
  cases h with
  | problem p k => exact .problem p k
  | stopped hn => exact .stopped hn

theorem map {r : Reading β} (h : Reads c r) (f : β → γ) : Reads c (r.map fun r => (f r.1, r.2)) := by
  cases h with
  | ok b hb => exact .ok (f b) hb
  | problem p k => exact .problem p k
  | stopped hn => exact .stopped hn

end Reads

/-! ## Tokens -/

theorem skipBlanks_suffix (c : Cursor) : (skipBlanks c).rest <:+ c.rest := c.skip_suffix _

theorem reads_readUnicode (c : Cursor) : Reads c (readUnicode c) := by
  have hafter := c.skip_suffix 5
  have hpair := ((c.skip 5).skip_suffix 6).trans hafter
  simp only [readUnicode]
  split
  · exact .problem ..
  · split
    · exact .problem ..
    · split
      · split
        · exact .problem ..
        · split
          · exact .ok _ hpair
          · exact .ok _ hafter
      · exact .ok _ hafter

theorem reads_readEscape (start : Nat) (c : Cursor) : Reads c (readEscape start c) := by
  rw [readEscape]
  split
  · exact .problem ..
  · split
    · exact reads_readUnicode c
    · split
      · exact .ok _ (c.skip_suffix 1)
      · exact .problem ..

theorem reads_readQuoted (start : Nat) (c : Cursor) (out : Text) : Reads c (readQuoted start c out) := by
  fun_induction readQuoted start c out with
  | case1 | case5 => exact .problem ..
  | case2 c out => exact .ok _ (c.skip_suffix 1)
  | case3 c out r e he =>
      have hescape := reads_readEscape start (c.skip 1)
      rw [he] at hescape
      exact (hescape.mono (c.skip_suffix 1)).error
  | case4 c out r m after he =>
      rename_i ih
      have hescape := reads_readEscape start (c.skip 1)
      rw [he] at hescape
      exact ih.mono (hescape.suffix.trans (c.skip_suffix 1))
  | case6 c out d r hc =>
      rename_i ih
      exact ih.mono (c.skip_suffix 1)

theorem reads_readString (c : Cursor) : Reads c (readString c) :=
  (reads_readQuoted c.position (c.skip 1) []).mono (c.skip_suffix 1)

/-! ## Numbers -/

theorem takeMinus_suffix (c : Cursor) : c.takeMinus.2.rest <:+ c.rest := by
  rw [Cursor.takeMinus]
  split
  · exact c.skip_suffix 1
  · exact List.suffix_refl _

theorem takeWhole_suffix (c : Cursor) : (takeWhole c).2.rest <:+ c.rest := by
  rw [takeWhole]
  split
  · exact c.skip_suffix 1
  · exact c.skip_suffix _

theorem takeFraction_suffix (c : Cursor) : (takeFraction c).2.rest <:+ c.rest := by
  rw [takeFraction]
  split
  · exact ((c.skip 1).skip_suffix _).trans (c.skip_suffix 1)
  · exact List.suffix_refl _

theorem takeExponent_suffix (c : Cursor) : (takeExponent c).2.rest <:+ c.rest := by
  have hsigned := c.skip_suffix 1
  have hunsigned := ((c.skip 1).skip_suffix 1).trans hsigned
  simp only [takeExponent]
  split
  · split <;> split
    · exact List.suffix_refl _
    · exact (((c.skip 1).skip 1).skip_suffix _).trans hunsigned
    · exact List.suffix_refl _
    · exact ((c.skip 1).skip_suffix _).trans hsigned
  · exact List.suffix_refl _

/-- The digits before the point stand at the cursor. -/
theorem takeWhole_cut (c : Cursor) : (takeWhole c).1 <+: c.rest ∧ Digits (takeWhole c).1 ∧
    ((takeWhole c).1 ≠ [] → (takeWhole c).1 = "0" ∨ Numeral.Leading (takeWhole c).1) := by
  obtain ⟨hcut, hrun, -⟩ := Cursor.takeRun_sound CodePoint.isAsciiDigit c
  rw [takeWhole]
  split
  · rename_i hzero
    obtain ⟨d, r, hdr⟩ := List.exists_cons_of_ne_nil (Cursor.ne_nil_of_next hzero)
    have hd : d = '0' := by simpa [Cursor.next, hdr] using hzero
    rw [hdr, hd]
    exact ⟨⟨r, rfl⟩, List.forall_mem_singleton.2 rfl, fun _ => .inl rfl⟩
  · rename_i hzero
    refine ⟨⟨_, hcut.symm⟩, hrun, fun hne => .inr ?_⟩
    obtain ⟨d, r, hdr⟩ := List.exists_cons_of_ne_nil hne
    refine ⟨d, r, hdr, fun hd => hzero ?_⟩
    obtain ⟨d, hlt⟩ := d
    cases hd
    rw [Cursor.next, hcut, hdr]
    rfl

theorem takeFraction_digits (c : Cursor) {t : Text} (h : (takeFraction c).1 = some t) : t ≠ [] ∧ Digits t := by
  rw [takeFraction] at h
  split at h
  · rename_i hnext
    cases h
    exact ⟨Cursor.takeRun_ne_nil hnext.2, (Cursor.takeRun_sound _ _).2.1⟩
  · cases h

theorem takeExponent_digits (c : Cursor) {negative : Bool} {t : Text}
    (h : (takeExponent c).1 = some (negative, t)) : t ≠ [] ∧ Digits t := by
  simp only [takeExponent] at h
  split at h
  · generalize hcut : Cursor.takeRun _ CodePoint.isAsciiDigit = cut at h
    have hdigits : Digits cut.1 := hcut ▸ (Cursor.takeRun_sound _ _).2.1
    split at h
    · cases h
    · rename_i hne
      cases h
      exact ⟨fun hnil => hne (List.isEmpty_iff.2 hnil), hdigits⟩
  · cases h

theorem spelled_takeNumber (h : (takeNumber c).1.whole.isEmpty = false) : (takeNumber c).1.Spelled := by
  obtain ⟨-, hdigits, hstarts⟩ := takeWhole_cut c.takeMinus.2
  refine ⟨hdigits, hstarts (List.isEmpty_eq_false_iff.1 h), fun t ht => ?_, fun negative t ht => ?_⟩
  · exact takeFraction_digits _ ht
  · exact takeExponent_digits _ ht

theorem reads_readNumber (c : Cursor) : Reads c (readNumber c) := by
  simp only [readNumber]
  split
  · exact .problem ..
  · rename_i hwhole
    have hwhole : (takeNumber c).1.whole.isEmpty = false := by simpa using hwhole
    split
    · exact .ok _ ((takeExponent_suffix _).trans ((takeFraction_suffix _).trans
        ((takeWhole_suffix _).trans (takeMinus_suffix c))))
    · rename_i hnone
      have hspelled := spelled_takeNumber hwhole
      have hrun : (takeNumber c).1.whole <:+: c.rest :=
        (takeWhole_cut c.takeMinus.2).1.isInfix.trans (takeMinus_suffix c).isInfix
      exact .stopped ⟨hspelled.toNumber?_eq_none hnone, _, hrun, rfl, hspelled.whole⟩

/-! ## Values -/

theorem constant?_suffix {v : Value} (h : constant? c = some (v, a)) : a.rest <:+ c.rest := by
  obtain ⟨k, -, hk⟩ := List.exists_of_findSome?_eq_some h
  split at hk
  · cases hk
    exact c.skip_suffix _
  · cases hk

theorem reads_readScalar (c : Cursor) : Reads c (readScalar c) := by
  rw [readScalar]
  split
  · exact (reads_readString c).map Value.text
  · split
    · rename_i r hr
      exact .ok r.1 (constant?_suffix hr)
    · exact (reads_readNumber c).map Value.number

theorem reads_readName (c : Cursor) : Reads c (readName c) := by
  rw [readName]
  split
  · have hstring := reads_readString c
    split
    · rename_i e he
      rw [he] at hstring
      exact hstring
    · rename_i name after hname
      rw [hname] at hstring
      have hafter := (skipBlanks_suffix after).trans hstring.suffix
      simp only
      split
      · exact .ok _ ((skipBlanks_suffix _).trans (((skipBlanks after).skip_suffix 1).trans hafter))
      · exact .problem ..
  · exact .problem ..

theorem reads_readOpening (c : Cursor) : Reads c (readOpening c) := by
  have hinside := (skipBlanks_suffix (c.skip 1)).trans (c.skip_suffix 1)
  have hclosed := ((skipBlanks (c.skip 1)).skip_suffix 1).trans hinside
  simp only [readOpening]
  split
  · split
    · exact .ok _ hclosed
    · exact .ok _ hinside
  · split
    · split
      · exact .ok _ hclosed
      · exact ((reads_readName _).mono hinside).map fun name => Opening.container (.record [] name)
    · exact (reads_readScalar c).map Opening.value

theorem reads_proceed (c : Cursor) (k : Container) : Reads c (proceed c k) := by
  cases k with
  | list items => exact .ok _ (List.suffix_refl _)
  | record fields key => exact (reads_readName c).map (Container.record fields)

theorem reads_readOpen (task : Task) (stack : List Container) (c : Cursor) : Reads c (readOpen task stack c) := by
  fun_induction readOpen task stack c with
  | case1 stack c e ho =>
      have hopening := reads_readOpening c
      rw [ho] at hopening
      exact hopening.error
  | case2 stack c v after ho ih | case3 stack c k after ho ih =>
      have hopening := reads_readOpening c
      rw [ho] at hopening
      exact ih.mono hopening.suffix
  | case4 c v => exact .ok _ (List.suffix_refl _)
  | case5 | case9 => exact .problem ..
  | case6 c v k below k' rest hc =>
      rename_i ih
      exact ih.mono (((skipBlanks c).skip_suffix 1).trans (skipBlanks_suffix c))
  | case7 c v k below k' rest e hp =>
      have hcomma := (skipBlanks_suffix _).trans (((skipBlanks c).skip_suffix 1).trans (skipBlanks_suffix c))
      have hproceed := reads_proceed (skipBlanks ((skipBlanks c).skip 1)) k'
      rw [hp] at hproceed
      exact (hproceed.mono hcomma).error
  | case8 c v k below k' rest k'' after hp =>
      rename_i ih
      have hcomma := (skipBlanks_suffix _).trans (((skipBlanks c).skip_suffix 1).trans (skipBlanks_suffix c))
      have hproceed := reads_proceed (skipBlanks ((skipBlanks c).skip 1)) k'
      rw [hp] at hproceed
      exact ih.mono (hproceed.suffix.trans hcomma)

/-- An integer that stops the reader is a run of so many digits in the text. -/
theorem read_numeralTooLong {t : Text} {n : Nat} (h : read t = .error (.numeralTooLong n)) : LongRun t n := by
  rw [read] at h
  obtain ⟨e, hread, he⟩ := error_of_mapError h
  have he : e = .numeralTooLong n := by
    cases e with
    | problem => cases he
    | numeralTooLong => cases he; rfl
  rw [he, readAll] at hread
  split at hread
  · cases hread
  · have hopen := (reads_readOpen .seek [] (skipBlanks (Cursor.start t))).mono (skipBlanks_suffix _)
    split at hread
    · rename_i e he
      cases hread
      rw [he] at hopen
      cases hopen with
      | stopped hrun => exact hrun
    · simp only at hread
      split at hread <;> cases hread

end Json
end Pausable
