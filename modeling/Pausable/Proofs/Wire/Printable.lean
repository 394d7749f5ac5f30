import Pausable.Proofs.Text.Printable
import Pausable.Proofs.Wire.Lexemes
import Pausable.Proofs.Wire.Reads

/-! Whatever the texts of a value hold, its snapshot text is printable (`printable_write`). -/
namespace Pausable

namespace CodePoint

theorem printable_of_isKeyStart {c : CodePoint} (h : Wire.isKeyStart c = true) : c.Printable := by
  simp only [Wire.isKeyStart, isAsciiLetter, Bool.or_eq_true, Bool.and_eq_true, decide_eq_true_eq] at h
  rcases h with h | rfl
  · exact ⟨by omega, by omega⟩
  · decide

theorem printable_of_isAsciiDigit {c : CodePoint} (h : c.isAsciiDigit = true) : c.Printable := by
  have := isAsciiDigit_iff.1 h
  exact ⟨by omega, by omega⟩

end CodePoint

namespace Wire

theorem printable_unitEscape (n : Nat) : (Text.unitEscape n).Printable := by
  refine Text.Printable.append (show ("\\u" : Text).Printable by decide) fun c hc => ?_
  have := Text.mem_hex hc
  exact ⟨by omega, by omega⟩

theorem printable_escaped (c : CodePoint) : (escaped c).Printable := by
  rcases escaped_cases c with ⟨e, hc, he⟩ | ⟨hc, -, -, hplain⟩ | ⟨hc, -⟩ | ⟨-, hc⟩
  · rw [hc]
    cases he <;> decide
  · rw [hc]
    exact List.forall_mem_singleton.2 hplain
  · rw [hc]
    exact printable_unitEscape _
  · rw [hc]
    exact (printable_unitEscape _).append (printable_unitEscape _)

theorem printable_quote (t : Text) : (quote t).Printable := by
  have hmark : ("\"" : Text).Printable := by decide
  refine (hmark.append fun c hc => ?_).append hmark
  obtain ⟨d, -, hd⟩ := List.mem_flatMap.1 hc
  exact printable_escaped d c hd

theorem short_of_writeNumber {n : Number} {t : Text} (h : writeNumber n = .ok t) : n.Short := by
  cases n with
  | int n =>
      unfold writeNumber at h
      cases hsome : Numeral.ofInt? n with
      | none => simp [hsome] at h
      | some u => exact (Number.short_int n).2 (Option.ite_none_right_eq_some.1 hsome).1
  | float x => trivial

theorem mem_writeNumber {n : Number} {t : Text} (h : writeNumber n = .ok t) {c : CodePoint} (hc : c ∈ t) :
    0x2B ≤ c.val ∧ c.val ≤ 0x65 := by
  obtain ⟨u, hu, hword | ⟨w, hw, rfl, -⟩⟩ := writeNumber_short (short_of_writeNumber h)
  · cases hu.symm.trans h
    have hall : ∀ k ∈ constants, ∀ c ∈ k.1, 0x2B ≤ c.val ∧ c.val ≤ 0x65 := by decide
    exact hall _ hword c hc
  · cases hu.symm.trans h
    exact hw.mem_spell hc

theorem Lexeme.printable {t : Text} (h : Lexeme t) : t.Printable := by
  cases h with
  | constant hword =>
      have hall : ∀ k ∈ constants, ∀ c ∈ k.1, c.Printable := by decide
      exact hall _ hword
  | number hn =>
      intro c hc
      have := mem_writeNumber hn hc
      exact ⟨by omega, by omega⟩
  | quoted t => exact printable_quote t
  | name hbare =>
      exact fun c hc => ((isBareKey_cases hbare).2 c hc).elim CodePoint.printable_of_isKeyStart
        CodePoint.printable_of_isAsciiDigit
  | comma | colon => decide

theorem Composed.printable {t : Text} (h : Composed t) : t.Printable := by
  induction h with
  | nil => exact nofun
  | lexeme ht => exact ht.printable
  | append _ _ ht hu => exact ht.append hu
  | list _ ht => exact (Text.Printable.append (t := "[") (by decide) ht).append (by decide)
  | record _ ht => exact (Text.Printable.append (t := "\x7b") (by decide) ht).append (by decide)

/-- Whatever is written is printable. -/
theorem printable_write {v : Value} {t : Text} (h : write v = .ok t) : t.Printable :=
  (composed_write h).printable

end Wire
end Pausable
