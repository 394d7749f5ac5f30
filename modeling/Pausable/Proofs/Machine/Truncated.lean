import Pausable.Machine.Restored
import Pausable.Proofs.Machine.Saved
import Pausable.Proofs.Wire.Brackets

/-!
Texts of machines that were cut off. The record of a machine is written between brackets, so whatever is left of its
text when the end is missing is no text of a value (`Machine.truncated`).
-/
namespace Pausable.Machine

variable {α β : Type} [Strange α]

theorem enclosed_toText {m : Machine α} {t : Text} (h : m.toText = .ok t) : Wire.Enclosed t := by
  obtain ⟨v, hv, hw⟩ := toText_ok h
  obtain ⟨vs, -, rfl⟩ := toValue_ok hv
  exact Wire.enclosed_write (v := .record _) trivial hw

theorem error_of_not_read {t : Text} (h : ∀ v, Wire.read t ≠ .ok v) : ∃ e, Wire.read t = .error e := by
  cases hread : Wire.read t with
  | error e => exact ⟨e, rfl⟩
  | ok v => exact (h v hread).elim

/-- No text of a list or a record is read when its end is missing, and so no machine comes out of the text of a machine
that was cut off. -/
theorem truncated :
    (∀ (v : Value) (t p : Text), Wire.IsContainer v → Wire.write v = .ok t → p <+: t → p ≠ t →
      ∃ e, Wire.read p = .error e) ∧
    ∀ (m : Machine α) (t p : Text), m.toText = .ok t → p <+: t → p ≠ t →
      ∃ e, (ofText p : Except RestoreError (Machine β)) = .error (.corrupt (.text e)) := by
  constructor
  · intro v t p hv hw hp hne
    exact error_of_not_read ((Wire.enclosed_write hv hw).not_read hp hne)
  · intro m t p hm hp hne
    obtain ⟨e, he⟩ := error_of_not_read ((enclosed_toText hm).not_read hp hne)
    exact ⟨e, by rw [ofText, he]⟩

def sevenText : Text :=
  "\x7bstateStack:[\x7bnode:\x7bkind:\"literal\",value:7\x7d,ctx:\x7b\x7d\x7d],halted:FALSE\x7d"

/-- A list that is cut off in a keyword, and the text of a machine without its last bracket. -/
theorem truncated_seven :
    Wire.write (.list [.bool true]) = .ok "[TRUE]" ∧ (∃ e, Wire.read "[TRU" = .error e) ∧
    (ofRoot (.literal (.int 7)) : Machine Empty).toText = .ok sevenText ∧ sevenText.dropLast ≠ sevenText ∧
      ∃ e, (ofText sevenText.dropLast : Except RestoreError (Machine Empty)) = .error (.corrupt (.text e)) := by
  have hlist : Wire.write (.list [.bool true]) = .ok "[TRUE]" := by decide +kernel
  have hcut := (@truncated Empty Empty _).1 (.list [.bool true]) "[TRUE]" "[TRU" trivial hlist ⟨"E]", by decide⟩
    (by decide)
  have htext : (ofRoot (.literal (.int 7)) : Machine Empty).toText = .ok sevenText := by decide +kernel
  have hne : sevenText.dropLast ≠ sevenText := by decide +kernel
  exact ⟨hlist, hcut, htext, hne, truncated.2 _ _ _ htext (List.dropLast_prefix _) hne⟩

end Pausable.Machine
