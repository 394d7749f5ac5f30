import Pausable.Proofs.Value.Shown
import Pausable.Proofs.Wire.Derives

/-!
What is read is plain data: its records have texts as keys, each but once, and none of its integers is too
long to be written. The texts in it may be any texts.
-/
namespace Pausable

namespace Wire

theorem plain_scalar {t r : Text} {v : Value} (h : Scalar t v r) : v.Plain Number.Short fun _ => True := by
  cases h with
  | @constant word r v hmem =>
      simp only [constants, List.mem_cons, Prod.mk.injEq, List.not_mem_nil, or_false] at hmem
      rcases hmem with ⟨-, rfl⟩ | ⟨-, rfl⟩ | ⟨-, rfl⟩ | ⟨-, rfl⟩ | ⟨-, rfl⟩ | ⟨-, rfl⟩ <;> trivial
  | text => trivial
  | number _ _ hn => exact WrittenNumber.short_toNumber? hn

mutual

theorem plain_derives {t r : Text} {v : Value} : Derives t v r → v.Plain Number.Short fun _ => True
  | .scalar h => plain_scalar h
  | .emptyList _ => trivial
  | .list _ hv hvs => ⟨plain_derives hv, plain_items hvs⟩
  | .emptyRecord _ => ⟨.nil, trivial⟩
  | .record hf hfs => plain_settled (List.forall_mem_cons.2 ⟨⟨trivial, plain_field hf⟩, plain_fields hfs⟩)

theorem plain_items {t r : Text} {vs : List Value} : Items t vs r → Value.PlainItems Number.Short (fun _ => True) vs
  | .close _ => trivial
  | .more _ _ hv hvs => ⟨plain_derives hv, plain_items hvs⟩

theorem plain_field {t r : Text} {f : Text × Value} : Field t f r → f.2.Plain Number.Short fun _ => True
  | .mk _ _ _ _ hv => plain_derives hv

theorem plain_fields {t r : Text} {fs : List (Text × Value)} :
    Fields t fs r → ∀ f ∈ fs, True ∧ f.2.Plain Number.Short fun _ => True
  | .close _ => nofun
  | .more _ hf hfs => List.forall_mem_cons.2 ⟨⟨trivial, plain_field hf⟩, plain_fields hfs⟩

end

theorem plain_read {t : Text} {v : Value} (h : read t = .ok v) : v.Plain Number.Short fun _ => True := by
  obtain ⟨r, hv, -⟩ := read_sound h
  exact plain_derives hv

end Wire
end Pausable
