/-! What the result of a computation that may fail says about the computations it is made from. -/
namespace Pausable

variable {ε β γ : Type}

theorem ok_of_map {r : Except ε β} {f : β → γ} {c : γ} (h : r.map f = .ok c) : ∃ b, r = .ok b ∧ f b = c := by
  cases r with
  | error e => cases h
  | ok b => cases h; exact ⟨b, rfl, rfl⟩

theorem error_of_map {r : Except ε β} {f : β → γ} {e : ε} (h : r.map f = .error e) : r = .error e := by
  cases r with
  | error e' => cases h; rfl
  | ok b => cases h

theorem ok_of_toOption {r : Except ε β} {b : β} (h : r.toOption = some b) : r = .ok b := by
  cases r with
  | error e => cases h
  | ok b' => cases h; rfl

theorem error_of_mapError {δ : Type} {r : Except ε β} {f : ε → δ} {e : δ} (h : r.mapError f = .error e) :
    ∃ e', r = .error e' ∧ f e' = e := by
  cases r with
  | error e' => cases h; exact ⟨e', rfl, rfl⟩
  | ok b => cases h

/-- The failure of a computation that fails. -/
def failure? : Except ε β → Option ε
  | .error e => some e
  | .ok _ => none

theorem failure?_eq_some {r : Except ε β} {e : ε} : failure? r = some e ↔ r = .error e := by
  cases r <;> simp [failure?]

theorem failure?_map (r : Except ε β) (f : β → γ) : failure? (r.map f) = failure? r := by
  cases r <;> rfl

end Pausable
