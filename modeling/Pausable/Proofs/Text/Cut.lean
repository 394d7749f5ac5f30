import Pausable.Text.Cursor

/-! What a cursor does at the front of a text that is put together from a known part and a rest. -/
namespace Pausable

/-- No member of a class stands at the front. -/
def Text.Stops (q : CodePoint → Bool) (t : Text) : Prop := ∀ c ∈ t.head?, q c = false

namespace Text

/-- A text that begins like a value: with neither a blank nor the end of a container. -/
def Begins (t : Text) : Prop := ∃ c u, t = c :: u ∧ 0x20 < c.val ∧ c.val < 0x7F ∧ c ≠ ']' ∧ c ≠ '\x7d'

/-- What can stand behind a value: nothing, a comma or the end of a container. -/
def Ends (t : Text) : Prop := t = [] ∨ ∃ c u, t = c :: u ∧ (c = ',' ∨ c = ']' ∨ c = '\x7d')

/-- The classes of the reader hold none of the code points that stand behind a value. -/
theorem Ends.stops {q : CodePoint → Bool} {r : Text} (hr : r.Ends) (hcomma : q ',' = false)
    (hlist : q ']' = false) (hrecord : q '\x7d' = false) : r.Stops q := by
  intro c hc
  rcases hr with rfl | ⟨d, u, rfl, hd⟩
  · cases hc
  · cases hc
    rcases hd with rfl | rfl | rfl
    · exact hcomma
    · exact hlist
    · exact hrecord

/-- A letter stands at the front, or a minus sign before one. -/
def IsWord (t : Text) : Prop :=
  ∃ c u, t = c :: u ∧ (0x41 ≤ c.val ∨ c = '-' ∧ ∃ d v, u = d :: v ∧ 0x41 ≤ d.val)

/-- A code point below the letters stands at the front, and another one behind it if it is a minus sign. -/
def Wordless (t : Text) : Prop :=
  ∃ c u, t = c :: u ∧ c.val < 0x41 ∧ (c = '-' → ∃ d v, u = d :: v ∧ d.val < 0x41)

theorem IsWord.take_ne {w t : Text} (hw : w.IsWord) (ht : t.Wordless) : t.take w.length ≠ w := by
  obtain ⟨c, u, rfl, hc⟩ := hw
  obtain ⟨c', u', rfl, hlow, hminus⟩ := ht
  intro h
  obtain ⟨rfl, hu⟩ := List.cons.inj h
  rcases hc with hc | ⟨rfl, d, v, rfl, hd⟩
  · exact absurd hlow (Nat.not_lt.2 hc)
  · obtain ⟨d', v', rfl, hd'⟩ := hminus rfl
    obtain ⟨rfl, -⟩ := List.cons.inj hu
    exact absurd hd' (Nat.not_lt.2 hd)

end Text

namespace Cursor

variable {q : CodePoint → Bool} {p : Nat} {t r : Text}

theorem skip_append : (⟨p, t ++ r⟩ : Cursor).skip t.length = ⟨p + t.length, r⟩ := by
  rw [skip, List.drop_left]

theorem takeRun_append (ht : ∀ c ∈ t, q c = true) (hr : r.Stops q) :
    (⟨p, t ++ r⟩ : Cursor).takeRun q = (t, ⟨p + t.length, r⟩) := by
  have hrun : (t ++ r).takeWhile q = t := by
    rw [List.takeWhile_append_of_pos ht]
    cases r with
    | nil => rw [List.takeWhile_nil, List.append_nil]
    | cons c r =>
        have hc : ¬ q c = true := by
          rw [hr c rfl]
          exact nofun
        rw [List.takeWhile_cons_of_neg hc, List.append_nil]
  rw [takeRun, hrun, skip_append]

/-- A run that is cut holds members of the class, and none stands behind it. -/
theorem takeRun_sound (q : CodePoint → Bool) (c : Cursor) :
    c.rest = (c.takeRun q).1 ++ (c.takeRun q).2.rest ∧ (∀ d ∈ (c.takeRun q).1, q d = true) ∧
      (c.takeRun q).2.rest.Stops q := by
  have hsplit : c.rest.takeWhile q ++ c.rest.dropWhile q = c.rest := List.takeWhile_append_dropWhile
  have hdrop : (c.takeRun q).2.rest = c.rest.dropWhile q := by
    have hleft : (c.rest.takeWhile q ++ c.rest.dropWhile q).drop (c.rest.takeWhile q).length = c.rest.dropWhile q :=
      List.drop_left
    rw [hsplit] at hleft
    exact hleft
  rw [hdrop]
  refine ⟨hsplit.symm, List.all_eq_true.1 List.all_takeWhile, fun d hd => ?_⟩
  have hnot := List.head?_dropWhile_not q c.rest
  rw [hd] at hnot
  exact hnot

theorem skipRun_stops (hr : r.Stops q) : (⟨p, r⟩ : Cursor).skipRun q = ⟨p, r⟩ := by
  have h := takeRun_append (p := p) (t := []) (q := q) nofun hr
  rw [List.nil_append] at h
  rw [skipRun, h]
  rfl

theorem not_next_of_ne {c d : CodePoint} (h : c ≠ d) : ¬ (⟨p, c :: r⟩ : Cursor).next (· = d) = true :=
  mt of_decide_eq_true h

theorem next_stops (hr : r.Stops q) : (⟨p, r⟩ : Cursor).next q = false := by
  cases r with
  | nil => rfl
  | cons c r => exact hr c rfl

theorem takeRun_ne_nil {c : Cursor} (h : c.next q = true) : (c.takeRun q).1 ≠ [] := by
  intro hnil
  obtain ⟨hcut, -, hstops⟩ := takeRun_sound q c
  rw [hnil, List.nil_append] at hcut
  rw [← hcut] at hstops
  cases h.symm.trans (next_stops (p := c.position) hstops)

theorem stops_of_next {c : Cursor} (h : c.next q = false) : c.rest.Stops q := by
  intro d hd
  rw [next, hd] at h
  exact h

end Cursor
end Pausable
