import Pausable.Text.Cursor

/-!
Cursors that move through one text: each place a reader stands at lies behind the one before it, and none
behind the end.
-/
namespace Pausable.Cursor

variable {c a b : Cursor}

/-- The second place is in the same text, and not before the first. -/
def Ahead (c a : Cursor) : Prop := ∃ n ≤ c.rest.length, a = c.skip n

theorem skip_skip (c : Cursor) (m n : Nat) : (c.skip m).skip n = c.skip (m + n) := by
  simp only [skip, List.drop_drop, Nat.add_assoc]

theorem Ahead.refl (c : Cursor) : c.Ahead c := ⟨0, Nat.zero_le _, rfl⟩

theorem Ahead.trans (h : c.Ahead a) (h' : a.Ahead b) : c.Ahead b := by
  obtain ⟨m, hm, rfl⟩ := h
  obtain ⟨n, hn, rfl⟩ := h'
  rw [rest_skip, List.length_drop] at hn
  exact ⟨m + n, by omega, skip_skip c m n⟩

theorem Ahead.position_le (h : c.Ahead a) : c.position ≤ a.position := by
  obtain ⟨n, -, rfl⟩ := h
  exact Nat.le_add_right ..

/-- Seen from its beginning, a place in a text is told by its position. -/
theorem Ahead.of_start {t : Text} (h : (start t).Ahead a) : a.position ≤ t.length ∧ a.rest = t.drop a.position := by
  obtain ⟨n, hn, rfl⟩ := h
  rw [skip, start, Nat.zero_add]
  exact ⟨hn, rfl⟩

theorem ahead_skip_one (h : c.rest ≠ []) : c.Ahead (c.skip 1) := ⟨1, List.length_pos_iff.2 h, rfl⟩

/-- From the first place over the row of places, whose last one is the second. -/
inductive Walk : Cursor → List Cursor → Cursor → Prop where
  | nil (c : Cursor) : Walk c [] c
  | cons {c a b : Cursor} {ps : List Cursor} : c.Ahead a → Walk a ps b → Walk c (a :: ps) b

namespace Walk

variable {ps qs : List Cursor}

theorem append (h : Walk c ps a) (h' : Walk a qs b) : Walk c (ps ++ qs) b := by
  induction h with
  | nil => exact h'
  | cons hc _ ih => exact .cons hc (ih h')

theorem single (h : c.Ahead a) : Walk c [a] a := .cons h (.nil a)

theorem mem_ahead (h : Walk c ps a) : ∀ p ∈ c :: ps, c.Ahead p := by
  induction h with
  | nil c => exact List.forall_mem_singleton.2 (.refl c)
  | cons hc _ ih => exact List.forall_mem_cons.2 ⟨.refl _, fun p hp => hc.trans (ih p hp)⟩

/-- Nothing on a walk lies before what comes earlier on it. -/
theorem pairwise (h : Walk c ps a) : (c :: ps).Pairwise fun p q => p.position ≤ q.position := by
  induction h with
  | nil c => exact List.pairwise_singleton ..
  | cons hc hwalk ih => exact List.pairwise_cons.2 ⟨fun p hp => (hc.trans (hwalk.mem_ahead p hp)).position_le, ih⟩

theorem getLast? (h : Walk c ps a) : (c :: ps).getLast? = some a := by
  induction h with
  | nil => rfl
  | cons _ _ ih => rw [List.getLast?_cons_cons, ih]

theorem mem_last (h : Walk c ps a) : a ∈ c :: ps := List.mem_of_getLast? h.getLast?

end Walk

theorem walk_one (h : c.rest ≠ []) : Walk c [c.skip 1] (c.skip 1) := .single (ahead_skip_one h)

/-- The places behind each of the next code points. -/
def along (c : Cursor) : Nat → List Cursor
  | 0 => []
  | n + 1 => c.skip 1 :: (c.skip 1).along n

theorem walk_along {n : Nat} (h : n ≤ c.rest.length) : Walk c (c.along n) (c.skip n) := by
  induction n generalizing c with
  | zero => exact .nil c
  | succ n ih =>
      have hne : c.rest ≠ [] := List.ne_nil_of_length_pos (by omega)
      have hwalk := ih (c := c.skip 1) (by rw [rest_skip, List.length_drop]; omega)
      rw [skip_skip, Nat.add_comm] at hwalk
      exact .cons (ahead_skip_one hne) hwalk

/-- The places behind the code points of the longest run that satisfies `p`. -/
def alongRun (c : Cursor) (p : CodePoint → Bool) : List Cursor := c.along (c.takeRun p).1.length

theorem walk_alongRun (c : Cursor) (p : CodePoint → Bool) : Walk c (c.alongRun p) (c.takeRun p).2 :=
  walk_along (List.takeWhile_prefix p).length_le

def alongBlanks (c : Cursor) : List Cursor := c.alongRun CodePoint.isBlank

theorem walk_alongBlanks (c : Cursor) : Walk c c.alongBlanks c.skipBlanks := walk_alongRun c CodePoint.isBlank

/-- The place behind the next code point, if that satisfies `p`. -/
def alongNext (c : Cursor) (p : CodePoint → Bool) : List Cursor := if c.next p then [c.skip 1] else []

theorem walk_alongNext_of_next {p : CodePoint → Bool} (h : c.next p = true) : Walk c (c.alongNext p) (c.skip 1) := by
  rw [alongNext, if_pos h]
  exact walk_one (ne_nil_of_next h)

theorem walk_alongNext_of_not {p : CodePoint → Bool} (h : ¬ c.next p = true) : Walk c (c.alongNext p) c := by
  rw [alongNext, if_neg h]
  exact .nil c

end Pausable.Cursor
