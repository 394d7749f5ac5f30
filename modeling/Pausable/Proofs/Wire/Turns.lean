import Pausable.Proofs.Wire.Derives

/-!
The reader turn by turn. A turn finds the beginning of a value, or puts a value away and finds the separator behind it;
the reader is what its turns come to (`readOpen_turn`), and every turn leaves less of the text (`length_turn_lt`).
-/
namespace Pausable.Wire

/-- What a turn comes to: another one, or the end of the reading. -/
inductive Turn where
  | onward (task : Task) (stack : List Container) (c : Cursor)
  | done (r : Reading Value)

/-- One turn of the reader. -/
def turn : Task → List Container → Cursor → Turn
  | .seek, stack, c =>
    match c.skipBlanks.rest with
    | [] => .done (.error ⟨.unexpectedEnd, c.skipBlanks.position⟩)
    | _ :: _ =>
      match readOpening c.skipBlanks with
      | .error e => .done (.error e)
      | .ok (.value v, after) => .onward (.store v) stack after
      | .ok (.container k, after) => .onward .seek (k :: stack) after
  | .store v, [], c => .done (.ok (v, c))
  | .store v, k :: below, c =>
    match c.skipBlanks.rest with
    | [] => .done (.error ⟨.unterminated (k.add v).shape, c.skipBlanks.position⟩)
    | d :: _ =>
      if d = ',' then
        match proceed (c.skipBlanks.skip 1) (k.add v) with
        | .error e => .done (.error e)
        | .ok (k', after) => .onward .seek (k' :: below) after
      else if d = (k.add v).closer then .onward (.store (k.add v).close) below (c.skipBlanks.skip 1)
      else .done (.error ⟨.noSeparator (k.add v).shape c.skipBlanks.position, c.skipBlanks.position⟩)

/-- What is read from a turn on. -/
def Turn.reading : Turn → Reading Value
  | onward task stack c => readOpen task stack c
  | done r => r

theorem readOpen_turn (task : Task) (stack : List Container) (c : Cursor) :
    readOpen task stack c = (turn task stack c).reading := by
  cases task with
  | seek =>
      cases hc : c.skipBlanks.rest with
      | nil =>
          rw [readOpen_seek_nil hc]
          simp only [turn, hc, Turn.reading]
      | cons d u =>
          rw [readOpen_seek_cons hc]
          simp only [turn, hc]
          cases readOpening c.skipBlanks with
          | error e => rfl
          | ok r => obtain ⟨v | k, a⟩ := r <;> rfl
  | store v =>
      cases stack with
      | nil =>
          rw [readOpen]
          rfl
      | cons k below =>
          cases hc : c.skipBlanks.rest with
          | nil =>
              rw [readOpen_store_nil hc]
              simp only [turn, hc, Turn.reading]
          | cons d u =>
              rw [readOpen_store_cons hc]
              simp only [turn, hc]
              split
              · cases proceed (c.skipBlanks.skip 1) (k.add v) <;> rfl
              · split <;> rfl

/-- A turn that is not the last one leaves less of the text. -/
theorem length_turn_lt {task task' : Task} {stack stack' : List Container} {c a : Cursor}
    (h : turn task stack c = .onward task' stack' a) : a.rest.length < c.rest.length := by
  have hblanks := c.length_skipBlanks_le
  have hnext {d : CodePoint} {u : Text} (hc : c.skipBlanks.rest = d :: u) :
      (c.skipBlanks.skip 1).rest.length < c.rest.length := by
    have hskip : (c.skipBlanks.skip 1).rest.length < c.skipBlanks.rest.length :=
      Cursor.length_skip_lt (by decide) (by rw [hc]; exact List.cons_ne_nil d u)
    omega
  unfold turn at h
  split at h
  · split at h
    · cases h
    · split at h
      · cases h
      · rename_i ho
        cases h
        exact Nat.lt_of_lt_of_le (length_readOpening_lt ho) hblanks
      · rename_i ho
        cases h
        exact Nat.lt_of_lt_of_le (length_readOpening_lt ho) hblanks
  · cases h
  · split at h
    · cases h
    · rename_i hc
      split at h
      · split at h
        · cases h
        · rename_i hp
          cases h
          exact Nat.lt_of_le_of_lt (length_proceed_le hp) (hnext hc)
      · split at h
        · cases h
          exact hnext hc
        · cases h

/-- The reader of a text comes to this task, with these containers open, at this place. -/
inductive Comes (t : Text) : Task → List Container → Cursor → Prop where
  | start : t ≠ [] → Comes t .seek [] (.start t)
  | turn {task task' stack stack' c a} : Comes t task stack c → turn task stack c = .onward task' stack' a →
      Comes t task' stack' a

theorem Comes.ne_nil {t : Text} {task : Task} {stack : List Container} {c : Cursor} (h : Comes t task stack c) :
    t ≠ [] := by
  induction h with
  | start hne => exact hne
  | turn _ _ ih => exact ih

/-- What is read from there on is what is read of the text. -/
theorem Comes.readOpen_eq {t : Text} {task : Task} {stack : List Container} {c : Cursor} (h : Comes t task stack c) :
    readOpen .seek [] (.start t) = readOpen task stack c := by
  induction h with
  | start => rfl
  | turn _ hturn ih => rw [ih, readOpen_turn, hturn, Turn.reading]

end Pausable.Wire
