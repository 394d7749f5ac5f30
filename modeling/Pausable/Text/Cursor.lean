import Pausable.Text.Classes

/-! A place in a text: how much lies before it, and what is left. -/
namespace Pausable

/-- What is left of a text, and the number of code points before it. -/
structure Cursor where
  position : Nat
  rest : Text
deriving DecidableEq

namespace Cursor

def start (t : Text) : Cursor := ⟨0, t⟩

def skip (c : Cursor) (n : Nat) : Cursor := ⟨c.position + n, c.rest.drop n⟩

/-- Cuts the longest run of code points that satisfy `p`. -/
def takeRun (c : Cursor) (p : CodePoint → Bool) : Text × Cursor :=
  let run := c.rest.takeWhile p
  (run, c.skip run.length)

/-- Moves over the longest run of code points that satisfy `p`. -/
def skipRun (c : Cursor) (p : CodePoint → Bool) : Cursor := (c.takeRun p).2

def skipBlanks (c : Cursor) : Cursor := c.skipRun CodePoint.isBlank

def next (c : Cursor) (p : CodePoint → Bool) : Bool := c.rest.head?.any p

/-- Cuts a minus sign, if there is one. -/
def takeMinus (c : Cursor) : Bool × Cursor :=
  if c.next (· = '-') then (true, c.skip 1) else (false, c)

@[simp] theorem rest_skip (c : Cursor) (n : Nat) : (c.skip n).rest = c.rest.drop n := rfl

theorem length_skip_le (c : Cursor) (n : Nat) : (c.skip n).rest.length ≤ c.rest.length := by
  simp

theorem length_skipRun_le (c : Cursor) (p : CodePoint → Bool) :
    (c.skipRun p).rest.length ≤ c.rest.length := length_skip_le ..

theorem length_skipBlanks_le (c : Cursor) : c.skipBlanks.rest.length ≤ c.rest.length :=
  length_skipRun_le ..

theorem length_skip_lt {c : Cursor} {n : Nat} (hn : 0 < n) (hc : c.rest ≠ []) :
    (c.skip n).rest.length < c.rest.length := by
  have := List.length_pos_iff.2 hc
  simp only [rest_skip, List.length_drop]
  omega

theorem length_takeRun_le (c : Cursor) (p : CodePoint → Bool) :
    (c.takeRun p).2.rest.length ≤ c.rest.length := c.length_skip_le _

theorem length_takeMinus_le (c : Cursor) : c.takeMinus.2.rest.length ≤ c.rest.length := by
  unfold takeMinus
  split
  · exact c.length_skip_le 1
  · exact Nat.le_refl _

theorem ne_nil_of_next {c : Cursor} {p : CodePoint → Bool} (h : c.next p = true) : c.rest ≠ [] := by
  intro hc
  simp [next, hc] at h

theorem length_takeRun_lt {c : Cursor} {p : CodePoint → Bool} (h : c.next p = true) :
    (c.takeRun p).2.rest.length < c.rest.length := by
  refine length_skip_lt ?_ (ne_nil_of_next h)
  cases hc : c.rest with
  | nil => simp [next, hc] at h
  | cons d t =>
    have hd : p d = true := by simpa [next, hc] using h
    simp [hd]

end Cursor
end Pausable
