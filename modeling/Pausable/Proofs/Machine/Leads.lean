import Pausable.Machine.Run
import Pausable.Proofs.Machine.Linked

/-!
Rows of steps. Those that neither fail nor halt are counted, and what lies at the bottom of the stack all
the time is said with them. A row from the beginning of a run leaves the rest of the run (`run_advance`).
-/
namespace Pausable.Machine

variable {α σ ε : Type}

/-- There are frames on top of the given ones. -/
def Above (base : List (Frame α)) (m : Machine α) : Prop := ∃ f fs, m.stack = f :: (fs ++ base)

theorem Above.of_cons {f : Frame α} {base : List (Frame α)} {m : Machine α} (h : m.Above (f :: base)) :
    m.Above base := by
  obtain ⟨g, fs, h⟩ := h
  exact ⟨g, fs ++ [f], by rw [h]; simp⟩

theorem above_cons (f : Frame α) (base : List (Frame α)) (h : Bool) (k : Nat) :
    Above base ⟨f :: base, h, k⟩ := ⟨f, [], rfl⟩

variable [Strange α] {host : Host σ ε}

/-- So many steps lead from one machine and world to another one, each from a stack with frames on top of
the base. -/
inductive Leads (host : Host σ ε) (base : List (Frame α)) : Nat → Machine α → σ → Machine α → σ → Prop where
  | refl {m s} : Leads host base 0 m s m s
  | step {k m s m' s'} : m.Above base → (m.step host s).result = .ok true →
      Leads host base k (m.step host s).machine (m.step host s).world m' s' →
      Leads host base (k + 1) m s m' s'

namespace Leads

variable {base : List (Frame α)} {k j : Nat} {m m' m'' : Machine α} {s s' s'' : σ}

theorem trans (h : Leads host base k m s m' s') (h' : Leads host base j m' s' m'' s'') :
    Leads host base (k + j) m s m'' s'' := by
  induction h with
  | refl => rw [Nat.zero_add]; exact h'
  | step habove hmore _ ih =>
      rw [Nat.add_right_comm]
      exact .step habove hmore (ih h')

theorem single (habove : m.Above base) (h : m.step host s = ⟨m', s', .ok true⟩) :
    Leads host base 1 m s m' s' := by
  refine .step habove (by rw [h]) ?_
  rw [h]
  exact .refl

theorem of_cons {f : Frame α} (h : Leads host (f :: base) k m s m' s') :
    Leads host base k m s m' s' := by
  induction h with
  | refl => exact .refl
  | step habove hmore _ ih => exact .step habove.of_cons hmore ih

end Leads

theorem not_halted_of_more {m : Machine α} {s : σ} (h : (m.step host s).result = .ok true) :
    m.halted = false := by
  cases hm : m.halted with
  | false => rfl
  | true => rw [step_of_halted hm] at h; cases h

/-- A step that leaves more to do is counted, and leaves the machine running. -/
theorem step_more {m : Machine α} {s : σ} (h : (m.step host s).result = .ok true) :
    (m.step host s).machine.steps = m.steps + 1 ∧ (m.step host s).machine.halted = false := by
  have hm := not_halted_of_more h
  cases hs : m.stack with
  | nil => simp [step, hm, hs] at h
  | cons top below =>
      have hmoved := step_moved host s hm hs
      generalize m.step host s = o at hmoved h ⊢
      cases hmoved with
      | stays hf => cases h
      | enters hf hc => exact ⟨rfl, rfl⟩
      | fails hf => cases h
      | leaves hf =>
          cases below with
          | nil => cases h
          | cons b below => exact ⟨rfl, hm⟩
      | halts hf hb => cases h

theorem Leads.steps_eq {base : List (Frame α)} {k : Nat} {m m' : Machine α} {s s' : σ}
    (h : Leads host base k m s m' s') : m'.steps = m.steps + k := by
  induction h with
  | refl => rfl
  | step _ hmore _ ih =>
      rw [ih, (step_more hmore).1]
      omega

variable {m : Machine α} {s : σ}

theorem run_of_more (h : (m.step host s).result = .ok true) :
    m.run host s = (m.step host s).machine.run host (m.step host s).world := by
  rw [run]
  split
  · rename_i ho
    rw [ho]
  · rename_i hne
    exact absurd (by rw [← h]) (hne (m.step host s).machine (m.step host s).world)

theorem run_of_not_more (h : (m.step host s).result ≠ .ok true) :
    m.run host s = m.step host s := by
  rw [run]
  split
  · rename_i ho
    rw [ho] at h
    exact absurd rfl h
  · rfl

/-- What each step keeps is kept by a run. -/
theorem run_keeps {P : Machine α → Prop} (hP : ∀ {m s}, P m → P (m.step host s).machine) (h : P m) :
    P (m.run host s).machine := by
  induction hw : m.work using Nat.strong_induction_on generalizing m s with
  | h w ih =>
      by_cases hmore : (m.step host s).result = .ok true
      · have hless := work_step hmore
        rw [run_of_more hmore]
        exact ih _ (by omega) (hP h) rfl
      · rw [run_of_not_more hmore]
        exact hP h

/-- A run does not end with more to do. -/
theorem run_ended {more : Bool} (h : (m.run host s).result = .ok more) : more = false := by
  induction hw : m.work using Nat.strong_induction_on generalizing m s with
  | h w ih =>
      by_cases hmore : (m.step host s).result = .ok true
      · have hless := work_step hmore
        rw [run_of_more hmore] at h
        exact ih _ (by omega) h rfl
      · rw [run_of_not_more hmore] at h
        cases more with
        | false => rfl
        | true => exact absurd h hmore

theorem Leads.run_eq {base : List (Frame α)} {k : Nat} {m' : Machine α} {s' : σ}
    (h : Leads host base k m s m' s') : m.run host s = m'.run host s' := by
  induction h with
  | refl => rfl
  | step _ hmore _ ih => rw [run_of_more hmore, ih]

section Advance

variable {k : Nat}

theorem advance_of_more (h : (m.step host s).result = .ok true) :
    m.advance host (k + 1) s = (m.step host s).machine.advance host k (m.step host s).world := by
  rw [advance]
  split
  · rename_i ho
    rw [ho]
  · rename_i hne
    exact absurd (by rw [← h]) (hne (m.step host s).machine (m.step host s).world)

theorem advance_of_not_more (h : (m.step host s).result ≠ .ok true) :
    m.advance host (k + 1) s = m.step host s := by
  rw [advance]
  split
  · rename_i ho
    rw [ho] at h
    exact absurd rfl h
  · rfl

/-- What each step keeps is kept. -/
theorem advance_keeps {P : Machine α → Prop} (hP : ∀ {m s}, P m → P (m.step host s).machine) (h : P m) :
    P (m.advance host k s).machine := by
  induction k generalizing m s with
  | zero => exact h
  | succ k ih =>
      by_cases hmore : (m.step host s).result = .ok true
      · rw [advance_of_more hmore]
        exact ih (hP h)
      · rw [advance_of_not_more hmore]
        exact hP h

/-- A step that does not fail and leaves nothing to do leaves a machine that has halted. -/
theorem halted_of_done (h : (m.step host s).result = .ok false) : (m.step host s).machine.halted = true := by
  cases hm : m.halted with
  | true =>
      rw [step_of_halted hm]
      exact hm
  | false =>
      cases hs : m.stack with
      | nil => simp [step, hm, hs] at h
      | cons top below =>
          have hmoved := step_moved host s hm hs
          generalize m.step host s = o at hmoved h ⊢
          cases hmoved with
          | stays hf => cases h
          | enters hf hc => cases h
          | fails hf => cases h
          | leaves hf =>
              cases below with
              | nil => rfl
              | cons b below => cases h
          | halts hf hb => rfl

theorem run_of_done (h : (m.step host s).result = .ok false) :
    (m.step host s).machine.run host (m.step host s).world = m.step host s := by
  have hstep : (m.step host s).machine.step host (m.step host s).world =
      ⟨(m.step host s).machine, (m.step host s).world, .ok false⟩ := step_of_halted (halted_of_done h)
  rw [run_of_not_more (by rw [hstep]; exact nofun), hstep, ← h]

/-- Some steps that did not fail, and then all others, are a run. -/
theorem run_advance {more : Bool} (h : (m.advance host k s).result = .ok more) :
    (m.advance host k s).machine.run host (m.advance host k s).world = m.run host s := by
  induction k generalizing m s with
  | zero => rfl
  | succ k ih =>
      by_cases hmore : (m.step host s).result = .ok true
      · rw [advance_of_more hmore] at h ⊢
        rw [run_of_more hmore]
        exact ih h
      · rw [advance_of_not_more hmore] at h ⊢
        rw [run_of_not_more hmore]
        cases more with
        | true => exact absurd h hmore
        | false => exact run_of_done h

theorem advance_of_halted (hm : m.halted = true) : m.advance host k s = ⟨m, s, .ok false⟩ := by
  cases k with
  | zero => rw [advance, hm, Bool.not_true]
  | succ k =>
      have hstep : m.step host s = ⟨m, s, .ok false⟩ := step_of_halted hm
      rw [advance_of_not_more (by rw [hstep]; exact nofun), hstep]

/-- Some steps that did not fail, and then some others, are so many steps. -/
theorem advance_add {more : Bool} (j : Nat) (h : (m.advance host k s).result = .ok more) :
    (m.advance host k s).machine.advance host j (m.advance host k s).world = m.advance host (k + j) s := by
  induction k generalizing m s with
  | zero =>
      rw [Nat.zero_add]
      rfl
  | succ k ih =>
      rw [Nat.add_right_comm]
      by_cases hmore : (m.step host s).result = .ok true
      · rw [advance_of_more hmore] at h ⊢
        rw [advance_of_more hmore]
        exact ih h
      · rw [advance_of_not_more hmore] at h ⊢
        rw [advance_of_not_more hmore]
        cases more with
        | true => exact absurd h hmore
        | false => rw [advance_of_halted (halted_of_done h), ← h]

theorem proceed_add {more : Bool} (steps : Option Nat) (h : (m.advance host k s).result = .ok more) :
    (m.advance host k s).machine.proceed host steps (m.advance host k s).world =
      m.proceed host (steps.map (k + ·)) s := by
  cases steps with
  | none => exact run_advance h
  | some j => exact advance_add j h

/-- Steps that end in a fault are a run. -/
theorem run_of_fault {e : Fault ε} (h : (m.advance host k s).result = .error e) :
    m.run host s = m.advance host k s := by
  induction k generalizing m s with
  | zero => cases h
  | succ k ih =>
      by_cases hmore : (m.step host s).result = .ok true
      · rw [advance_of_more hmore] at h ⊢
        rw [run_of_more hmore]
        exact ih h
      · rw [advance_of_not_more hmore, run_of_not_more hmore]

end Advance

end Pausable.Machine
