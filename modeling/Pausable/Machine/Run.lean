import Pausable.Machine.Step

/-!
Running a machine to its end. Each step that does not fail leaves one step less to do (`work_step`), so
a run ends.
-/
namespace Pausable

variable {α σ ε : Type}

/-- The steps that are left to do, if none fails. -/
def Machine.work (m : Machine α) : Nat :=
  if m.halted then 0 else total (fun f => f.activity.work) m.stack

/-- A frame that begins a child has one step less to do, the child's steps counted in. -/
theorem Frame.work_enter [Strange α] {host : Host σ ε} {f entered : Frame α}
    {below : List (Frame α)} {s : σ} {t : Node.Turn} {c : Node α}
    (h : (f.act host below s).effect = .ok (.enter entered t c)) :
    (Activity.start c).work + entered.activity.work + 1 = f.activity.work := by
  have hc := Activity.work_start c
  generalize (Activity.start c).work = w at hc ⊢
  unfold act at h
  split at h
  · simp at h
  next symbol l r stage ha =>
    rw [ha]
    cases stage with
    | before left =>
      simp only [actBinary, Except.ok.injEq, Effect.enter.injEq] at h
      obtain ⟨rfl, _, rfl⟩ := h
      simp only [Activity.work]; omega
    | onLeft left =>
      simp only [actBinary] at h
      split at h
      · simp at h
      · simp only [Except.ok.injEq, Effect.enter.injEq] at h
        obtain ⟨rfl, _, rfl⟩ := h
        simp only [Activity.work]; omega
    | onRight v =>
      simp only [actBinary] at h
      split at h
      · simp at h
      · split at h <;> simp at h
  next e begun ha =>
    rw [ha]
    cases begun with
    | false =>
      simp only [actPrint, Except.ok.injEq, Effect.enter.injEq] at h
      obtain ⟨rfl, _, rfl⟩ := h
      simp only [Activity.work, ↓reduceIte, Bool.false_eq_true]; omega
    | true =>
      simp only [actPrint] at h
      split at h
      · simp at h
      · split at h <;> simp at h
  next begun waiting ha =>
    rw [ha]
    cases waiting with
    | nil => simp only [actBlock] at h; split at h <;> simp at h
    | cons s ss =>
      simp only [actBlock, Except.ok.injEq, Effect.enter.injEq] at h
      obtain ⟨rfl, _, rfl⟩ := h
      simp only [Activity.work, Node.countAll]; omega
  · simp at h

/-- A frame that leaves or halts has one step left. -/
theorem Frame.work_leave [Strange α] {host : Host σ ε} {f : Frame α} {below : List (Frame α)} {s : σ}
    {e : Effect α ε} (h : (f.act host below s).effect = .ok e)
    (he : ∀ entered t c, e ≠ .enter entered t c) : f.activity.work = 1 := by
  unfold act at h
  split at h
  next n ha => rw [ha]; rfl
  next symbol l r stage ha =>
    rw [ha]
    cases stage with
    | before left => exact absurd (Except.ok.inj h).symm (he _ _ _)
    | onLeft left =>
      simp only [actBinary] at h
      split at h
      · simp at h
      · exact absurd (Except.ok.inj h).symm (he _ _ _)
    | onRight v => rfl
  next e' begun ha =>
    rw [ha]
    cases begun with
    | false => exact absurd (Except.ok.inj h).symm (he _ _ _)
    | true => rfl
  next begun waiting ha =>
    rw [ha]
    cases waiting with
    | nil => rfl
    | cons s ss => exact absurd (Except.ok.inj h).symm (he _ _ _)
  next a ha => rw [ha]; rfl

namespace Machine

theorem work_deliver (m : Machine α) (v : Option Number) : (m.deliver v).work = m.work := by
  unfold deliver
  split
  · rfl
  next f fs h => cases v <;> simp [work, Frame.receive, h]

theorem work_tick (m : Machine α) : m.tick.work = m.work := rfl

variable [Strange α] {host : Host σ ε} {m : Machine α} {s : σ}

/-- A step that leaves more to do leaves one step less. -/
theorem work_step (h : (m.step host s).result = .ok true) :
    (m.step host s).machine.work + 1 = m.work := by
  unfold step at h ⊢
  split
  next hm => simp [hm] at h
  next hm =>
    have hm : m.halted = false := by simpa using hm
    simp only [hm, Bool.false_eq_true, ↓reduceIte] at h
    split
    next hs => simp [hs] at h
    next top below hs =>
      simp only [hs] at h
      split
      next hk => simp [hk] at h
      next k hk =>
        simp only [hk] at h
        have hw : m.work = top.activity.work + total (fun f => f.activity.work) below := by
          simp [work, hm, hs]
        generalize hacted : top.act host below (host.note (.evaluating k) s) = acted at h ⊢
        unfold carry at h ⊢
        split
        next he => simp [he] at h
        next entered turn child he =>
          simp only [he] at h
          split
          next hc => simp [hc] at h
          next k' hc =>
            have := Frame.work_enter (hacted ▸ he)
            rw [hw]
            simp only [finish, work_tick]
            simp only [work, hm, Bool.false_eq_true, ↓reduceIte, total_cons,
              Frame.ofChild]
            omega
        next he => simp [he] at h
        next v he =>
          simp only [he, finish, Except.ok.injEq, Bool.not_eq_eq_eq_not, Bool.not_true] at h
          have h1 := Frame.work_leave (hacted ▸ he) (by simp)
          simp only [finish, work_tick, work_deliver]
          cases below with
          | nil => simp [leave, deliver, tick] at h
          | cons f fs =>
            rw [hw, h1]
            simp [leave, work, hm]
            omega
        next he => simp [he, finish, tick] at h

/-- Steps until the machine halts or a step fails. -/
def run (host : Host σ ε) (m : Machine α) (s : σ) : Outcome α σ ε :=
  match _h : m.step host s with
  | ⟨next, world, .ok true⟩ => run host next world
  | outcome => outcome
termination_by m.work
decreasing_by
  have hr : (m.step host s).result = .ok true := by rw [_h]
  have := work_step hr
  rw [_h] at this
  dsimp only at this
  omega

/-- Takes at most `n` steps; the result says whether there is more to do. -/
def advance (host : Host σ ε) : Nat → Machine α → σ → Outcome α σ ε
  | 0, m, s => ⟨m, s, .ok !m.halted⟩
  | n + 1, m, s =>
    match m.step host s with
    | ⟨next, s, .ok true⟩ => advance host n next s
    | outcome => outcome

/-- Takes at most the given number of steps, or all. -/
def proceed (host : Host σ ε) (steps : Option Nat) (m : Machine α) (s : σ) : Outcome α σ ε :=
  match steps with
  | none => run host m s
  | some n => advance host n m s

end Machine
end Pausable
