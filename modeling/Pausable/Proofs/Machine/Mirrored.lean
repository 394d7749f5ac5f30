import Pausable.Proofs.Machine.Leads

/-!
A machine does the same with another host that answers in the same way, and whatever steps are counted. The worlds
of the two hosts stay related (`step_mirrored`), so what is known of a run with one host is known of a run with the
other.
-/
namespace Pausable

variable {α σ τ ε : Type}

/-- The machine with some more steps counted. -/
def Machine.counted (m : Machine α) (k : Nat) : Machine α := { m with steps := m.steps + k }

/-- Hosts that answer alike while their worlds are related, whatever they note. -/
structure Host.Mirrors (R : σ → τ → Prop) (h : Host σ ε) (g : Host τ ε) : Prop where
  print {s : σ} {t : τ} (v : Number) : R s t → (h.print v s).1 = (g.print v t).1 ∧ R (h.print v s).2 (g.print v t).2
  note {s : σ} {t : τ} (n n' : Note) : R s t → R (h.note n s) (g.note n' t)

/-- Outcomes that differ in their worlds and in the steps that were counted before. -/
structure Outcome.Mirrors (R : σ → τ → Prop) (k : Nat) (o : Outcome α σ ε) (o' : Outcome α τ ε) : Prop where
  machine : o'.machine = o.machine.counted k
  world : R o.world o'.world
  result : o'.result = o.result

/-- Frames that acted alike. -/
structure Acted.Mirrors (R : σ → τ → Prop) (a : Acted α σ ε) (a' : Acted α τ ε) : Prop where
  frame : a'.frame = a.frame
  world : R a.world a'.world
  effect : a'.effect = a.effect

namespace Machine

theorem leave_counted {m : Machine α} {k : Nat} (f : Frame α) (below : List (Frame α)) :
    (m.counted k).leave f below = (m.leave f below).counted k := by
  cases below <;> rfl

theorem deliver_counted {m : Machine α} {k : Nat} (v : Option Number) :
    (m.counted k).deliver v = (m.deliver v).counted k := by
  obtain ⟨stack, halted, steps⟩ := m
  cases stack <;> rfl

theorem tick_counted (m : Machine α) (k : Nat) : (m.counted k).tick = m.tick.counted k := by
  simp only [tick, counted, Nat.add_right_comm]

section

variable {R : σ → τ → Prop} {h : Host σ ε} {g : Host τ ε} (hg : h.Mirrors R g)
include hg

theorem finish_mirrored {s : σ} {t : τ} (hR : R s t) (m : Machine α) (k : Nat) :
    (m.finish h s).Mirrors R k ((m.counted k).finish g t) := by
  refine ⟨rfl, ?_, rfl⟩
  rw [finish, finish, noteHalt, noteHalt]
  cases hm : m.halted with
  | true =>
      have hm' : (m.counted k).halted = true := hm
      rw [if_pos hm', if_pos rfl]
      exact hg.note _ _ hR
  | false =>
      have hm' : ¬ (m.counted k).halted = true := by simp [counted, hm]
      rw [if_neg hm', if_neg Bool.false_ne_true]
      exact hR

theorem act_mirrored [Strange α] {s : σ} {t : τ} (hR : R s t) (f : Frame α) (below : List (Frame α)) :
    (f.act h below s).Mirrors R (f.act g below t) := by
  obtain ⟨place, a, slot⟩ := f
  cases a with
  | literal | binary | block | foreign => exact ⟨rfl, hR, rfl⟩
  | print e begun =>
      cases begun with
      | false => exact ⟨rfl, hR, rfl⟩
      | true =>
          cases slot with
          | none => exact ⟨rfl, hR, rfl⟩
          | some v =>
              obtain ⟨hanswer, hworld⟩ := hg.print v hR
              simp only [Frame.act, Frame.actPrint]
              cases hh : h.print v s with
              | mk r s' =>
                  cases hp : g.print v t with
                  | mk r' t' =>
                      rw [hh, hp] at hanswer hworld
                      cases hanswer
                      cases r <;> exact ⟨rfl, hworld, rfl⟩

theorem carry_mirrored [Strange α] {a : Acted α σ ε} {a' : Acted α τ ε} (ha : a.Mirrors R a') (m : Machine α) (k : Nat)
    (below : List (Frame α)) : (carry h m below a).Mirrors R k (carry g (m.counted k) below a') := by
  obtain ⟨f, s, effect⟩ := a
  obtain ⟨f', t, effect'⟩ := a'
  obtain ⟨hf, hR, he⟩ := ha
  cases hf
  cases he
  cases effect with
  | error e => exact ⟨rfl, hR, rfl⟩
  | ok effect =>
      cases effect with
      | enter entered turn c =>
          simp only [carry]
          cases c.kind with
          | error name => exact ⟨rfl, hR, rfl⟩
          | ok _ =>
              have hfinish := finish_mirrored hg hR
                { m with stack := entered.ofChild turn c :: entered :: below }.tick k
              rw [← tick_counted] at hfinish
              exact hfinish
      | leave v =>
          cases v with
          | error e =>
              simp only [carry, leave_counted]
              exact ⟨rfl, hR, rfl⟩
          | ok v =>
              simp only [carry, leave_counted, deliver_counted, tick_counted]
              exact finish_mirrored hg hR _ k
      | halt =>
          have hfinish := finish_mirrored hg hR { m with stack := f :: below, halted := true }.tick k
          rw [← tick_counted] at hfinish
          exact hfinish

theorem step_mirrored [Strange α] {s : σ} {t : τ} (hR : R s t) (m : Machine α) (k : Nat) :
    (m.step h s).Mirrors R k ((m.counted k).step g t) := by
  obtain ⟨stack, halted, steps⟩ := m
  cases halted with
  | true => exact ⟨rfl, hR, rfl⟩
  | false =>
      cases stack with
      | nil => exact ⟨rfl, hR, rfl⟩
      | cons top below =>
          simp only [step, counted, Bool.false_eq_true, ↓reduceIte]
          cases (top.kind : Except (Fault ε) Kind) with
          | error e => exact ⟨rfl, hR, rfl⟩
          | ok kind =>
              exact carry_mirrored hg (act_mirrored hg (hg.note _ _ hR) top below) ⟨top :: below, false, steps⟩ k below

theorem run_mirrored [Strange α] {s : σ} {t : τ} (hR : R s t) (m : Machine α) (k : Nat) :
    (m.run h s).Mirrors R k ((m.counted k).run g t) := by
  induction hw : m.work using Nat.strong_induction_on generalizing m s t with
  | h w ih =>
      have hstep := step_mirrored hg hR m k
      by_cases hmore : (m.step h s).result = .ok true
      · have hless := work_step hmore
        rw [run_of_more hmore, run_of_more (hstep.result.trans hmore), hstep.machine]
        exact ih _ (by omega) hstep.world _ rfl
      · rw [run_of_not_more hmore, run_of_not_more (hstep.result ▸ hmore)]
        exact hstep

theorem advance_mirrored [Strange α] {s : σ} {t : τ} (hR : R s t) (m : Machine α) (k j : Nat) :
    (m.advance h j s).Mirrors R k ((m.counted k).advance g j t) := by
  induction j generalizing m s t with
  | zero => exact ⟨rfl, hR, rfl⟩
  | succ j ih =>
      have hstep := step_mirrored hg hR m k
      by_cases hmore : (m.step h s).result = .ok true
      · rw [advance_of_more hmore, advance_of_more (hstep.result.trans hmore), hstep.machine]
        exact ih hstep.world _
      · rw [advance_of_not_more hmore, advance_of_not_more (hstep.result ▸ hmore)]
        exact hstep

theorem proceed_mirrored [Strange α] {s : σ} {t : τ} (hR : R s t) (m : Machine α) (k : Nat) (steps : Option Nat) :
    (m.proceed h steps s).Mirrors R k ((m.counted k).proceed g steps t) := by
  cases steps with
  | none => exact run_mirrored hg hR m k
  | some n => exact advance_mirrored hg hR m k n

end

end Machine

end Pausable
