import Pausable.Proofs.Machine.Restored

/-!
Steps of sound machines, told by what the top frame does (`Machine.Sound.step_did`). On a tree without strangers
every child that is begun gets its frame, so nothing else comes between the two.
-/
namespace Pausable

variable {α σ ε : Type}

namespace Frame

variable {host : Host σ ε} {f : Frame α} {below : List (Frame α)} {s : σ}

theorem kind_native [Strange α] (hf : f.node.Native) : ∃ k, (f.kind : Except (Fault ε) Kind) = .ok k := by
  obtain ⟨place, a, slot⟩ := f
  cases a with
  | foreign => exact hf.elim
  | literal | binary | print | block => exact ⟨_, rfl⟩

/-- The child that a frame of a native node begins is native. -/
theorem native_entered [Strange α] {entered : Frame α} {t : Node.Turn} {c : Node α} (hf : f.node.Native)
    (h : (f.act host below s).effect = .ok (.enter entered t c)) : c.Native := by
  obtain ⟨halike, hc⟩ := (act_fits host f below s).2 _ h
  have hentered : entered.node.Native := by
    rw [halike.node]
    exact hf
  exact Activity.native_child? hentered hc

end Frame

namespace Machine

/-- What the top frame of a machine does in the next step; none without a frame that can act. -/
def acted? [Strange α] (host : Host σ ε) (m : Machine α) (s : σ) : Option (Acted α σ ε) :=
  match m.stack with
  | [] => none
  | top :: below =>
    match (top.kind : Except (Fault ε) Kind) with
    | .error _ => none
    | .ok k => some (top.act host below (host.note (.evaluating k) s))

/-- What the top frame leaves with in the next step: its value, none, or the fault of leaving. -/
def yield? [Strange α] (host : Host σ ε) (m : Machine α) (s : σ) : Option (Except (Fault ε) (Option Number)) :=
  match m.acted? host s with
  | some ⟨_, _, .ok (.leave v)⟩ => some v
  | _ => none

/-- All that a step does to a machine that has not halted, by what its top frame does. -/
inductive Did (host : Host σ ε) (m : Machine α) (below : List (Frame α)) : Acted α σ ε → Outcome α σ ε → Prop where
  | stays {f t e} : Did host m below ⟨f, t, .error e⟩ ⟨{ m with stack := f :: below }, t, .error e⟩
  | enters {f t g turn c} : Did host m below ⟨f, t, .ok (.enter g turn c)⟩
      ⟨⟨g.ofChild turn c :: g :: below, false, m.steps + 1⟩, t, .ok true⟩
  | fails {f t e} : Did host m below ⟨f, t, .ok (.leave (.error e))⟩ ⟨m.leave f below, t, .error e⟩
  | leaves {f t v u} : Did host m below ⟨f, t, .ok (.leave (.ok v))⟩
      ⟨((m.leave f below).deliver v).tick, u, .ok !below.isEmpty⟩
  | halts {f t u} : below = [] → Did host m below ⟨f, t, .ok .halt⟩ ⟨⟨[f], true, m.steps + 1⟩, u, .ok false⟩

theorem Did.error_iff {host : Host σ ε} {m : Machine α} {below : List (Frame α)} {acted : Acted α σ ε}
    {o : Outcome α σ ε} {e : Fault ε} (h : Did host m below acted o) :
    o.result = .error e ↔ acted.effect = .error e ∨ acted.effect = .ok (.leave (.error e)) := by
  cases h <;> simp

section

variable [Strange α] {m : Machine α} {top : Frame α} {below : List (Frame α)}

theorem Sound.step_did (h : m.Sound) (host : Host σ ε) (s : σ) (hm : m.halted = false) (hs : m.stack = top :: below) :
    ∃ k acted, m.acted? host s = some acted ∧ top.Acts host below (host.note (.evaluating k) s) acted ∧
      Did host m below acted (m.step host s) := by
  obtain ⟨stack, halted, steps⟩ := m
  cases hm; cases hs
  have htop : top.node.Native := h.frames top (List.mem_cons_self ..)
  obtain ⟨k, hk⟩ : ∃ k, (top.kind : Except (Fault ε) Kind) = .ok k := Frame.kind_native htop
  refine ⟨k, _, by simp only [acted?, hk], top.acts host below _, ?_⟩
  have hfits := (Frame.act_fits host top below (host.note (.evaluating k) s)).2
  have hchild {entered : Frame α} {t : Node.Turn} {c : Node α}
      (he : (top.act host below (host.note (.evaluating k) s)).effect = .ok (.enter entered t c)) : c.Native :=
    Frame.native_entered htop he
  simp only [Machine.step, Bool.false_eq_true, ↓reduceIte, hk, carry]
  generalize top.act host below (host.note (.evaluating k) s) = acted at hfits hchild
  obtain ⟨f, t, effect⟩ := acted
  cases effect with
  | error e => exact .stays
  | ok effect =>
      cases effect with
      | enter g turn c =>
          obtain ⟨kc, hkc⟩ := Node.kind_native (hchild rfl)
          simp only [hkc]
          exact .enters
      | leave v =>
          cases v with
          | error e => exact .fails
          | ok v =>
              have hr : (!((Machine.leave ⟨top :: below, false, steps⟩ f below).deliver v).tick.halted) = !below.isEmpty := by
                cases below <;> rfl
              simp only [finish, hr]
              exact .leaves
      | halt =>
          cases hfits .halt rfl
          exact .halts rfl

end

end Machine
end Pausable
