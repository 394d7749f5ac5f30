import Pausable.Proofs.Machine.Steps

/-!
Records that are read as machines are safe to run. A step of a sound machine comes to no node of an unknown
kind and to no empty stack, so what it fails with is told by the program or by the host
(`Machine.Sound.step_faults`).
-/
namespace Pausable

variable {α σ ε : Type}

/-- What a step may fail with on a tree without strangers: an operator that is none, an operand without a
value, an integer that is too large, and what the host fails with when it prints. -/
def Fault.Admissible (host : Host σ ε) : Fault ε → Prop
  | emptyStack | unknownKind _ => False
  | unsupportedOperator symbol => Operator.ofSymbol? symbol = none
  | valuelessOperand _ | integerTooLarge => True
  | .host e => ∃ v s, (host.print v s).1 = .error e

namespace Frame

variable {host : Host σ ε} {f : Frame α} {below : List (Frame α)} {s : σ} {e : Fault ε}

theorem handOn_native [Strange α] (v : Number) (hb : ∀ g ∈ below, g.node.Native) :
    (handOn v below : Except (Fault ε) (Option Number)) = .ok (if handsOnPrint below then some v else none) := by
  refine handOn_eq fun g hg a ha => ?_
  have hnative := hb g (List.mem_of_mem_head? hg)
  rw [node, ha] at hnative
  exact hnative

/-- A frame of a native node on others of such nodes fails, before it leaves or on leaving, only with what is
admissible. -/
theorem Acts.faults [Strange α] {acted : Acted α σ ε} (h : f.Acts host below s acted) (hf : f.node.Native)
    (hb : ∀ g ∈ below, g.node.Native) (he : acted.effect = .error e ∨ acted.effect = .ok (.leave (.error e))) :
    e.Admissible host := by
  cases h with
  | literal | left | right | applied | operand | statement | last | halt => rcases he with he | he <;> cases he
  | noLeft | noRight | tooLarge | noOperand =>
      rcases he with he | he <;> cases he
      trivial
  | unsupported hop =>
      rcases he with he | he <;> cases he
      exact hop
  | refused hprint =>
      rcases he with he | he <;> cases he
      exact ⟨_, _, by rw [hprint]⟩
  | printed =>
      rw [handOn_native _ hb] at he
      rcases he with he | he <;> cases he
  | foreign => exact hf.elim

end Frame

namespace Machine

section

variable [Strange α] {host : Host σ ε}

/-- What a step of a sound machine fails with is admissible. -/
theorem Sound.step_faults {m : Machine α} {s : σ} {e : Fault ε} (h : m.Sound)
    (he : (m.step host s).result = .error e) : e.Admissible host := by
  obtain ⟨top, below, hs⟩ := h.stack_eq
  have hframes := h.frames
  rw [hs] at hframes
  obtain ⟨htop, hbelow⟩ := List.forall_mem_cons.1 hframes
  obtain ⟨k, acted, -, hacts, hdid⟩ := h.step_did host s (not_halted_of_error he) hs
  exact hacts.faults htop hbelow (hdid.error_iff.1 he)

/-- Any record that is read as a machine is safe to run. After any steps, failing ones too, the next step
fails only with what is admissible; and whether it fails or not, the machine is then saved as a record,
which is read back as the same machine. -/
theorem step_restored (host : Host σ ε) {v : Value} {m : Machine α} (h : ofValue v = .ok m) (k : Nat) (s : σ) :
    let o := (m.after host k s).1.step host (m.after host k s).2
    (∀ e, o.result = .error e → e.Admissible host) ∧
      ∃ w, o.machine.toValue = .ok w ∧ ofValue w = .ok { o.machine with steps := 0 } := by
  have hafter : (m.after host k s).1.Sound := (sound_ofValue h).after k
  exact ⟨fun e he => hafter.step_faults he, hafter.step.reload⟩

end

/-- A record that no machine is saved as: both operands are done, but the value in the slot is not that of
the right one, and the operator is none. -/
def forged : Value :=
  .record
    [Value.named "stateStack" (.list
      [.record
        [Value.named "node" (.record
          [Value.named "kind" (.text "binop"), Value.named "op" (.text "/"),
            Value.named "left" (.record [Value.named "kind" (.text "literal"), Value.named "value" (.int 1)]),
            Value.named "right" (.record [Value.named "kind" (.text "literal"), Value.named "value" (.int 2)])]),
          Value.named "ctx" (.record [Value.named "state" (.int 2), Value.named "left" (.int 1)]),
          Value.named "value" (.int 5)]]),
      Value.named "halted" (.bool false), Value.named "by" (.text "hand")]

theorem step_restored_forged :
    let m : Machine Empty :=
      ⟨[⟨some [], .binary "/" (.literal (.int 1)) (.literal (.int 2)) (.onRight (.int 1)), some (.int 5)⟩], false, 0⟩
    let host : Host Nat Unit := ⟨fun _ s => (.error (), s), fun _ s => s + 1⟩
    let o := (m.after host 1 0).1.step host (m.after host 1 0).2
    ofValue forged = .ok m ∧ (∀ e, o.result = .error e → e.Admissible host) ∧
      ∃ w, o.machine.toValue = .ok w ∧ ofValue w = .ok { o.machine with steps := 0 } := by
  intro m host o
  have hread : ofValue forged = .ok m := by decide +kernel
  exact ⟨hread, step_restored host hread 1 0⟩

end Machine
end Pausable
