import Pausable.Proofs.Machine.Leads
import Pausable.Proofs.Machine.Slots

/-!
Numbers that a record puts into slots. Reading a record does not ask whether a child can have left the number that
lies in a slot, and a print inside an expression leaves none. So an operation or a print whose operand is a print
fails for want of a value exactly if its slot was empty, and any number that it finds has been there since the
record (`Machine.print_consumed`).
-/
namespace Pausable

variable {α σ ε : Type}

namespace Frame

/-- The frame is to apply an operator that is none. -/
def Unsupported (f : Frame α) : Prop :=
  ∃ symbol l r v, f.activity = .binary symbol l r (.onRight v) ∧ Operator.ofSymbol? symbol = none

/-- The fault of a frame that finds nothing in its slot; the last stage of an operation asks for the operator first. -/
def missing (f : Frame α) : Fault ε :=
  match f.activity with
  | .binary symbol _ _ (.onRight _) =>
    if Operator.ofSymbol? symbol = none then .unsupportedOperator symbol else .valuelessOperand .rightOperand
  | .binary .. => .valuelessOperand .leftOperand
  | _ => .valuelessOperand .print

section

variable [Strange α] {host : Host σ ε} {f g top : Frame α} {below : List (Frame α)} {s t : σ}

theorem handOn_ne (v : Number) (below : List (Frame α)) (c : Consumer) :
    (handOn v below : Except (Fault ε) (Option Number)) ≠ .error (.valuelessOperand c) := by
  rcases handOn_cases (ε := ε) below with h | ⟨_, _, -, -, _, h⟩ <;> simp [h]

namespace Acts

/-- A frame that reads its slot fails for want of a value or of an operator, and for nothing else so. -/
theorem missing_iff {acted : Acted α σ ε} (h : f.Acts host below s acted) (hf : f.Awaits) :
    (acted.effect = .error f.missing ∨ acted.effect = .ok (.leave (.error f.missing))) ↔
      f.slot = none ∨ f.Unsupported := by
  cases h with
  | literal | statement | last | halt | foreign => exact hf.elim
  | left => exact (hf rfl).elim
  | operand => cases hf
  | noLeft | noOperand => exact iff_of_true (.inl rfl) (.inl rfl)
  | right => simp [missing, Unsupported]
  | unsupported hop => exact iff_of_true (.inl (by simp [missing, hop])) (.inr ⟨_, _, _, _, rfl, hop⟩)
  | noRight hop => exact iff_of_true (.inl (by simp [missing, hop])) (.inl rfl)
  | tooLarge hop | applied hop | refused => simp [missing, Unsupported, *]
  | printed => simp [missing, Unsupported, handOn_ne]

/-- A print that is an operand leaves without a value. -/
theorem operand_leaves {acted : Acted α σ ε} {e : Node α} (h : g.Acts host (f :: below) s acted)
    (hg : g.activity = .print e true) (hf : f.Awaits) :
    (∃ u, acted.effect = .error u) ∨ acted.effect = .ok (.leave (.ok none)) := by
  cases h with
  | literal | left | noLeft | right | unsupported | noRight | tooLarge | applied | statement | last | halt | foreign =>
      cases hg
  | operand => cases hg
  | noOperand | refused => exact .inl ⟨_, rfl⟩
  | printed =>
      obtain ⟨place, a, slot⟩ := f
      cases a with
      | literal | block | foreign => exact hf.elim
      | binary | print => exact .inr rfl

/-- A frame that begins a child and still has a number in its slot had it before, and has begun none before. -/
theorem enter_slot {turn : Node.Turn} {c : Node α} {w : Number} (h : top.Acts host below s ⟨f, t, .ok (.enter g turn c)⟩)
    (hg : ∀ begun waiting, g.activity ≠ .block begun waiting) (hw : g.slot = some w) :
    top.node = g.node ∧ top.slot = some w ∧ (∀ begun waiting, top.activity ≠ .block begun waiting) ∧ ¬ top.Awaits := by
  cases h with
  | left => exact ⟨rfl, hw, by simp, fun h => h rfl⟩
  | right => cases hw
  | operand => exact ⟨rfl, hw, by simp, fun h => by cases h⟩
  | statement => exact (hg _ _ rfl).elim

end Acts

end

end Frame

namespace Machine

/-- On some frames stands one of a node with a number in its slot that no child has left there: it is no block, and if
nothing stands on it, then it has begun no child. -/
def Holds (m : Machine α) (below : List (Frame α)) (n : Node α) (w : Number) : Prop :=
  ∃ above f, m.stack = above ++ f :: below ∧ f.node = n ∧ f.slot = some w ∧
    (∀ begun waiting, f.activity ≠ .block begun waiting) ∧ (above = [] → ¬ f.Awaits)

section

variable [Strange α] {host : Host σ ε} {m : Machine α} {s : σ} {below : List (Frame α)} {n : Node α} {w : Number}

/-- A step puts no such number into a slot. -/
theorem Sound.holds_step (hsound : m.Sound) (hm : (m.step host s).machine.halted = false)
    (h : (m.step host s).machine.Holds below n w) : m.Holds below n w := by
  have hhalted : m.halted = false := not_halted_of_step hm
  obtain ⟨top, others, hs⟩ := hsound.stack_eq
  have hchain := hsound.path.chain
  rw [hs] at hchain
  obtain ⟨k, acted, -, hacts, hdid⟩ := hsound.step_did host s hhalted hs
  generalize m.step host s = o at hm h hdid
  obtain ⟨above, f, hstack, hn, hw, hblock, hnew⟩ := h
  -- below the top the frames are those from before the step
  have hdeep (above' : List (Frame α)) (ho : others = above' ++ f :: below) : m.Holds below n w :=
    ⟨top :: above', f, by rw [hs, ho]; rfl, hn, hw, hblock, by simp⟩
  -- a frame that a child has just left has begun that child
  have hback {b : Frame α} {bs : List (Frame α)} (hb : others = b :: bs) (hsame : f.activity = b.activity) : f.Awaits := by
    rw [hb] at hchain
    obtain ⟨t, hchild, -⟩ := (List.isChain_cons_cons.1 hchain).1
    exact Frame.awaits_of_child (hsame ▸ hchild) hblock
  cases hdid with
  | stays =>
      cases above with
      | nil =>
          cases hstack
          rcases hacts.error with ⟨rfl, -⟩ | ⟨_, _, -, -, rfl⟩
          · exact ⟨[], f, hs, hn, hw, hblock, hnew⟩
          · cases hw
      | cons => cases hstack; exact hdeep _ rfl
  | enters =>
      rcases above with _ | ⟨_, _ | ⟨_, above⟩⟩
      · cases hstack; cases hw
      · cases hstack
        obtain ⟨hnode, hslot, hnoblock, hawaits⟩ := hacts.enter_slot hblock hw
        exact ⟨[], top, hs, hnode.trans hn, hslot, hnoblock, fun _ => hawaits⟩
      · cases hstack; exact hdeep _ rfl
  | fails =>
      cases others with
      | nil => cases hm
      | cons b others =>
          cases above with
          | nil => cases hstack; exact (hnew rfl (hback rfl rfl)).elim
          | cons => cases hstack; exact hdeep (b :: _) rfl
  | leaves =>
      cases others with
      | nil => cases hm
      | cons b others =>
          cases above with
          | nil => cases hstack; exact (hnew rfl (hback rfl (Frame.activity_receive ..))).elim
          | cons => cases hstack; exact hdeep (b :: _) rfl
  | halts => cases hm

/-- Such a number has been there since the run began. -/
theorem Sound.holds_after (hsound : m.Sound) {k : Nat} (hm : (m.after host k s).1.halted = false)
    (h : (m.after host k s).1.Holds below n w) {i : Nat} (hi : i ≤ k) : (m.after host i s).1.Holds below n w := by
  induction k with
  | zero =>
      cases Nat.le_zero.1 hi
      exact h
  | succ k ih =>
      rcases Nat.le_succ_iff.1 hi with hi | rfl
      · rw [after_succ] at hm h
        have hsound' : (m.after host k s).1.Sound := hsound.after k
        exact ih (not_halted_of_step hm) (hsound'.holds_step hm h) hi
      · exact h

/-- A frame that reads its slot fails for want of a value or of an operator. -/
theorem Sound.step_missing {f : Frame α} (hsound : m.Sound) (hm : m.halted = false) (hs : m.stack = f :: below)
    (hf : f.Awaits) : (m.step host s).result = .error f.missing ↔ f.slot = none ∨ f.Unsupported := by
  obtain ⟨k, acted, -, hacts, hdid⟩ := hsound.step_did host s hm hs
  exact hdid.error_iff.trans (hacts.missing_iff hf)

/-- A print that is an operand leaves the frame below as it is. -/
theorem Sound.step_print {g f : Frame α} {e : Node α} (hsound : m.Sound) (hs : m.stack = g :: f :: below)
    (hg : g.activity = .print e true) (hf : f.Awaits) (hr : (m.step host s).result = .ok true) :
    (m.step host s).machine.stack = f :: below := by
  have hm : m.halted = false := not_halted_of_more hr
  obtain ⟨k, acted, -, hacts, hdid⟩ := hsound.step_did host s hm hs
  have heffect := hacts.operand_leaves hg hf
  generalize m.step host s = o at hr hdid ⊢
  cases hdid with
  | stays | fails => cases hr
  | enters | halts => simp at heffect
  | leaves =>
      obtain ⟨_, ⟨⟩⟩ | ⟨⟨⟩⟩ := heffect
      rfl

/-- On any way from a record: when a print is done that an operation or a print waits for, the frame that waits is on
top as it was. Its next step fails for want of a value exactly if its slot is empty (or its operator none). A number
that it finds there has been there since the record, on the same frames, before the print was begun or while it was in
progress. In a record whose slots hold only what is due there is no such number. -/
theorem print_consumed (host : Host σ ε) {v : Value} (hv : ofValue v = .ok m) (k : Nat) (s : σ) {g f : Frame α}
    {e : Node α} (hs : (m.after host k s).1.stack = g :: f :: below) (hg : g.activity = .print e true) (hf : f.Awaits)
    (hr : (m.call host k s).result = .ok true) :
    (m.after host (k + 1) s).1.stack = f :: below ∧
      ((m.call host (k + 1) s).result = .error f.missing ↔ f.slot = none ∨ f.Unsupported) ∧
      (∀ w, f.slot = some w → ∀ i ≤ k, (m.after host i s).1.Holds below f.node w) ∧
      (m.Tidy → f.slot = none) := by
  have hsound : m.Sound := sound_ofValue hv
  have hsound' : (m.after host k s).1.Sound := hsound.after k
  have hm : (m.after host k s).1.halted = false := not_halted_of_more hr
  have hstack : (m.after host (k + 1) s).1.stack = f :: below := by
    rw [after_succ]
    exact hsound'.step_print hs hg hf hr
  have hm' : (m.after host (k + 1) s).1.halted = false := by
    rw [after_succ]
    exact (step_more hr).2
  refine ⟨hstack, (hsound.after (k + 1)).step_missing hm' hstack hf, fun w hw i hi => ?_, fun htidy => ?_⟩
  · exact hsound.holds_after hm ⟨[g], f, hs, rfl, hw, hf.not_block, by simp⟩ hi
  · refine (htidy.after k hsound : (m.after host k s).1.Tidy).idle f ?_ hf.not_block
    rw [hs]
    exact List.mem_cons_self ..

end

/-- A sum waits for a print, and a number lies in its slot that no child of it has left. -/
def staleSum : Value :=
  .record
    [Value.named "stateStack" (.list
      [.record
        [Value.named "node" (.record
          [Value.named "kind" (.text "program"), Value.named "stmts" (.list
            [.record
              [Value.named "kind" (.text "binop"), Value.named "op" (.text "+"),
                Value.named "left" (.record
                  [Value.named "kind" (.text "print"), Value.named "expr" (.record
                    [Value.named "kind" (.text "literal"), Value.named "value" (.int 1)])]),
                Value.named "right" (.record [Value.named "kind" (.text "literal"), Value.named "value" (.int 2)])]])]),
          Value.named "ctx" (.record [Value.named "index" (.int 1)])],
      .record
        [Value.named "node" (.record [Value.named "ref" (.text "stmts"), Value.named "index" (.int 0)]),
          Value.named "ctx" (.record [Value.named "state" (.int 1), Value.named "left" .null]),
          Value.named "value" (.int 99)],
      .record
        [Value.named "node" (.record [Value.named "ref" (.text "left")]),
          Value.named "ctx" (.record [Value.named "exprDone" (.bool false)])]]),
      Value.named "halted" (.bool false)]

/-- The sum when its print is done. -/
def staleFrame : Frame Empty :=
  ⟨some [.statement 0], .binary "+" (.print (.literal (.int 1))) (.literal (.int 2)) (.onLeft none), some (.int 99)⟩

def staleRoot : Frame Empty :=
  ⟨some [], .block [.binary "+" (.print (.literal (.int 1))) (.literal (.int 2))] [], none⟩

def stale : Machine Empty :=
  ⟨[⟨some [.left, .statement 0], .print (.literal (.int 1)) false, none⟩, staleFrame, staleRoot], false, 0⟩

/-- A host that counts what it prints. -/
def countingHost : Host Nat Empty := ⟨fun _ n => (.ok (), n + 1), fun _ n => n⟩

/-- The print is done and has left nothing, yet the sum takes its left operand from the slot: 99 and 2 are added. -/
theorem stale_used :
    ofValue staleSum = .ok stale ∧
      (stale.after countingHost 2 0).1.stack =
        [⟨some [.left, .statement 0], .print (.literal (.int 1)) true, some (.int 1)⟩, staleFrame, staleRoot] ∧
      (stale.call countingHost 2 0).result = .ok true ∧
      (stale.after countingHost 3 0).1.stack = [staleFrame, staleRoot] ∧
      (stale.call countingHost 3 0).result = .ok true ∧
      (stale.after countingHost 7 0).1.halted = true ∧
      (stale.after countingHost 7 0).1.value = some (.int 101) := by
  decide +kernel

theorem print_consumed_staleSum :
    ofValue staleSum = .ok stale ∧ (stale.after countingHost 3 0).1.stack = [staleFrame, staleRoot] ∧
      ((stale.call countingHost 3 0).result = .error (.valuelessOperand .leftOperand) ↔
        staleFrame.slot = none ∨ staleFrame.Unsupported) ∧
      (∀ w, staleFrame.slot = some w →
        ∀ i ≤ 2, (stale.after countingHost i 0).1.Holds [staleRoot] staleFrame.node w) ∧
      (stale.Tidy → staleFrame.slot = none) := by
  have hread : ofValue staleSum = .ok stale := by decide +kernel
  have hstack : (stale.after countingHost 2 0).1.stack =
      [⟨some [.left, .statement 0], .print (.literal (.int 1)) true, some (.int 1)⟩, staleFrame, staleRoot] := by
    decide +kernel
  have hawaits : staleFrame.Awaits := Nat.one_ne_zero
  exact ⟨hread, print_consumed countingHost hread 2 0 hstack rfl hawaits (by decide +kernel)⟩

end Machine
end Pausable
