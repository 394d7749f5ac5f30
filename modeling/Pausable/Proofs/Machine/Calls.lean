import Pausable.Proofs.Machine.Stuck

/-!
What a sink that may fail is called for. Every frame that a machine begins is given a number, which it keeps when a copy
takes the place of the machine, and every call of the sink is noted under the number of the frame that makes it. No
number is noted twice (`History.calls_once`): behind a call the frame is gone, or the machine has halted, or it is stuck
with an empty slot.
-/
namespace Pausable

variable {σ ε : Type}

/-- A call of the sink: the number of the frame, what it hands on, and whether the sink fails. -/
structure Call where
  activation : Nat
  number : Number
  failed : Bool
deriving DecidableEq

/-- The sink with all its calls, the latest first. -/
def Call.noted (print : Number → σ → Except ε Unit × σ) (activation : Nat) (v : Number) (s : σ × List Call) :
    Except ε Unit × (σ × List Call) :=
  ((print v s.1).1, (print v s.1).2, ⟨activation, v, !(print v s.1).1.isOk⟩ :: s.2)

/-- A machine with the calls of its sink, and with the numbers of its frames, the top one first. -/
structure History (σ : Type) where
  machine : Machine Empty
  world : σ × List Call
  active : List Nat
  /-- The number of the next frame that begins. -/
  fresh : Nat

namespace History

def calls (h : History σ) : List Call := h.world.2

def start (n : Node Empty) (s : σ) : History σ := ⟨.ofRoot n, (s, []), [0], 1⟩

section

variable (print : Number → σ → Except ε Unit × σ)

/-- The next step. Its calls are made by the top frame. -/
def next (h : History σ) : Outcome Empty (σ × List Call) ε :=
  h.machine.step (.ofPrint (Call.noted print (h.active.headD 0))) h.world

/-- A step gives a frame that it begins a number, and takes that of a frame that leaves. -/
def occur (h : History σ) : Event → History σ
  | .step =>
    let o := h.next print
    if h.machine.depth < o.machine.depth then ⟨o.machine, o.world, h.fresh :: h.active, h.fresh + 1⟩
    else ⟨o.machine, o.world, h.active.drop (h.machine.depth - o.machine.depth), h.fresh⟩
  | .reload r => { h with machine := h.machine.reloaded r }

def after (h : History σ) (events : List Event) : History σ := events.foldl (occur print) h

end

end History

/-! ## One step -/

namespace Machine

variable {print : Number → σ → Except ε Unit × σ} {m : Machine Empty}

/-- The top frame is a print whose operand has left it a number. -/
def Prints (m : Machine Empty) (v : Number) : Prop :=
  ∃ place operand below, m.stack = ⟨place, .print operand true, some v⟩ :: below

/-- The calls of the sink in a step that a frame with a number does. -/
inductive Calling (print : Number → σ → Except ε Unit × σ) (a : Nat) (m : Machine Empty) (s : σ × List Call)
    (o : Outcome Empty (σ × List Call) ε) : Prop where
  | silent : o.world = s → Calling print a m s o
  /-- The sink fails, and leaves the machine stuck. -/
  | failed {v} : m.Prints v → o.world.2 = ⟨a, v, true⟩ :: s.2 → o.machine.depth = m.depth →
      o.machine.Stuck (.valuelessOperand .print : Fault ε) → Calling print a m s o
  /-- The sink does not fail, and the frame leaves. -/
  | printed {v} : m.Prints v → o.world.2 = ⟨a, v, false⟩ :: s.2 →
      o.machine.halted = true ∨ o.machine.depth < m.depth → Calling print a m s o

/-- Where the top frame leaves, it goes or the machine halts. -/
theorem depth_leave (f : Frame Empty) (below : List (Frame Empty)) :
    (m.leave f below).halted = true ∧ (m.leave f below).depth = below.length + 1 ∨
      (m.leave f below).depth < below.length + 1 := by
  cases below with
  | nil => exact .inl ⟨rfl, rfl⟩
  | cons b below => exact .inr (Nat.lt_succ_self _)

theorem depth_deliver (m : Machine Empty) (v : Option Number) :
    (m.deliver v).halted = m.halted ∧ (m.deliver v).depth = m.depth := by
  obtain ⟨stack, halted, steps⟩ := m
  cases stack <;> exact ⟨rfl, rfl⟩

/-- What a step does to the depth of the stack. -/
theorem depth_step_le (host : Host σ ε) (m : Machine Empty) (s : σ) : (m.step host s).machine.depth ≤ m.depth + 1 := by
  cases hm : m.halted with
  | true =>
      rw [step_of_halted hm]
      exact Nat.le_succ _
  | false =>
      cases hs : m.stack with
      | nil => simp [step, hm, hs]
      | cons top below =>
          have hdepth : m.depth = below.length + 1 := by rw [depth, hs, List.length_cons]
          have hmoved := step_moved host s hm hs
          generalize m.step host s = o at hmoved ⊢
          rw [hdepth]
          cases hmoved with
          | stays => exact Nat.le_succ _
          | enters => exact Nat.le_refl _
          | @fails f =>
              have hleave := depth_leave (m := m) f below
              exact Nat.le_succ_of_le (show (m.leave f below).depth ≤ _ by omega)
          | @leaves f v =>
              have hleave := depth_leave (m := m) f below
              have hdeliver := (depth_deliver (m.leave f below) v).2
              exact Nat.le_succ_of_le (show ((m.leave f below).deliver v).depth ≤ _ by omega)
          | halts hf hb => exact Nat.le_succ_of_le (Nat.le_add_left ..)

/-- The sink is called at most once, by a print on top of the stack. -/
theorem Linked.calling (h : m.Linked) (a : Nat) (s : σ × List Call) :
    Calling print a m s (m.step (.ofPrint (Call.noted print a)) s) := by
  cases hm : m.halted with
  | true =>
      rw [step_of_halted hm]
      exact .silent rfl
  | false =>
      obtain ⟨top, below, hs⟩ := h.stack_eq
      obtain ⟨k, acted, hacted, hacts, hdid⟩ := h.sound.step_did (.ofPrint (Call.noted print a)) s hm hs
      have hworld : (m.step (.ofPrint (Call.noted print a)) s).world = acted.world := by
        obtain ⟨stack, halted, steps⟩ := m
        cases hm; cases hs
        obtain ⟨k, hk⟩ := Frame.kind_native (ε := ε) top.node.native_empty
        simp only [acted?, hk, Option.some.injEq] at hacted
        rw [step_of_kind (fun _ _ => rfl) hk, carry_world fun _ _ => rfl, ← hacted]
        rfl
      have hdepth : m.depth = below.length + 1 := by rw [depth, hs, List.length_cons]
      generalize m.step (.ofPrint (Call.noted print a)) s = o at hdid hworld ⊢
      cases hacts with
      | literal | left | noLeft | right | unsupported | noRight | tooLarge | applied | operand | noOperand | statement
      | last | halt | foreign => exact .silent hworld
      | @refused place operand v u t hprint =>
          have hnoted : Call.noted print a v s = (.error u, t) := hprint
          obtain ⟨hfails, rfl⟩ := Prod.mk.inj hnoted
          cases hdid
          refine .failed ⟨place, operand, below, hs⟩ (by rw [hworld, hfails]; rfl) (by rw [hdepth]; rfl) ?_
          exact ⟨hm, _, below, rfl, ⟨rfl, .inl rfl⟩, rfl⟩
      | @printed place operand v t hprint =>
          have hnoted : Call.noted print a v s = (.ok (), t) := hprint
          obtain ⟨hfails, rfl⟩ := Prod.mk.inj hnoted
          refine .printed ⟨place, operand, below, hs⟩ (by rw [hworld, hfails]; rfl) ?_
          generalize Frame.handOn v below = left at hdid
          rw [hdepth]
          cases hdid with
          | fails => exact (depth_leave _ below).imp_left And.left
          | @leaves _ _ w =>
              have hleave := depth_leave (m := m) ⟨place, .print operand true, none⟩ below
              have hdeliver := depth_deliver (m.leave ⟨place, .print operand true, none⟩ below) w
              refine hleave.imp (fun hhalt => hdeliver.1.trans hhalt.1) fun hless => ?_
              exact lt_of_eq_of_lt hdeliver.2 hless

/-- A machine that is stuck for want of a value is so after a copy. -/
theorem Stuck.reloaded (hl : m.Linked) {c : Consumer} (h : m.Stuck (.valuelessOperand c : Fault ε)) (r : Route) :
    (m.reloaded r).Stuck (.valuelessOperand c : Fault ε) := by
  rcases hl.reloaded r with hr | hr <;> rw [hr]
  · exact h
  · exact (h.respelled r.spelling_spelling).recounted rfl

end Machine

/-! ## Whole histories -/

namespace History

variable {print : Number → σ → Except ε Unit × σ} {h : History σ}

/-- Every frame has a number of its own. -/
structure Numbered (h : History σ) : Prop where
  linked : h.machine.Linked
  length : h.active.length = h.machine.depth
  nodup : h.active.Nodup
  lt_fresh : ∀ a ∈ h.active, a < h.fresh

/-- The machine has halted, or it is stuck with a print that has nothing to print. -/
def Done (ε : Type) (h : History σ) : Prop :=
  h.machine.halted = true ∨ h.machine.Stuck (.valuelessOperand .print : Fault ε)

/-- No number has two calls, and none has a call to come. -/
structure Once (ε : Type) (h : History σ) : Prop extends h.Numbered where
  distinct : (h.calls.map Call.activation).Nodup
  old : ∀ c ∈ h.calls, c.activation < h.fresh
  done : ∀ c ∈ h.calls, c.activation ∈ h.active → h.Done ε
  failed : ∀ c ∈ h.calls, c.failed = true → h.machine.Stuck (.valuelessOperand .print : Fault ε)
  last : ∀ c ∈ h.calls.tail, c.failed = false

theorem once_start (n : Node Empty) (s : σ) : (start n s).Once ε where
  linked := Machine.linked_ofRoot n
  length := rfl
  nodup := List.nodup_singleton 0
  lt_fresh := by simp [start]
  distinct := .nil
  old := nofun
  done := nofun
  failed := nofun
  last := nofun

/-- The sink finds the world as it would without the notes. -/
theorem next_mirrors (print : Number → σ → Except ε Unit × σ) (h : History σ) :
    h.machine.step (.ofPrint print) h.world.1 =
      ⟨(h.next print).machine, (h.next print).world.1, (h.next print).result⟩ := by
  have hmirrors : (Host.ofPrint (Call.noted print (h.active.headD 0))).Mirrors (fun s t => t = s.1) (.ofPrint print) :=
    ⟨fun v hs => by subst hs; exact ⟨rfl, rfl⟩, fun _ _ hs => hs⟩
  obtain ⟨hmachine, hworld, hresult⟩ := Machine.step_mirrored hmirrors rfl h.machine 0
  rw [show h.machine.counted 0 = h.machine from rfl] at hmachine hworld hresult
  generalize h.machine.step (.ofPrint print) h.world.1 = o at hmachine hworld hresult ⊢
  obtain ⟨m, s, r⟩ := o
  cases hmachine
  cases hworld
  cases hresult
  rfl

/-- A step of a machine that is done is none. -/
theorem occur_done (hd : h.Done ε) : h.occur print .step = h := by
  have hnext : (h.next print).machine = h.machine ∧ (h.next print).world = h.world := by
    rcases hd with hm | hstuck
    · rw [next, Machine.step_of_halted hm]
      exact ⟨rfl, rfl⟩
    · rw [next, hstuck.step_eq fun _ _ => rfl]
      exact ⟨rfl, rfl⟩
  simp only [occur, hnext, Nat.lt_irrefl, ↓reduceIte, Nat.sub_self, List.drop_zero]

/-- What a step does to the numbers. -/
theorem active_step (print : Number → σ → Except ε Unit × σ) (h : History σ) :
    let h' := h.occur print .step
    h'.machine = (h.next print).machine ∧ h'.world = (h.next print).world ∧
      (h'.active = h.fresh :: h.active ∧ h'.fresh = h.fresh + 1 ∧ h'.machine.depth = h.machine.depth + 1 ∨
        h'.active = h.active.drop (h.machine.depth - h'.machine.depth) ∧ h'.fresh = h.fresh ∧
          h'.machine.depth ≤ h.machine.depth) := by
  intro h'
  have hle : (h.next print).machine.depth ≤ h.machine.depth + 1 := Machine.depth_step_le ..
  by_cases hless : h.machine.depth < (h.next print).machine.depth
  · have hh : h' = ⟨(h.next print).machine, (h.next print).world, h.fresh :: h.active, h.fresh + 1⟩ := if_pos hless
    rw [hh]
    exact ⟨rfl, rfl, .inl ⟨rfl, rfl, Nat.le_antisymm hle hless⟩⟩
  · have hh : h' = ⟨(h.next print).machine, (h.next print).world,
        h.active.drop (h.machine.depth - (h.next print).machine.depth), h.fresh⟩ := if_neg hless
    rw [hh]
    exact ⟨rfl, rfl, .inr ⟨rfl, rfl, Nat.le_of_not_lt hless⟩⟩

theorem Numbered.step (hn : h.Numbered) : (h.occur print .step).Numbered := by
  obtain ⟨hmachine, -, hactive⟩ := active_step print h
  have hlinked : (h.occur print .step).machine.Linked := hmachine ▸ hn.linked.step
  have hlength := hn.length
  rcases hactive with ⟨hactive, hfresh, hdepth⟩ | ⟨hactive, hfresh, hdepth⟩
  · refine ⟨hlinked, by rw [hactive, List.length_cons]; omega, ?_, ?_⟩
    · rw [hactive]
      exact List.nodup_cons.2 ⟨fun hmem => Nat.lt_irrefl _ (hn.lt_fresh _ hmem), hn.nodup⟩
    · rw [hactive, hfresh]
      exact List.forall_mem_cons.2 ⟨Nat.lt_succ_self _, fun a ha => Nat.lt_succ_of_lt (hn.lt_fresh a ha)⟩
  · refine ⟨hlinked, by rw [hactive, List.length_drop]; omega, ?_, ?_⟩
    · rw [hactive]
      exact hn.nodup.sublist (List.drop_sublist ..)
    · rw [hactive, hfresh]
      exact fun a ha => hn.lt_fresh a (List.mem_of_mem_drop ha)

theorem Numbered.active_eq (hn : h.Numbered) : ∃ rest, h.active = h.active.headD 0 :: rest := by
  obtain ⟨top, below, hs⟩ := hn.linked.stack_eq
  have hlength := hn.length
  rw [Machine.depth, hs] at hlength
  obtain ⟨a, rest, hactive⟩ := List.exists_cons_of_length_eq_add_one hlength
  exact ⟨rest, by rw [hactive]; rfl⟩

/-- The calls of a step: none, or one under the number of the top frame, which is done with it. -/
theorem Numbered.calls_step (print : Number → σ → Except ε Unit × σ) (hn : h.Numbered) :
    let h' := h.occur print .step
    h'.calls = h.calls ∨ ∃ v failed, h.machine.Prints v ∧ h'.calls = ⟨h.active.headD 0, v, failed⟩ :: h.calls ∧
      (h.active.headD 0 ∈ h'.active → h'.Done ε) ∧
      (failed = true → h'.machine.Stuck (.valuelessOperand .print : Fault ε)) := by
  intro h'
  obtain ⟨hmachine, hworld, hactive⟩ := active_step print h
  have hcalling : Machine.Calling print (h.active.headD 0) h.machine h.world (h.next print) := hn.linked.calling ..
  cases hcalling with
  | silent hw => exact .inl (by rw [calls, hworld, hw]; rfl)
  | @failed v hv hw hdepth hstuck =>
      rw [← hmachine] at hstuck
      exact .inr ⟨v, true, hv, by rw [calls, hworld, hw]; rfl, fun _ => .inr hstuck, fun _ => hstuck⟩
  | @printed v hv hw hleaves =>
      refine .inr ⟨v, false, hv, by rw [calls, hworld, hw]; rfl, fun hmem => ?_, nofun⟩
      rw [← hmachine] at hleaves
      refine .inl (hleaves.resolve_right fun hless => ?_)
      obtain ⟨rest, hrest⟩ := hn.active_eq
      rcases hactive with ⟨-, -, hdepth⟩ | ⟨hdrop, -, -⟩
      · omega
      · -- the frame of the call has left, and no other one has its number
        obtain ⟨j, hj⟩ := Nat.exists_eq_add_of_lt hless
        have hnodup := hn.nodup
        rw [hrest] at hnodup hdrop
        rw [show h.machine.depth - (h.occur print .step).machine.depth = j + 1 by omega, List.drop_succ_cons] at hdrop
        rw [hdrop] at hmem
        exact (List.nodup_cons.1 hnodup).1 (List.mem_of_mem_drop hmem)

/-- A step of a machine that is not done calls the sink for a number that has no call yet, if at all. -/
theorem Once.step (ho : h.Once ε) : (h.occur print .step).Once ε := by
  by_cases hd : h.Done ε
  · rwa [occur_done hd]
  have hfree : ∀ c ∈ h.calls, c.activation ∉ h.active := fun c hc hmem => hd (ho.done c hc hmem)
  have hnone : ∀ c ∈ h.calls, ¬ c.failed = true := fun c hc hf => hd (.inr (ho.failed c hc hf))
  obtain ⟨-, -, hactive⟩ := active_step print h
  -- no number comes back
  have hold : ∀ c ∈ h.calls, c.activation < (h.occur print .step).fresh ∧
      c.activation ∉ (h.occur print .step).active := by
    intro c hc
    have hlt := ho.old c hc
    rcases hactive with ⟨hactive, hfresh, -⟩ | ⟨hactive, hfresh, -⟩
    · rw [hactive, hfresh, List.mem_cons, not_or]
      exact ⟨Nat.lt_succ_of_lt hlt, Nat.ne_of_lt hlt, hfree c hc⟩
    · rw [hactive, hfresh]
      exact ⟨hlt, fun hmem => hfree c hc (List.mem_of_mem_drop hmem)⟩
  have hnumbered : (h.occur print .step).Numbered := ho.toNumbered.step
  rcases ho.toNumbered.calls_step print with hcalls | ⟨v, failed, -, hcalls, hdone, hfailed⟩
  · refine ⟨hnumbered, ?_, ?_, ?_, ?_, ?_⟩ <;> rw [hcalls]
    · exact ho.distinct
    · exact fun c hc => (hold c hc).1
    · exact fun c hc hmem => ((hold c hc).2 hmem).elim
    · exact fun c hc hf => (hnone c hc hf).elim
    · exact ho.last
  · obtain ⟨rest, hrest⟩ := ho.active_eq
    have htop : h.active.headD 0 ∈ h.active := hrest ▸ List.mem_cons_self ..
    refine ⟨hnumbered, ?_, ?_, ?_, ?_, ?_⟩ <;> rw [hcalls]
    · rw [List.map_cons, List.nodup_cons]
      refine ⟨fun hmem => ?_, ho.distinct⟩
      obtain ⟨c, hc, hactivation⟩ := List.mem_map.1 hmem
      exact hfree c hc (hactivation ▸ htop)
    · refine List.forall_mem_cons.2 ⟨?_, fun c hc => (hold c hc).1⟩
      have hlt := ho.lt_fresh _ htop
      rcases hactive with ⟨-, hfresh, -⟩ | ⟨-, hfresh, -⟩ <;> rw [hfresh]
      · exact Nat.lt_succ_of_lt hlt
      · exact hlt
    · exact List.forall_mem_cons.2 ⟨hdone, fun c hc hmem => ((hold c hc).2 hmem).elim⟩
    · exact List.forall_mem_cons.2 ⟨hfailed, fun c hc hf => (hnone c hc hf).elim⟩
    · exact fun c hc => Bool.eq_false_iff.2 (hnone c hc)

theorem Once.reload (ho : h.Once ε) (r : Route) : (h.occur print (.reload r)).Once ε := by
  have hlinked : (h.machine.reloaded r).Linked := ho.linked.reload_keeps r
  have hkeeps : (h.machine.reloaded r).depth = h.machine.depth ∧ (h.machine.reloaded r).halted = h.machine.halted := by
    rcases ho.linked.reloaded r with hr | hr <;> rw [hr]
    · exact ⟨rfl, rfl⟩
    · exact ⟨List.length_map .., rfl⟩
  obtain ⟨hdepth, hhalted⟩ := hkeeps
  exact {
    linked := hlinked
    length := ho.length.trans hdepth.symm
    nodup := ho.nodup
    lt_fresh := ho.lt_fresh
    distinct := ho.distinct
    old := ho.old
    done := fun c hc hmem => (ho.done c hc hmem).imp (hhalted.trans ·) fun hstuck => hstuck.reloaded ho.linked r
    failed := fun c hc hf => (ho.failed c hc hf).reloaded ho.linked r
    last := ho.last }

theorem Once.after (ho : h.Once ε) (events : List Event) : (h.after print events).Once ε := by
  induction events generalizing h with
  | nil => exact ho
  | cons event events ih =>
      cases event with
      | step => exact ih ho.step
      | reload r => exact ih (ho.reload r)

/-- The machine and its world are what they would be without notes and numbers. -/
theorem after_eq_undergo (h : History σ) (events : List Event) :
    h.machine.undergo (.ofPrint print) events h.world.1 = ((h.after print events).machine, (h.after print events).world.1) := by
  induction events generalizing h with
  | nil => rfl
  | cons event events ih =>
      cases event with
      | step =>
          obtain ⟨hmachine, hworld, -⟩ := active_step print h
          have hrest := ih (h.occur print .step)
          rw [hmachine, hworld] at hrest
          rw [Machine.undergo, next_mirrors]
          exact hrest
      | reload r => exact ih (h.occur print (.reload r))

/-- A machine that is stuck behind a failed call stays so, and the sink is not called again. -/
theorem after_stuck (hl : h.machine.Linked) (hstuck : h.machine.Stuck (.valuelessOperand .print : Fault ε))
    (events : List Event) : (h.after print events).world = h.world ∧
      ((h.after print events).next print).result = .error (.valuelessOperand .print) := by
  induction events generalizing h with
  | nil =>
      refine ⟨rfl, ?_⟩
      have hstep : h.next print = ⟨h.machine, h.world, .error (.valuelessOperand .print)⟩ :=
        hstuck.step_eq fun _ _ => rfl
      exact congrArg Outcome.result hstep
  | cons event events ih =>
      cases event with
      | step =>
          have hsame : h.occur print .step = h := occur_done (.inr hstuck)
          obtain ⟨hworld, hresult⟩ := ih hl hstuck
          rw [after, List.foldl_cons, hsame]
          exact ⟨hworld, hresult⟩
      | reload r =>
          exact ih (h := h.occur print (.reload r)) (hl.reload_keeps r) (hstuck.reloaded hl r)

/-- Whatever steps and copies a machine undergoes, and whenever its sink fails, no frame calls the sink twice. Only a
print with a number in its slot calls it, for that number. When a call has failed, every later step fails for want of
a value, and there is no other call. -/
theorem calls_once (print : Number → σ → Except ε Unit × σ) (n : Node Empty) (s : σ) (events : List Event) :
    let h := (start n s).after print events
    (Machine.start n = .ok (.ofRoot n) ∧
      (Machine.ofRoot n).undergo (.ofPrint print) events s = (h.machine, h.world.1)) ∧
    (h.active.length = h.machine.depth ∧ h.active.Nodup) ∧
    ((h.occur print .step).calls = h.calls ∨ ∃ v failed, h.machine.Prints v ∧
      (h.occur print .step).calls = ⟨h.active.headD 0, v, failed⟩ :: h.calls) ∧
    (h.calls.map Call.activation).Nodup ∧ (∀ c ∈ h.calls.tail, c.failed = false) ∧
    ∀ c ∈ h.calls, c.failed = true → ∀ later, let h' := h.after print later
      h'.world = h.world ∧ (h'.next print).result = .error (.valuelessOperand .print) := by
  intro h
  have ho : h.Once ε := (once_start n s).after events
  refine ⟨⟨Machine.start_ofRoot n, after_eq_undergo (start n s) events⟩, ⟨ho.length, ho.nodup⟩, ?_, ho.distinct, ho.last,
    fun c hc hf later => after_stuck ho.linked (ho.failed c hc hf) later⟩
  rcases ho.toNumbered.calls_step print with hsame | ⟨v, failed, hv, hcalls, -⟩
  · exact .inl hsame
  · exact .inr ⟨v, failed, hv, hcalls⟩

/-- The second of two prints fails, in a copy, and is tried again in another copy. -/
theorem calls_once_refused :
    let print : Number → Unit → Except Unit Unit × Unit := fun v s => (if v = .int 2 then .error () else .ok (), s)
    let n : Node Empty := .block [.print (.literal (.int 1)), .print (.literal (.int 2))]
    let h := (start n ()).after print (List.replicate 7 .step ++ [.reload .text, .step])
    h.calls = [⟨3, .int 2, true⟩, ⟨1, .int 1, false⟩] ∧ (h.calls.map Call.activation).Nodup ∧
      ((h.after print [.reload .json]).next print).result = .error (.valuelessOperand .print) := by
  intro print n h
  have hcalls : h.calls = [⟨3, .int 2, true⟩, ⟨1, .int 1, false⟩] := by decide +kernel
  obtain ⟨-, -, -, hnodup, -, hlater⟩ := calls_once print n () (List.replicate 7 .step ++ [.reload .text, .step])
  refine ⟨hcalls, hnodup, (hlater ⟨3, .int 2, true⟩ ?_ rfl [.reload .json]).2⟩
  have hmem : (⟨3, .int 2, true⟩ : Call) ∈ h.calls := by
    rw [hcalls]
    exact List.mem_cons_self ..
  exact hmem

end History

end Pausable
