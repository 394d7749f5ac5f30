import Pausable.Proofs.Machine.Steps

/-!
What lies in the slots of a machine that runs from a tree, past steps that fail too. Below the top only blocks keep
a value, and a frame that has begun no child has none (`Machine.Tidy`). So what an operation or a print finds in its
slot was left there by the child that it began last (`Machine.slots_after`).
-/
namespace Pausable

variable {α σ ε : Type}

namespace Frame

/-- The frame has begun a child whose value it reads from its slot. -/
def Awaits (f : Frame α) : Prop :=
  match f.activity with
  | .binary _ _ _ stage => stage.number ≠ 0
  | .print _ begun => begun = true
  | .literal _ | .block .. | .foreign _ => False

/-- Nothing lies in the slot that no child can have left there, and the left operand is known exactly in the last
stage. Only a literal that has halted the machine keeps its own value. -/
def Tidy (live : Bool) (f : Frame α) : Prop :=
  match f.activity with
  | .literal _ => live = true → f.slot = none
  | .binary _ _ _ stage => (stage.number = 0 → f.slot = none) ∧ (stage.left?.isSome = true ↔ stage.number = 2)
  | .print _ begun => begun = false → f.slot = none
  | .block .. | .foreign _ => True

/-- Only blocks keep a value while a child of theirs is on its way. -/
def Idle (f : Frame α) : Prop := (∀ begun waiting, f.activity ≠ .block begun waiting) → f.slot = none

variable {f g top : Frame α}

theorem Awaits.not_block (h : f.Awaits) (begun waiting : List (Node α)) : f.activity ≠ .block begun waiting := by
  intro ha
  rw [Awaits, ha] at h
  exact h

theorem Awaits.of_activity (h : f.Awaits) (hg : f.activity = g.activity) : g.Awaits := by
  rw [Awaits, hg] at h
  exact h

theorem awaits_of_child {t : Node.Turn} {c : Node α} (h : f.activity.child? = some (t, c))
    (hne : ∀ begun waiting, f.activity ≠ .block begun waiting) : f.Awaits := by
  obtain ⟨place, a, slot⟩ := f
  cases a with
  | literal | foreign => cases h
  | block => exact (hne _ _ rfl).elim
  | binary s l r stage =>
      cases stage with
      | before => cases h
      | onLeft | onRight => exact Nat.succ_ne_zero _
  | print e begun =>
      cases begun with
      | false => cases h
      | true => rfl

theorem not_awaits_start (p : Option (List Node.Turn)) (n : Node α) (v : Option Number) :
    ¬ (⟨p, .start n, v⟩ : Frame α).Awaits := by
  intro h
  cases n with
  | literal | block | foreign => exact h
  | binary => exact h rfl
  | print => cases h

theorem activity_receive (f : Frame α) (v : Option Number) : (f.receive v).activity = f.activity := by
  cases v <;> rfl

theorem tidy_start (p : Option (List Node.Turn)) (n : Node α) : (⟨p, .start n, none⟩ : Frame α).Tidy true := by
  cases n with
  | literal => exact fun _ => rfl
  | binary => exact ⟨fun _ => rfl, by decide⟩
  | print => exact fun _ => rfl
  | block | foreign => trivial

theorem Tidy.empty {live : Bool} (h : f.Tidy live) : ({ f with slot := none } : Frame α).Tidy live := by
  obtain ⟨place, a, slot⟩ := f
  cases a with
  | literal => exact fun _ => rfl
  | binary => exact ⟨fun _ => rfl, h.2⟩
  | print => exact fun _ => rfl
  | block | foreign => trivial

theorem Tidy.receive {t : Node.Turn} {c : Node α} (h : f.Tidy true) (hc : f.activity.child? = some (t, c))
    (v : Option Number) : (f.receive v).Tidy true := by
  obtain ⟨place, a, slot⟩ := f
  cases a with
  | literal | foreign => cases hc
  | block => cases v <;> trivial
  | binary s l r stage =>
      have hstage : stage.number ≠ 0 := by
        cases stage with
        | before => cases hc
        | onLeft | onRight => exact Nat.succ_ne_zero _
      cases v with
      | none => exact h
      | some => exact ⟨fun h0 => (hstage h0).elim, h.2⟩
  | print e begun =>
      cases begun with
      | false => cases hc
      | true => cases v <;> exact fun h => by cases h

theorem tidy_of_work (h : f.activity.work = 1) : f.Tidy false := by
  obtain ⟨place, a, slot⟩ := f
  cases a with
  | literal => exact fun h => by cases h
  | block | foreign => trivial
  | binary s l r stage =>
      have hl := l.count_pos
      have hr := r.count_pos
      cases stage with
      | before | onLeft =>
          simp only [Activity.work] at h
          omega
      | onRight => exact ⟨(fun h => by cases h), by simp [Stage.left?, Stage.number]⟩
  | print e begun =>
      have he := e.count_pos
      cases begun with
      | true => exact fun h => by cases h
      | false =>
          simp only [Activity.work, Bool.false_eq_true, ↓reduceIte] at h
          omega

section

variable [Strange α] {host : Host σ ε} {below : List (Frame α)} {s t : σ}

theorem Tidy.stay {e : Fault ε} (h : top.Tidy true) (ha : top.Acts host below s ⟨f, t, .error e⟩) : f.Tidy true := by
  rcases ha.error with ⟨rfl, -⟩ | ⟨_, _, -, -, rfl⟩
  · exact h
  · exact h.empty

/-- A frame begins a child only with an empty slot, unless it is a block. -/
theorem Tidy.enter {turn : Node.Turn} {c : Node α} (h : top.Tidy true)
    (ha : top.Acts host below s ⟨f, t, .ok (.enter g turn c)⟩) : g.Tidy true ∧ g.Idle := by
  cases ha with
  | @left _ _ _ _ left =>
      have hleft : left.isSome = true ↔ 0 = 2 := h.2
      exact ⟨⟨fun _ => h.1 rfl, hleft.trans (by simp [Stage.number])⟩, fun _ => h.1 rfl⟩
  | right => exact ⟨⟨fun _ => rfl, by simp [Stage.left?, Stage.number]⟩, fun _ => rfl⟩
  | operand => exact ⟨(fun h => by cases h), fun _ => h rfl⟩
  | statement => exact ⟨trivial, fun hne => (hne _ _ rfl).elim⟩

theorem tidy_done {effect : Effect α ε} (ha : top.Acts host below s ⟨f, t, .ok effect⟩)
    (hne : ∀ g turn c, effect ≠ .enter g turn c) (v : Option Number) : (f.receive v).Tidy false := by
  obtain ⟨hactivity, hwork⟩ := ha.done hne
  exact tidy_of_work (by rw [activity_receive, hactivity, hwork])

end

end Frame

namespace Machine

/-- No slot of the machine holds a value that is not due there. -/
structure Tidy (m : Machine α) : Prop where
  frames : ∀ f ∈ m.stack, f.Tidy !m.halted
  idle : ∀ f ∈ m.stack.tail, f.Idle

theorem tidy_single {f : Frame α} {halted : Bool} {j : Nat} (h : f.Tidy !halted) : Tidy ⟨[f], halted, j⟩ :=
  ⟨List.forall_mem_singleton.2 h, List.forall_mem_nil _⟩

theorem tidy_ofRoot (n : Node α) : (ofRoot n).Tidy := tidy_single (Frame.tidy_start _ n)

namespace Tidy

variable [Strange α] {host : Host σ ε} {m : Machine α} {s : σ}

theorem step (h : m.Tidy) (hsound : m.Sound) : (m.step host s).machine.Tidy := by
  cases hm : m.halted with
  | true => rw [step_of_halted hm]; exact h
  | false =>
      obtain ⟨top, below, hs⟩ := hsound.stack_eq
      obtain ⟨k, acted, -, hacts, hdid⟩ := hsound.step_did host s hm hs
      have hframes := h.frames
      have hidle := h.idle
      rw [hs, hm, Bool.not_false] at hframes
      rw [hs, List.tail_cons] at hidle
      obtain ⟨htop, hbelow⟩ := List.forall_mem_cons.1 hframes
      generalize m.step host s = o at hdid ⊢
      have hlive : (!m.halted) = true := by rw [hm]; rfl
      cases hdid with
      | stays =>
          refine ⟨List.forall_mem_cons.2 ⟨?_, ?_⟩, hidle⟩
          · rw [hlive]; exact htop.stay hacts
          · rw [hlive]; exact hbelow
      | enters =>
          obtain ⟨htidy, hidle'⟩ := htop.enter hacts
          exact ⟨List.forall_mem_cons.2 ⟨Frame.tidy_start _ _, List.forall_mem_cons.2 ⟨htidy, hbelow⟩⟩,
            List.forall_mem_cons.2 ⟨hidle', hidle⟩⟩
      | fails =>
          have hdone := Frame.tidy_done hacts (by simp) none
          cases below with
          | nil => exact tidy_single hdone
          | cons b below => exact ⟨by simpa only [Machine.leave, hlive] using hbelow, (List.forall_mem_cons.1 hidle).2⟩
      | leaves =>
          rename_i v _
          have hdone := Frame.tidy_done hacts (by simp) v
          cases below with
          | nil => exact tidy_single hdone
          | cons b below =>
              have hpath := hsound.path.chain
              rw [hs] at hpath
              obtain ⟨t, hchild, -⟩ := (List.isChain_cons_cons.1 hpath).1
              obtain ⟨hb, hbelow⟩ := List.forall_mem_cons.1 hbelow
              refine ⟨?_, (List.forall_mem_cons.1 hidle).2⟩
              simp only [Machine.leave, deliver, tick, hlive]
              exact List.forall_mem_cons.2 ⟨hb.receive hchild v, hbelow⟩
      | halts hb =>
          subst hb
          exact tidy_single (Frame.tidy_done hacts (by simp) none)

theorem after (k : Nat) (h : m.Tidy) (hsound : m.Sound) : (m.after host k s).1.Tidy := by
  induction k generalizing m s with
  | zero => exact h
  | succ k ih => exact ih (h.step hsound) hsound.step

end Tidy

/-! ## Where a value in a slot comes from -/

section

variable [Strange α] (host : Host σ ε) (m : Machine α) (s : σ) (f : Frame α) (below : List (Frame α))

/-- The child that the frame on top after `k` calls began last left in the call after the first `j` ones, with a value
or none, or with the fault of leaving. All calls since then have failed. -/
structure Arrived (k j : Nat) (r : Except (Fault ε) (Option Number)) : Prop where
  lt : j < k
  child : ∃ g, (m.after host j s).1.stack = g :: { f with slot := none } :: below ∧ g.IsChild { f with slot := none }
  left : (m.after host j s).1.yield? host (m.after host j s).2 = some r
  since : ∀ i, j < i → i < k → ∃ v e, (m.after host i s).1.stack = { f with slot := v } :: below ∧
    (m.call host i s).result = .error e

/-- The call after the first `i` ones took a number out of the slot, and the host failed to print it. -/
def Lost (i : Nat) : Prop :=
  ∃ v e, (m.after host i s).1.stack = { f with slot := some v } :: below ∧ (m.call host i s).result = .error (.host e)

/-- What lies in the slot of the frame on top after `k` calls is what the child left there that the frame began last.
There is nothing exactly when that child left no value or failed as it left, or when its value is lost. -/
structure Found (k j : Nat) (r : Except (Fault ε) (Option Number)) : Prop extends Arrived host m s f below k j r where
  value : ∀ v, f.slot = some v → r = .ok (some v)
  none_iff : f.slot = none ↔
    r = .ok none ∨ (∃ e, r = .error e) ∨ ∃ i, j < i ∧ i < k ∧ Lost host m s f below i

end

section

variable [Strange α] {host : Host σ ε} {m : Machine α} {s : σ} {f g : Frame α} {below : List (Frame α)}
  {k j : Nat} {r : Except (Fault ε) (Option Number)}

theorem Arrived.stay {e : Fault ε} (h : Arrived host m s f below k j r) (v : Option Number)
    (hs : (m.after host k s).1.stack = f :: below) (he : (m.call host k s).result = .error e) :
    Arrived host m s { f with slot := v } below (k + 1) j r where
  lt := Nat.lt_succ_of_lt h.lt
  child := h.child
  left := h.left
  since i hj hi := by
    rcases Nat.lt_succ_iff_lt_or_eq.1 hi with hi | rfl
    · exact h.since i hj hi
    · exact ⟨f.slot, e, hs, he⟩

namespace Found

theorem stay {e : Fault ε} (h : Found host m s f below k j r) (hs : (m.after host k s).1.stack = f :: below)
    (he : (m.call host k s).result = .error e) (hne : ∀ e', e ≠ .host e') : Found host m s f below (k + 1) j r where
  toArrived := h.toArrived.stay f.slot hs he
  value := h.value
  none_iff := by
    refine h.none_iff.trans (or_congr_right (or_congr_right (exists_congr fun i => ?_)))
    constructor
    · rintro ⟨hj, hi, hlost⟩
      exact ⟨hj, Nat.lt_succ_of_lt hi, hlost⟩
    · rintro ⟨hj, hi, v, e', hlost, hr⟩
      rcases Nat.lt_succ_iff_lt_or_eq.1 hi with hi | rfl
      · exact ⟨hj, hi, v, e', hlost, hr⟩
      · rw [he] at hr
        exact (hne e' (Except.error.inj hr)).elim

/-- A call in which the host fails loses the value. -/
theorem lose {v : Number} {e : ε} (h : Found host m s f below k j r) (hs : (m.after host k s).1.stack = f :: below)
    (hv : f.slot = some v) (he : (m.call host k s).result = .error (.host e)) :
    Found host m s { f with slot := none } below (k + 1) j r where
  toArrived := h.toArrived.stay none hs he
  value _ hw := by cases hw
  none_iff := by
    obtain ⟨place, activity, slot⟩ := f
    cases hv
    exact iff_of_true rfl (.inr (.inr ⟨k, h.lt, Nat.lt_succ_self k, v, e, hs, he⟩))

theorem leave (hidle : f.slot = none) (hchild : g.IsChild f) (hs : (m.after host k s).1.stack = g :: f :: below)
    {v : Option Number} (hr : (m.after host k s).1.yield? host (m.after host k s).2 = some r)
    (hv : r = .ok v ∨ v = none ∧ ∃ e, r = .error e) : Found host m s (f.receive v) below (k + 1) k r := by
  obtain ⟨place, activity, slot⟩ := f
  cases hidle
  have hlast {i : Nat} (hk : k < i) (hi : i < k + 1) : False := by omega
  refine ⟨⟨Nat.lt_succ_self k, ⟨g, by cases v <;> exact hs, by cases v <;> exact hchild⟩, hr,
    fun i hk hi => (hlast hk hi).elim⟩, ?_, ?_⟩
  · intro w hw
    cases v with
    | none => cases hw
    | some =>
        cases hw
        exact hv.resolve_right (by simp)
  · cases v with
    | none =>
        refine iff_of_true rfl ?_
        rcases hv with hv | ⟨-, hv⟩
        · exact .inl hv
        · exact .inr (.inl hv)
    | some w =>
        refine iff_of_false (by simp [Frame.receive]) ?_
        rcases hv with rfl | ⟨⟨⟩, -⟩
        rintro (⟨⟨⟩⟩ | ⟨e, ⟨⟩⟩ | ⟨i, hk, hi, -⟩)
        exact hlast hk hi

end Found

/-- From a tidy machine whose top frame has begun nothing, what an operation or a print finds in its slot was left
there by its last child. -/
theorem found (hsound : m.Sound) (htidy : m.Tidy) (hnew : ∀ f below, m.stack = f :: below → ¬ f.Awaits) (k : Nat)
    {f : Frame α} {below : List (Frame α)} (hm : (m.after host k s).1.halted = false)
    (hs : (m.after host k s).1.stack = f :: below) (hf : f.Awaits) : ∃ j r, Found host m s f below k j r := by
  induction k generalizing f below with
  | zero => exact (hnew f below hs hf).elim
  | succ k ih =>
      have hsound' : (m.after host k s).1.Sound := hsound.after k
      have hidle := (htidy.after k hsound : (m.after host k s).1.Tidy).idle
      rw [after_succ] at hm hs
      have hm' : (m.after host k s).1.halted = false := not_halted_of_step hm
      obtain ⟨top, others, hs'⟩ := hsound'.stack_eq
      rw [hs', List.tail_cons] at hidle
      have hchain := hsound'.path.chain
      rw [hs'] at hchain
      obtain ⟨kind, acted, hacted, hacts, hdid⟩ := hsound'.step_did host (m.after host k s).2 hm' hs'
      have hcall : (m.after host k s).1.step host (m.after host k s).2 = m.call host k s := rfl
      rw [hcall] at hdid
      generalize ho : m.call host k s = o at hm hs hdid
      -- a failing call keeps the child that came last, a child that leaves becomes it
      cases hdid with
      | stays =>
          cases hs
          rcases hacts.error with ⟨rfl, hne⟩ | ⟨v, e, hv, rfl, rfl⟩
          · obtain ⟨j, r, h⟩ := ih hm' hs' hf
            exact ⟨j, r, h.stay hs' (by rw [ho]) hne⟩
          · obtain ⟨j, r, h⟩ := ih hm' hs' (hf.of_activity rfl)
            exact ⟨j, r, h.lose hs' hv (by rw [ho])⟩
      | enters =>
          cases hs
          exact (Frame.not_awaits_start _ _ _ hf).elim
      | fails =>
          cases others with
          | nil => cases hm
          | cons b others =>
              cases hs
              have hb := hidle f (List.mem_cons_self ..) hf.not_block
              exact ⟨k, _, Found.leave (v := none) hb (List.isChain_cons_cons.1 hchain).1 hs'
                (by rw [yield?, hacted]) (.inr ⟨rfl, _, rfl⟩)⟩
      | leaves =>
          cases others with
          | nil => cases hm
          | cons b others =>
              cases hs
              have hb := hidle b (List.mem_cons_self ..)
                (hf.of_activity (Frame.activity_receive ..)).not_block
              exact ⟨k, _, Found.leave hb (List.isChain_cons_cons.1 hchain).1 hs' (by rw [yield?, hacted]) (.inl rfl)⟩
      | halts => cases hm

/-- On any way from a tree, past failing steps too: while the machine runs, only blocks keep a value below the top,
a literal and a frame that has begun no child have none, and an operation knows its left operand exactly in its last
stage. And whenever an operation or a print on top reads its slot, it finds what the child left there that it
began last. It finds nothing exactly when that child left no value or failed as it left, or when an earlier call
has taken the value and the host failed to print it. -/
theorem slots_after (host : Host σ ε) (n : Node Empty) (k : Nat) (s : σ) :
    start n = .ok (ofRoot n) ∧ ((ofRoot n).after host k s).1.Tidy ∧
      (((ofRoot n).after host k s).1.halted = false →
        ∀ f below, ((ofRoot n).after host k s).1.stack = f :: below → f.Awaits →
          ∃ j r, Found host (ofRoot n) s f below k j r) := by
  have hsound : (ofRoot n).Sound := sound_ofRoot n.native_empty
  refine ⟨start_ofRoot n, (tidy_ofRoot n).after k hsound, fun hm f below hs hf => ?_⟩
  refine found hsound (tidy_ofRoot n) (fun g others h => ?_) k hm hs hf
  cases h
  exact Frame.not_awaits_start _ _ _

end

end Machine

end Pausable
