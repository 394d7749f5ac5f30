import Pausable.Proofs.Machine.Evaluates
import Pausable.Proofs.Machine.Restored

/-!
How long a machine runs and how deep its stack gets. The steps left to do are known in advance
(`Machine.due`): each step that does not fail is one of them, so a run that does not fail takes all of them
(`Machine.run_due`). The stack is a path down the tree, so it is no deeper than the tree is high
(`Machine.Linked.depth_le`).
-/
namespace Pausable

variable {α σ ε : Type}

namespace Node

/-! ## Measures of trees -/

def children : Node α → List (Node α)
  | literal _ | foreign _ => []
  | binary _ l r => [l, r]
  | print e => [e]
  | block ss => ss

theorem countAll_append (ns ms : List (Node α)) : countAll (ns ++ ms) = countAll ns + countAll ms := by
  induction ns with
  | nil => simp [countAll]
  | cons n ns ih => simp [countAll, ih, Nat.add_assoc]

theorem countAll_reverse (ns : List (Node α)) : countAll ns.reverse = countAll ns := by
  induction ns with
  | nil => rfl
  | cons n ns ih =>
      rw [List.reverse_cons, countAll_append, ih]
      simp [countAll, Nat.add_comm]

theorem count_eq (n : Node α) : n.count = countAll n.children + 1 := by
  cases n <;> simp [count, children, countAll]

/-- Counts nodes without recursing into them: those that are pending are on a stack, and the children of
the one taken off are put there. -/
def tally : List (Node α) → Nat → Nat
  | [], counted => counted
  | n :: pending, counted => tally (n.children.reverse ++ pending) (counted + 1)
termination_by pending => countAll pending
decreasing_by
  rw [countAll_append, countAll_reverse, countAll, count_eq]
  omega

/-- The count with a stack is the count by recursion. -/
theorem tally_eq (pending : List (Node α)) (counted : Nat) :
    tally pending counted = counted + countAll pending := by
  fun_induction tally pending counted with
  | case1 counted => rfl
  | case2 n pending counted ih =>
      rw [ih, countAll_append, countAll_reverse, countAll, count_eq]
      omega

/-- The steps of a tree from its beginning to its end. -/
def span (n : Node α) : Nat := 2 * tally [n] 0 - 1

theorem span_eq (n : Node α) : n.span = 2 * n.count - 1 := by
  rw [span, tally_eq]
  simp [countAll]

theorem span_succ (n : Node α) : n.span + 1 = 2 * n.count := by
  have := n.count_pos
  rw [span_eq]
  omega

theorem total_span (ns : List (Node α)) : ns.length + total span ns = 2 * countAll ns := by
  induction ns with
  | nil => rfl
  | cons n ns ih =>
      have := n.span_succ
      simp only [List.length_cons, total_cons, countAll]
      omega

mutual

/-- The number of nodes on the longest way down a tree. -/
def height : Node α → Nat
  | literal _ | foreign _ => 1
  | binary _ l r => max l.height r.height + 1
  | print e => e.height + 1
  | block ss => heightAll ss + 1

def heightAll : List (Node α) → Nat
  | [] => 0
  | s :: ss => max s.height (heightAll ss)

end

theorem height_pos (n : Node α) : 0 < n.height := by
  cases n <;> simp [height]

theorem height_le_heightAll {n : Node α} {ns : List (Node α)} (h : n ∈ ns) : n.height ≤ heightAll ns := by
  induction ns with
  | nil => cases h
  | cons m ns ih =>
      rw [heightAll]
      rcases List.mem_cons.1 h with rfl | h
      · exact Nat.le_max_left ..
      · exact Nat.le_trans (ih h) (Nat.le_max_right ..)

end Node

/-! ## The steps left to do -/

/-- The steps that a frame takes from where it stands, those of children that have not begun with them. -/
def Activity.due : Activity α → Nat
  | literal _ | foreign _ => 1
  | binary _ l r stage => match stage with
    | .before _ => 3 + l.span + r.span
    | .onLeft _ => 2 + r.span
    | .onRight _ => 1
  | print e begun => if begun then 1 else 2 + e.span
  | block _ waiting => (waiting.length + 1) + total Node.span waiting

theorem Activity.due_eq (a : Activity α) : a.due = a.work := by
  cases a with
  | literal | foreign => rfl
  | binary s l r stage =>
      have hl := l.span_succ
      have hr := r.span_succ
      cases stage <;> simp only [due, work] <;> omega
  | print e begun =>
      have he := e.span_succ
      cases begun <;> simp only [due, work, Bool.false_eq_true, ↓reduceIte]
      omega
  | block begun waiting =>
      have := Node.total_span waiting
      simp only [due, work]
      omega

namespace Machine

/-- The steps that a machine takes if none fails. -/
def due (m : Machine α) : Nat :=
  if m.halted then 0 else total (fun f => f.activity.due) m.stack

theorem due_eq (m : Machine α) : m.due = m.work := by
  simp only [due, work, Activity.due_eq]

theorem due_ofRoot (n : Node α) : (ofRoot n).due = n.span := by
  have hstart := Activity.work_start n
  have hwork : (ofRoot n).work = (Activity.start n).work := by simp [ofRoot, work]
  rw [due_eq, hwork, Node.span_eq]
  omega

section

variable [Strange α] {host : Host σ ε} {m : Machine α} {s : σ}

/-- The step that halts a machine is the last one that was left to do. -/
theorem work_last (hm : m.halted = false) (h : (m.step host s).result = .ok false) : m.work = 1 := by
  unfold step at h
  split at h
  · rename_i hhalted
    rw [hm] at hhalted
    cases hhalted
  · split at h
    · cases h
    · rename_i top below hs
      have hwork : m.work = top.activity.work + total (fun f => f.activity.work) below := by
        simp [work, hm, hs]
      split at h
      · cases h
      · rename_i k _
        have hfits := (Frame.act_fits host top below (host.note (.evaluating k) s)).2
        have hleave (e : Effect α ε)
            (he : (top.act host below (host.note (.evaluating k) s)).effect = .ok e)
            (hother : ∀ entered t c, e ≠ .enter entered t c) : top.activity.work = 1 :=
          Frame.work_leave he hother
        generalize top.act host below (host.note (.evaluating k) s) = acted at h hfits hleave
        unfold carry at h
        split at h
        · cases h
        · split at h
          · cases h
          · simp [finish, tick, hm] at h
        · cases h
        · rename_i v he
          have hone : top.activity.work = 1 := hleave _ he (by simp)
          cases below with
          | nil => rw [hwork, hone, total_nil]
          | cons f fs => simp [finish, leave, deliver, tick, hm] at h
        · rename_i he
          have hone : top.activity.work = 1 := hleave _ he (by simp)
          have hbelow : below = [] := hfits .halt he
          rw [hwork, hone, hbelow, total_nil]

theorem due_step {more : Bool} (hm : m.halted = false) (h : (m.step host s).result = .ok more) :
    (m.step host s).machine.due + 1 = m.due := by
  rw [due_eq, due_eq]
  cases more with
  | true => exact work_step h
  | false =>
      rw [work_last hm h, work, halted_of_done h]
      rfl

/-- A step that leaves more to do puts a frame on the stack or takes one off. -/
theorem depth_step (h : (m.step host s).result = .ok true) :
    (m.step host s).machine.depth = m.depth + 1 ∨ (m.step host s).machine.depth + 1 = m.depth := by
  have hm := not_halted_of_more h
  cases hs : m.stack with
  | nil => simp [step, hm, hs] at h
  | cons top below =>
      have hmoved := step_moved host s hm hs
      rw [depth, depth, hs]
      generalize m.step host s = o at hmoved h ⊢
      cases hmoved with
      | stays hf => cases h
      | enters hf hc => exact .inl rfl
      | fails hf => cases h
      | leaves hf =>
          cases below with
          | nil => cases h
          | cons b below => exact .inr rfl
      | halts hf hb => cases h

theorem step_done (hm : m.halted = false) (h : (m.step host s).result = .ok false) :
    (m.step host s).machine.steps = m.steps + 1 := by
  cases hs : m.stack with
  | nil => simp [step, hm, hs] at h
  | cons top below =>
      have hmoved := step_moved host s hm hs
      generalize m.step host s = o at hmoved h ⊢
      cases hmoved with
      | stays hf => cases h
      | enters hf hc => cases h
      | fails hf => cases h
      | leaves hf => cases below <;> rfl
      | halts hf hb => rfl

/-- A run that does not fail halts after exactly the steps that were left to do. -/
theorem run_due (host : Host σ ε) (m : Machine α) (s : σ) : (∃ e, (m.run host s).result = .error e) ∨
    (m.run host s).result = .ok false ∧ (m.run host s).machine.halted = true ∧
      (m.run host s).machine.steps = m.steps + m.due := by
  induction hw : m.due using Nat.strong_induction_on generalizing m s with
  | h w ih =>
      cases hr : (m.step host s).result with
      | error e =>
          rw [run_of_not_more (by rw [hr]; nofun)]
          exact .inl ⟨e, hr⟩
      | ok more =>
          cases more with
          | true =>
              have hdue := due_step (not_halted_of_more hr) hr
              have hsteps := (step_more hr).1
              rw [run_of_more hr]
              refine (ih _ (by omega) _ _ rfl).imp_right fun ⟨hresult, hhalted, hrun⟩ => ⟨hresult, hhalted, ?_⟩
              rw [hrun]
              omega
          | false =>
              rw [run_of_not_more (by rw [hr]; nofun)]
              refine .inr ⟨hr, halted_of_done hr, ?_⟩
              cases hm : m.halted with
              | true =>
                  rw [step_of_halted hm, ← hw, due, hm]
                  rfl
              | false =>
                  have hlast := work_last hm hr
                  rw [step_done hm hr, ← hw, due_eq, hlast]

end

end Machine

/-! ## The depth of the stack -/

theorem Activity.height_child? {a : Activity α} {t : Node.Turn} {c : Node α} (h : a.child? = some (t, c)) :
    c.height < a.node.height := by
  cases a with
  | literal | foreign => cases h
  | binary s l r stage =>
      cases stage with
      | before => cases h
      | onLeft =>
          cases h
          exact Nat.lt_succ_of_le (Nat.le_max_left ..)
      | onRight =>
          cases h
          exact Nat.lt_succ_of_le (Nat.le_max_right ..)
  | print e begun =>
      cases begun with
      | false => cases h
      | true =>
          cases h
          exact Nat.lt_succ_self _
  | block begun waiting =>
      cases begun with
      | nil => cases h
      | cons s earlier =>
          cases h
          exact Nat.lt_succ_of_le (Node.height_le_heightAll (by simp))

/-- Each frame on a path is of a tree that is less high than that of the one below. -/
theorem Frame.Path.height {f r : Frame α} {fs : List (Frame α)} (h : Frame.Path (f :: fs))
    (hr : (f :: fs).getLast? = some r) : fs.length + f.node.height ≤ r.node.height := by
  induction fs generalizing f with
  | nil =>
      cases hr
      exact Nat.le_of_eq (Nat.zero_add _)
  | cons g fs ih =>
      obtain ⟨t, hc, -⟩ := (List.isChain_cons_cons.1 h.chain).1
      have hlower : f.node.height < g.node.height := Activity.height_child? hc
      have hrest := ih h.tail (by simpa only [List.getLast?_cons_cons] using hr)
      rw [List.length_cons]
      omega

namespace Machine

theorem Linked.depth_le {m : Machine α} {n : Node α} (h : m.Linked) (hn : m.root? = some n) :
    m.depth ≤ n.height := by
  obtain ⟨top, below, hs⟩ := h.stack_eq
  obtain ⟨r, hr, -⟩ := h.path.root
  have hnode : r.node = n := by
    rw [Machine.root?, hr] at hn
    exact Option.some.inj hn
  have hpath := h.path
  rw [hs] at hpath hr
  have hheight := hpath.height hr
  have hpos := top.node.height_pos
  rw [depth, hs, List.length_cons, ← hnode]
  omega

/-! ## Machines as they are given -/

/-- A machine is new, from a tree, or restored from a record. -/
inductive Initial [Strange α] (m : Machine α) : Prop where
  | new {n : Node α} : start n = .ok m → Initial m
  | restored {v : Value} : ofValue v = .ok m → Initial m

theorem eq_ofRoot_of_start [Strange α] {n : Node α} {m : Machine α} (h : start n = .ok m) : m = ofRoot n := by
  unfold start at h
  split at h
  · split at h <;> cases h
  · cases h
    rfl

theorem Initial.linked [Strange α] {m : Machine α} (h : m.Initial) : m.Linked := by
  cases h with
  | new h =>
      rw [eq_ofRoot_of_start h]
      exact linked_ofRoot _
  | restored h => exact (sound_ofValue h).toLinked

/-- From any machine that is given, and past steps that fail: a step that does not fail does one of the
steps left to do, and unless it halts the machine it puts a frame on the stack or takes one off; a run fails
or halts after exactly the steps left to do; and the stack is no deeper than the tree is high. A run of a
tree that does not fail takes the steps of the tree and leaves its root. -/
theorem runs_exactly [Strange α] (host : Host σ ε) {m : Machine α} (h : m.Initial) (k : Nat) (s : σ) :
    let now := m.after host k s
    let next := now.1.step host now.2
    let last := now.1.run host now.2
    (∀ more, now.1.halted = false → next.result = .ok more →
      next.machine.due + 1 = now.1.due ∧
        (more = true → next.machine.depth = now.1.depth + 1 ∨ next.machine.depth + 1 = now.1.depth)) ∧
    ((∃ e, last.result = .error e) ∨
      last.result = .ok false ∧ last.machine.halted = true ∧ last.machine.steps = now.1.steps + now.1.due) ∧
    (∀ n, now.1.root? = some n → now.1.depth ≤ n.height) ∧
    (∀ n more, start n = .ok m → (m.run host s).result = .ok more →
      (m.run host s).machine.steps = 2 * Node.tally [n] 0 - 1 ∧ (m.run host s).machine.depth = 1) := by
  intro now next last
  have hnow : now.1.Linked := h.linked.after k
  refine ⟨fun more hm hr => ⟨due_step hm hr, fun hmore => ?_⟩, run_due host now.1 now.2, fun n hn => hnow.depth_le hn, ?_⟩
  · rw [hmore] at hr
    exact depth_step hr
  · intro n more hstart hr
    have hm := eq_ofRoot_of_start hstart
    subst hm
    rcases run_due host (ofRoot n) s with ⟨e, he⟩ | ⟨-, hhalted, hsteps⟩
    · rw [he] at hr
      cases hr
    · have hrun : ((ofRoot n).run host s).machine.Linked := run_keeps (fun h => h.step) (linked_ofRoot n)
      refine ⟨?_, hrun.alone hhalted⟩
      rw [hsteps, due_ofRoot]
      exact Nat.zero_add n.span

/-- A block within its second statement, with the value of the first one. -/
def midway : Value :=
  .record
    [Value.named "stateStack" (.list
      [.record
        [Value.named "node" (.record
          [Value.named "kind" (.text "program"), Value.named "stmts" (.list
            [.record [Value.named "kind" (.text "literal"), Value.named "value" (.int 3)],
              .record [Value.named "kind" (.text "print"), Value.named "expr"
                (.record [Value.named "kind" (.text "literal"), Value.named "value" (.int 4)])]])]),
          Value.named "ctx" (.record [Value.named "index" (.int 2)]), Value.named "value" (.int 3)],
        .record
          [Value.named "node" (.record [Value.named "ref" (.text "stmts"), Value.named "index" (.int 1)]),
            Value.named "ctx" (.record [Value.named "exprDone" (.bool false)])]]),
      Value.named "halted" (.bool false)]

theorem runs_exactly_midway :
    let m : Machine Empty :=
      ⟨[⟨some [.statement 1], .print (.literal (.int 4)) false, none⟩,
        ⟨some [], .block [.print (.literal (.int 4)), .literal (.int 3)] [], some (.int 3)⟩], false, 0⟩
    let host : Host (List Number) Empty := Host.ofSink List.cons
    ofValue midway = .ok m ∧ m.due = 4 ∧ (m.run host []).result = .ok false ∧
      (m.run host []).machine.halted = true ∧ (m.run host []).machine.steps = 4 := by
  intro m host
  have hread : ofValue midway = .ok m := by decide +kernel
  have hdue : m.due = 4 := by rw [due_eq]; rfl
  have hrun : (m.run host []).result = .ok false := by decide +kernel
  have hends := (runs_exactly host (.restored hread) 0 []).2.1
  rcases hends with ⟨e, he⟩ | ⟨-, hhalted, hsteps⟩
  · cases hrun.symm.trans he
  · refine ⟨hread, hdue, hrun, hhalted, hsteps.trans ?_⟩
    exact (Nat.zero_add m.due).trans hdue

end Machine
end Pausable
