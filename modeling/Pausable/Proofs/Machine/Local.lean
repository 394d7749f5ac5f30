import Pausable.Proofs.Machine.Work

/-!
Evaluation is local. A tree that begins on top of any frames is done after exactly its steps, and changes of
those frames only the slot of the top one, in which it leaves its value (`Machine.push_evaluates`).
-/
namespace Pausable

variable {α σ ε : Type}

theorem Activity.work_pos (a : Activity α) : 0 < a.work := by
  cases a with
  | literal | foreign | block => exact Nat.succ_pos _
  | binary s l r stage => cases stage <;> exact Nat.succ_pos _
  | print e begun => cases begun <;> exact Nat.succ_pos _

theorem Meaning.result_feed {μ : Meaning} {c : Consumer} {next : Number → Meaning} {v : Option Number}
    (h : (μ.feed c next).result = .ok v) : ∃ w, (next w).result = .ok v := by
  rw [feed, andThen] at h
  split at h
  · cases h
  · split at h
    · cases h
    · exact ⟨_, h⟩

namespace Machine

/-- A machine with other frames on top of the base has more to do than what lies below. -/
theorem Above.work {m : Machine α} {base : List (Frame α)} (h : m.Above base) (hm : m.halted = false) : total (fun f => f.activity.work) base < m.work := by
  obtain ⟨f, fs, hs⟩ := h
  have hpos := f.activity.work_pos
  simp only [Machine.work, hm, hs, Bool.false_eq_true, ↓reduceIte, total_cons, total_append]
  omega

section

variable [Strange α] {host : Host σ ε} {base : List (Frame α)} {m m' : Machine α} {k : Nat} {s s' : σ}

namespace Leads

theorem after_eq (h : Leads host base k m s m' s') : m.after host k s = (m', s') := by
  induction h with
  | refl => rfl
  | step _ _ _ ih => exact ih

theorem work_eq (h : Leads host base k m s m' s') : m'.work + k = m.work := by
  induction h with
  | refl => rfl
  | step _ hmore _ ih =>
      have hless := work_step hmore
      omega

/-- All steps on the way are done from above the base. -/
theorem above (h : Leads host base k m s m' s') {i : Nat} (hi : i < k) :
    (m.after host i s).1.Above base ∧ (m.call host i s).result = .ok true := by
  induction h generalizing i with
  | refl => omega
  | step habove hmore _ ih =>
      cases i with
      | zero => exact ⟨habove, hmore⟩
      | succ i => exact ih (Nat.lt_of_succ_lt_succ hi)

end Leads

end

variable [Strange α]

/-- A frame that does what a meaning says fails in one of its steps, or each of them is done from above the
base, and the last one leaves there with the value. -/
theorem Closes.locally {sink : Number → σ → σ} {g f : Frame α} {base : List (Frame α)} {k j : Nat} {s : σ} {μ : Meaning}
    (hc : Closes sink (f :: base) k ⟨g :: f :: base, false, j⟩ s μ) (hk : g.activity.work = k + 1) :
    let host := Host.ofSink sink
    let m : Machine α := ⟨g :: f :: base, false, j⟩
    (∃ i < k + 1, ∃ e, (m.call host i s).result = .error e ∧ μ.result = .error e) ∨
      ∃ v, μ.result = .ok v ∧
        (∀ i < k + 1, (m.after host i s).1.Above (f :: base) ∧
          (m.call host i s).result = .ok true) ∧
        m.after host (k + 1) s = (⟨f.receive v :: base, false, j + (k + 1)⟩, μ.pass sink s) := by
  intro host m
  unfold Closes at hc
  split at hc
  · rename_i e he
    obtain ⟨i, m₁, s₁, hl, habove, hr, -⟩ := hc
    refine .inl ⟨i, ?_, e, by rw [call, hl.after_eq]; exact hr, he⟩
    have hm₁ : m₁.halted = false := not_halted_of_error hr
    have hless := habove.work hm₁
    have hwork : m₁.work + i = m.work := hl.work_eq
    have htop : m.work = g.activity.work + total (fun f => f.activity.work) (f :: base) := rfl
    omega
  · rename_i v hv
    obtain ⟨m₁, s₁, hl, habove, hs⟩ := hc
    refine .inr ⟨v, hv, fun i hi => ?_, ?_⟩
    · rcases Nat.lt_succ_iff_lt_or_eq.1 hi with hi | rfl
      · exact hl.above hi
      · rw [call, hl.after_eq]
        exact ⟨habove, by rw [hs]⟩
    · rw [after_add, hl.after_eq, after, hs, hl.steps_eq]
      rfl

/-- A tree of the four kinds is pushed on any frames, and as many steps are taken as the tree has. If one of them
fails, its fault is that of the meaning, unless the frame below is a stranger. Otherwise each of them is taken with
other frames on the given ones and leaves more to do, and after the last one these are left: the top one has got the
value of the tree in its slot, if there is a value, nothing else has changed, and what the tree prints has been
passed to the sink. -/
theorem push_evaluates (sink : Number → σ → σ) (n : Node Empty) (place : Option (List Node.Turn)) (f : Frame α)
    (base : List (Frame α)) (j : Nat) (s : σ) :
    let host := Host.ofSink sink
    let μ := n.meaning (Frame.handsOnPrint (f :: base))
    let steps := 2 * Node.tally [n] 0 - 1
    ∃ m, push ⟨f :: base, false, j⟩ place n.embed = (.ok m : Except (Fault Empty) (Machine α)) ∧
      ((∃ i < steps, ∃ e, (m.call host i s).result = .error e ∧
          ((∀ a, f.activity ≠ .foreign a) → μ.result = .error e)) ∨
        ∃ v, μ.result = .ok v ∧
          (∀ i < steps, (m.after host i s).1.Above (f :: base) ∧ (m.after host i s).1.halted = false ∧
            (m.call host i s).result = .ok true) ∧
          m.after host steps s = (⟨f.receive v :: base, false, j + steps⟩, μ.prints.foldl (fun s v => sink v s) s)) := by
  intro host μ steps
  obtain ⟨kind, hkind⟩ := Node.kind_native (n.native_embed : (n.embed : Node α).Native)
  refine ⟨⟨⟨place, .start n.embed, none⟩ :: f :: base, false, j⟩, by simp only [push, hkind]; rfl, ?_⟩
  have hcount := n.count_pos
  have hsteps : steps = 2 * n.count - 2 + 1 := by
    have hspan := n.span_eq
    rw [Node.span] at hspan
    omega
  have hwork : (Activity.start (n.embed : Node α)).work = 2 * n.count - 2 + 1 := by
    have hstart := Activity.work_start (n.embed : Node α)
    rw [Node.count_embed] at hstart
    omega
  rw [hsteps]
  by_cases hon : ∀ e v, n = .print e → (Frame.handOn v (f :: base) : Except (Fault Empty) _) =
      .ok (if Frame.handsOnPrint (f :: base) then some v else none)
  · have hc : Closes sink (f :: base) (2 * n.count - 2) ⟨⟨place, .start n.embed, none⟩ :: f :: base, false, j⟩ s μ :=
      Node.closes_embed (f :: base) place j s n hon
    rcases hc.locally hwork with ⟨i, hi, e, he, hμ⟩ | ⟨v, hv, hsteps, hend⟩
    · exact .inl ⟨i, hi, e, he, fun _ => hμ⟩
    · exact .inr ⟨v, hv, fun i hi => ⟨(hsteps i hi).1, not_halted_of_more (hsteps i hi).2, (hsteps i hi).2⟩, hend⟩
  · -- a print on a stranger without a kind fails when it hands on
    have hrefuses := (Frame.handOn_cases (f :: base)).resolve_left fun h => hon fun _ v _ => h v
    obtain ⟨_, a, ⟨⟩, ha, u, hu⟩ := hrefuses
    simp only [not_forall] at hon
    obtain ⟨e, _, rfl, _⟩ := hon
    have hc : Closes sink (f :: base) (2 * (Node.print e).count - 2)
        ⟨⟨place, .start (Node.print e).embed, none⟩ :: f :: base, false, j⟩ s
        ((e.meaning false).feed .print fun v => ⟨[v], Frame.handOn v (f :: base)⟩) :=
      Node.closes_print (f :: base) place j s e fun _ => Node.closes_embed _ _ _ s e fun _ _ _ => rfl
    rcases hc.locally hwork with ⟨i, hi, e, he, -⟩ | ⟨v, hv, -⟩
    · exact .inl ⟨i, hi, e, he, fun hne => (hne a ha).elim⟩
    · obtain ⟨w, hw⟩ := Meaning.result_feed hv
      rw [hu] at hw
      cases hw

end Machine
end Pausable
