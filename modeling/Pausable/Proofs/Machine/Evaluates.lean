import Pausable.Program.Meaning
import Pausable.Proofs.Machine.Leads
import Pausable.Proofs.Program.Embedded

/-!
The machine computes the meaning of its tree. The induction is over the tree, for a frame that begins on
top of any others: it leads to the last step of its node (`Node.closes_embed`), which leaves with the value
of the node, and every fault of the meaning is a fault of a step on the way. The other frames may be of trees
with strangers.
-/
namespace Pausable

variable {α σ : Type}

/-- A host that hands every number to a sink that does not fail, and takes no notes. -/
def Host.ofSink (sink : Number → σ → σ) : Host σ Empty := ⟨fun v s => (.ok (), sink v s), fun _ s => s⟩

/-- The world after the prints of a meaning, in their order. -/
def Meaning.pass (sink : Number → σ → σ) (μ : Meaning) (s : σ) : σ :=
  μ.prints.foldl (fun s v => sink v s) s

theorem Meaning.pass_andThen (sink : Number → σ → σ) {μ : Meaning} {v : Option Number}
    (h : μ.result = .ok v) (next : Option Number → Meaning) (s : σ) :
    (μ.andThen next).pass sink s = (next v).pass sink (μ.pass sink s) := by
  simp only [pass, andThen, h, List.foldl_append]

theorem Meaning.result_andThen {μ : Meaning} {v : Option Number}
    (h : μ.result = .ok v) (next : Option Number → Meaning) :
    (μ.andThen next).result = (next v).result := by
  simp only [andThen, h]

theorem Frame.receive_eq (f : Frame α) (v : Option Number) :
    f.receive v = { f with slot := v.or f.slot } := by
  cases v <;> rfl

namespace Machine

variable [Strange α] (sink : Number → σ → σ) (base : List (Frame α))

/-- After some steps on top of the base one fails, in a given world. -/
def Fails (m : Machine α) (s : σ) (e : Fault Empty) (s' : σ) : Prop :=
  ∃ k m₁ s₁, Leads (.ofSink sink) base k m s m₁ s₁ ∧ m₁.Above base ∧
    (m₁.step (.ofSink sink) s₁).result = .error e ∧ (m₁.step (.ofSink sink) s₁).world = s'

/-- The next step takes the last frame off the base with a value, or halts the machine with the value
in the root where there is no base. -/
def Leaves (m : Machine α) (s : σ) (v : Option Number) (s' : σ) : Prop :=
  m.Above base ∧
    match base with
    | [] => ∃ f k, m.step (.ofSink sink) s = ⟨⟨[f], true, k⟩, s', .ok false⟩ ∧ f.slot = v
    | f :: below =>
      m.step (.ofSink sink) s = ⟨⟨f.receive v :: below, false, m.steps + 1⟩, s', .ok true⟩

/-- The machine does on top of the base what the meaning says: it fails, or comes with so many steps to
the one that leaves with the value. -/
def Closes (k : Nat) (m : Machine α) (s : σ) (μ : Meaning) : Prop :=
  match μ.result with
  | .error e => Fails sink base m s e (μ.pass sink s)
  | .ok v => ∃ m₁ s₁, Leads (.ofSink sink) base k m s m₁ s₁ ∧ Leaves sink base m₁ s₁ v (μ.pass sink s)

variable {sink base} {k j : Nat} {m m' : Machine α} {s s' : σ} {μ : Meaning}

theorem Fails.of_leads {e : Fault Empty} {t : σ} (h : Leads (.ofSink sink) base k m s m' s')
    (hf : Fails sink base m' s' e t) : Fails sink base m s e t := by
  obtain ⟨j, m₁, s₁, hl, hrest⟩ := hf
  exact ⟨k + j, m₁, s₁, h.trans hl, hrest⟩

theorem Fails.of_cons {f : Frame α} {e : Fault Empty} (h : Fails sink (f :: base) m s e s') :
    Fails sink base m s e s' := by
  obtain ⟨j, m₁, s₁, hl, habove, hrest⟩ := h
  exact ⟨j, m₁, s₁, hl.of_cons, habove.of_cons, hrest⟩

namespace Closes

theorem of_step (habove : m.Above base) (h : m.step (.ofSink sink) s = ⟨m', s, .ok true⟩)
    (hc : Closes sink base k m' s μ) : Closes sink base (1 + k) m s μ := by
  have hl := Leads.single habove h
  unfold Closes at hc ⊢
  split at hc
  · exact hc.of_leads hl
  · obtain ⟨m₁, s₁, hl', hv⟩ := hc
    exact ⟨m₁, s₁, hl.trans hl', hv⟩

theorem of_fault {e : Fault Empty} {μ : Meaning} (he : μ.result = .error e) (habove : m.Above base)
    (h : m.step (.ofSink sink) s = ⟨m', μ.pass sink s, .error e⟩) : Closes sink base k m s μ := by
  unfold Closes
  rw [he]
  exact ⟨0, m, s, .refl, habove, by rw [h], by rw [h]⟩

theorem of_leaves {v : Option Number} {μ : Meaning} (hv : μ.result = .ok v)
    (h : Leaves sink base m s v (μ.pass sink s)) : Closes sink base 0 m s μ := by
  unfold Closes
  rw [hv]
  exact ⟨m, s, .refl, h⟩

/-- A child is done, and its frame goes on with the value. -/
theorem andThen {f : Frame α} {next : Option Number → Meaning}
    (h : Closes sink (f :: base) k m s μ)
    (hnext : ∀ v, Closes sink base j ⟨f.receive v :: base, false, m.steps + k + 1⟩ (μ.pass sink s) (next v)) :
    Closes sink base (k + 1 + j) m s (μ.andThen next) := by
  cases hr : μ.result with
  | error e =>
      have hm : μ.andThen next = ⟨μ.prints, .error e⟩ := by simp only [Meaning.andThen, hr]
      simp only [Closes, hr] at h
      simp only [Closes, hm]
      exact h.of_cons
  | ok v =>
      simp only [Closes, hr] at h
      obtain ⟨m₁, s₁, hl, habove, hv⟩ := h
      rw [hl.steps_eq] at hv
      have hl' := hl.of_cons.trans (.single habove.of_cons hv)
      have hn := hnext v
      simp only [Closes, Meaning.pass_andThen sink hr, Meaning.result_andThen hr] at hn ⊢
      split
      · rename_i e he
        rw [he] at hn
        exact hn.of_leads hl'
      · rename_i w hw
        rw [hw] at hn
        obtain ⟨m₂, s₂, hl₂, hv₂⟩ := hn
        exact ⟨m₂, s₂, hl'.trans hl₂, hv₂⟩

end Closes

section Acts

variable {f f' : Frame α} {n : Nat}

theorem step_of_act : step (.ofSink sink) ⟨f :: base, false, n⟩ s =
    carry (.ofSink sink) ⟨f :: base, false, n⟩ base (f.act (.ofSink sink) base s) := by
  rcases f with ⟨place, activity, slot⟩
  cases activity <;> rfl

theorem step_enter {g : Frame α} {t : Node.Turn} {c : Node α} (hc : c.Native)
    (ha : f.act (.ofSink sink) base s = ⟨f', s, .ok (.enter g t c)⟩) :
    step (.ofSink sink) ⟨f :: base, false, n⟩ s =
      ⟨⟨⟨g.placeOf t, .start c, none⟩ :: g :: base, false, n + 1⟩, s, .ok true⟩ := by
  obtain ⟨k, hk⟩ := Node.kind_native hc
  rw [step_of_act, ha]
  simp only [carry, hk]
  rfl

theorem step_fault {e : Fault Empty} (ha : f.act (.ofSink sink) base s = ⟨f', s, .error e⟩) :
    step (.ofSink sink) ⟨f :: base, false, n⟩ s = ⟨⟨f' :: base, false, n⟩, s, .error e⟩ := by
  rw [step_of_act, ha]
  rfl

theorem step_fault_leave {e : Fault Empty} {t : σ}
    (ha : f.act (.ofSink sink) base s = ⟨f', t, .ok (.leave (.error e))⟩) :
    step (.ofSink sink) ⟨f :: base, false, n⟩ s = ⟨leave ⟨f :: base, false, n⟩ f' base, t, .error e⟩ := by
  rw [step_of_act, ha]
  rfl

theorem leaves_of_act {v : Option Number} {t : σ}
    (ha : f.act (.ofSink sink) base s = ⟨f', t, .ok (.leave (.ok v))⟩) (hv : f'.slot = none ∨ v.isSome) :
    Leaves sink base ⟨f :: base, false, n⟩ s v t := by
  refine ⟨above_cons f base false n, ?_⟩
  rw [step_of_act, ha]
  cases base with
  | nil =>
      refine ⟨f'.receive v, n + 1, rfl, ?_⟩
      cases v with
      | none => exact hv.resolve_right nofun
      | some v => rfl
  | cons b below => rfl

end Acts
end Machine

namespace Node

open Machine

variable {sink : Number → σ → σ}

/-- Both operands are done, and what is left to do is to apply the operation. -/
theorem closes_apply [Strange α] (base : List (Frame α)) (place : Option (List Turn)) (k : Nat) (s : σ)
    (symbol : Text) (l r : Node α) (v : Number) (w : Option Number) :
    Closes sink base 0 ⟨⟨place, .binary symbol l r (.onRight v), w⟩ :: base, false, k⟩ s
      (.apply symbol v w) := by
  rw [Meaning.apply]
  cases ho : Operator.ofSymbol? symbol with
  | none =>
      have ha : (⟨place, .binary symbol l r (.onRight v), w⟩ : Frame α).act (.ofSink sink) base s =
          ⟨⟨place, .binary symbol l r (.onRight v), w⟩, s, .error (.unsupportedOperator symbol)⟩ := by
        simp only [Frame.act, Frame.actBinary, ho]
      exact .of_fault rfl (above_cons ..) (step_fault ha)
  | some op =>
      cases w with
      | none =>
          have ha : (⟨place, .binary symbol l r (.onRight v), none⟩ : Frame α).act (.ofSink sink) base s =
              ⟨⟨place, .binary symbol l r (.onRight v), none⟩, s, .error (.valuelessOperand .rightOperand)⟩ := by
            simp only [Frame.act, Frame.actBinary, ho]
          exact .of_fault rfl (above_cons ..) (step_fault ha)
      | some w =>
          cases hx : Number.combine? op v w with
          | none =>
              have ha : (⟨place, .binary symbol l r (.onRight v), some w⟩ : Frame α).act (.ofSink sink) base s =
                  ⟨⟨place, .binary symbol l r (.onRight v), none⟩, s, .ok (.leave (.error .integerTooLarge))⟩ := by
                simp only [Frame.act, Frame.actBinary, ho, hx]
              simp only [hx]
              exact .of_fault rfl (above_cons ..) (step_fault_leave ha)
          | some x =>
              have ha : (⟨place, .binary symbol l r (.onRight v), some w⟩ : Frame α).act (.ofSink sink) base s =
                  ⟨⟨place, .binary symbol l r (.onRight v), none⟩, s, .ok (.leave (.ok (some x)))⟩ := by
                simp only [Frame.act, Frame.actBinary, ho, hx]
              simp only [hx]
              exact .of_leaves rfl (leaves_of_act ha (.inl rfl))

theorem closes_last [Strange α] (base : List (Frame α)) (place : Option (List Turn)) (k : Nat) (s : σ)
    (begun : List (Node α)) (last : Option Number) :
    Closes sink base 0 ⟨⟨place, .block begun [], last⟩ :: base, false, k⟩ s (.ofValue last) := by
  refine .of_leaves rfl ⟨above_cons .., ?_⟩
  cases base with
  | nil => exact ⟨⟨place, .block begun [], last⟩, k + 1, rfl, rfl⟩
  | cons f below => rfl

/-- The operand of a print is done on top of it, and what is left to do is to print. -/
theorem closes_print [Strange α] (base : List (Frame α)) (place : Option (List Turn)) (k : Nat) (s : σ)
    (e : Node Empty) (he : ∀ p, Closes sink (⟨place, .print e.embed true, none⟩ :: base) (2 * e.count - 2)
      ⟨⟨p, .start e.embed, none⟩ :: ⟨place, .print e.embed true, none⟩ :: base, false, k + 1⟩ s (e.meaning false)) :
    Closes sink base (2 * (print e).count - 2) ⟨⟨place, .start (print e).embed, none⟩ :: base, false, k⟩ s
      ((e.meaning false).feed .print fun v => ⟨[v], Frame.handOn v base⟩) := by
  have hpos := e.count_pos
  have hk : 2 * (print e).count - 2 = 1 + (2 * e.count - 2 + 1 + 0) := by
    simp only [count]
    omega
  rw [hk, Meaning.feed]
  refine .of_step (above_cons ..) (step_enter (native_embed e) rfl) (.andThen (he _) fun v => ?_)
  cases v with
  | none => exact .of_fault rfl (above_cons ..) (step_fault rfl)
  | some v =>
      have ha (t : σ) : (⟨place, .print e.embed true, some v⟩ : Frame α).act (.ofSink sink) base t =
          ⟨⟨place, .print e.embed true, none⟩, sink v t, .ok (.leave (Frame.handOn v base))⟩ := rfl
      cases hv : (Frame.handOn v base : Except (Fault Empty) (Option Number)) with
      | error u =>
          rw [hv] at ha
          exact .of_fault hv (above_cons ..) (step_fault_leave (ha _))
      | ok w =>
          rw [hv] at ha
          exact .of_leaves hv (leaves_of_act (ha _) (.inl rfl))

mutual

/-- A tree of the four kinds does on top of any frames what it means. Only a print asks for the frame below. -/
theorem closes_embed [Strange α] (base : List (Frame α)) (place : Option (List Turn)) (k : Nat) (s : σ) :
    (n : Node Empty) → (∀ e v, n = print e →
      (Frame.handOn v base : Except (Fault Empty) _) = .ok (if Frame.handsOnPrint base then some v else none)) →
    Closes sink base (2 * n.count - 2) ⟨⟨place, .start n.embed, none⟩ :: base, false, k⟩ s
      (n.meaning (Frame.handsOnPrint base))
  | literal v, _ => .of_leaves rfl (leaves_of_act rfl (.inl rfl))
  | binary symbol l r, _ => by
      have hl := l.count_pos
      have hr := r.count_pos
      have hk : 2 * (binary symbol l r).count - 2 =
          1 + (2 * l.count - 2 + 1 + (1 + (2 * r.count - 2 + 1 + 0))) := by
        simp only [count]
        omega
      rw [hk, meaning, Meaning.feed]
      refine .of_step (above_cons ..) (step_enter (native_embed l) rfl)
        (.andThen (closes_embed _ _ _ s l fun _ _ _ => rfl) fun v => ?_)
      cases v with
      | none => exact .of_fault rfl (above_cons ..) (step_fault rfl)
      | some v =>
          refine .of_step (above_cons ..) (step_enter (native_embed r) rfl)
            (.andThen (closes_embed _ _ _ _ r fun _ _ _ => rfl) fun w => ?_)
          rw [Frame.receive_eq, Option.or_none]
          exact closes_apply base place _ _ symbol l.embed r.embed v w
  | print e, hbase => by
      have hmeans : (print e).meaning (Frame.handsOnPrint base) =
          (e.meaning false).feed .print fun v => ⟨[v], Frame.handOn v base⟩ := by
        simp only [meaning, fun v => hbase e v rfl]
      rw [hmeans]
      exact closes_print base place k s e fun _ => closes_embed _ _ _ s e fun _ _ _ => rfl
  | block ss, _ => closesAll_embed base place k s [] none ss

theorem closesAll_embed [Strange α] (base : List (Frame α)) (place : Option (List Turn)) (k : Nat) (s : σ)
    (begun : List (Node α)) (last : Option Number) :
    (ss : List (Node Empty)) → Closes sink base (2 * countAll ss)
      ⟨⟨place, .block begun (embedAll ss), last⟩ :: base, false, k⟩ s (meaningAll last ss)
  | [] => closes_last base place k s begun last
  | c :: ss => by
      have hc := c.count_pos
      have hk : 2 * countAll (c :: ss) = 1 + (2 * c.count - 2 + 1 + 2 * countAll ss) := by
        simp only [countAll]
        omega
      rw [hk, meaningAll]
      refine .of_step (above_cons ..) (step_enter (native_embed c) rfl)
        (.andThen (closes_embed _ _ _ s c fun _ _ _ => rfl) fun v => ?_)
      simp only [Frame.receive_eq]
      exact closesAll_embed base place _ _ (c.embed :: begun) (v.or last) ss

end

theorem closes (base : List (Frame Empty)) (place : Option (List Turn)) (k : Nat) (s : σ) (n : Node Empty) :
    Closes sink base (2 * n.count - 2) ⟨⟨place, .start n, none⟩ :: base, false, k⟩ s
      (n.meaning (Frame.handsOnPrint base)) := by
  have hn : Closes sink base (2 * n.count - 2) ⟨⟨place, .start n.embed, none⟩ :: base, false, k⟩ s
      (n.meaning (Frame.handsOnPrint base)) :=
    closes_embed base place k s n fun _ _ _ => Frame.handOn_eq fun _ _ a _ => a.elim
  rwa [embed_self] at hn

end Node

namespace Machine

/-- A run hands on the prints of the tree in their order, and ends with its value or its fault. -/
theorem run_eq_meaning (sink : Number → σ → σ) (n : Node Empty) (s : σ) :
    start n = .ok (ofRoot n) ∧
      ((ofRoot n).run (.ofSink sink) s).world = (n.meaning true).prints.foldl (fun s v => sink v s) s ∧
      ((ofRoot n).run (.ofSink sink) s).result.map (fun _ => ((ofRoot n).run (.ofSink sink) s).machine.value) =
        (n.meaning true).result := by
  refine ⟨start_ofRoot n, ?_⟩
  have hc : Closes sink [] (2 * n.count - 2) (ofRoot n) s (n.meaning true) := n.closes [] (some []) 0 s
  unfold Closes at hc
  split at hc
  · rename_i e he
    obtain ⟨k, m, t, hl, -, hr, hw⟩ := hc
    have hrun : (ofRoot n).run (.ofSink sink) s = m.step (.ofSink sink) t :=
      hl.run_eq.trans (run_of_not_more (by rw [hr]; exact nofun))
    rw [hrun, hr, hw]
    exact ⟨rfl, he.symm⟩
  · rename_i v hv
    obtain ⟨m, t, hl, -, f, k, hs, hf⟩ := hc
    have hrun : (ofRoot n).run (.ofSink sink) s = m.step (.ofSink sink) t :=
      hl.run_eq.trans (run_of_not_more (by rw [hs]; exact nofun))
    rw [hrun, hs]
    exact ⟨rfl, by rw [hv, ← hf]; rfl⟩

end Machine
end Pausable
