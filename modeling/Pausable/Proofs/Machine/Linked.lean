import Mathlib.Data.List.Chain
import Pausable.Machine.Stack
import Pausable.Proofs.Machine.Acts

/-!
The stack of a machine is a path through its tree: each frame above the root is of the child that the
frame below it began last (`Machine.Linked`). A step keeps this, whether it fails or not.
-/
namespace Pausable

variable {α σ ε : Type}

namespace Frame

/-- The frame is of the child that the one below it began last, in the same tree. -/
def IsChild (f below : Frame α) : Prop :=
  ∃ t, below.activity.child? = some (t, f.node) ∧ f.place.isSome = true ∧ f.place = below.placeOf t

/-- Two frames of the same node at the same place. -/
structure Alike (f g : Frame α) : Prop where
  place : f.place = g.place
  node : f.node = g.node

theorem Alike.refl (f : Frame α) : f.Alike f := ⟨rfl, rfl⟩

theorem alike_receive (f : Frame α) (v : Option Number) : (f.receive v).Alike f := by
  cases v <;> exact ⟨rfl, rfl⟩

theorem IsChild.of_alike {f g below : Frame α} (h : f.IsChild below) (hg : g.Alike f) :
    g.IsChild below := by
  unfold IsChild
  rw [hg.place, hg.node]
  exact h

theorem IsChild.continues {f below : Frame α} (h : f.IsChild below) : f.continues below = true := by
  obtain ⟨t, hc, hs, hp⟩ := h
  simp only [Frame.continues, hc, hs, Bool.true_and, decide_eq_true_eq]
  exact hp

theorem isChild_ofChild {f : Frame α} {t : Node.Turn} {c : Node α} (hp : f.place.isSome = true)
    (hc : f.activity.child? = some (t, c)) : (f.ofChild t c).IsChild f := by
  refine ⟨t, ?_, ?_, rfl⟩
  · rw [hc]
    simp only [ofChild, node, Activity.node_start]
  · simpa [ofChild, placeOf] using hp

/-- What the effects of a frame on others can be: it begins the child that it remembers as begun last,
and halts the machine only as the lowest frame. -/
def Fits (f : Frame α) (below : List (Frame α)) : Effect α ε → Prop
  | .enter g t c => g.Alike f ∧ g.activity.child? = some (t, c)
  | .leave _ => True
  | .halt => below = []

/-- Acting changes the slot of a frame and its progress, neither its node nor its place. -/
theorem act_fits [Strange α] (host : Host σ ε) (f : Frame α) (below : List (Frame α)) (s : σ) :
    (f.act host below s).frame.Alike f ∧
      ∀ e, (f.act host below s).effect = .ok e → f.Fits below e := by
  have h := f.acts host below s
  generalize f.act host below s = acted at h ⊢
  cases h with
  | noLeft | unsupported | noRight | noOperand | refused | foreign => exact ⟨⟨rfl, rfl⟩, fun e he => by cases he⟩
  | literal | tooLarge | applied | printed | last => exact ⟨⟨rfl, rfl⟩, fun e he => by cases he; trivial⟩
  | left | right | operand => exact ⟨⟨rfl, rfl⟩, fun e he => by cases he; exact ⟨⟨rfl, rfl⟩, rfl⟩⟩
  | statement =>
      refine ⟨⟨rfl, rfl⟩, fun e he => ?_⟩
      cases he
      exact ⟨⟨rfl, by simp [node, Activity.node]⟩, rfl⟩
  | halt hb => exact ⟨⟨rfl, rfl⟩, fun e he => by cases he; exact hb⟩

/-- The frames, the top one first, are a path up from a root. -/
structure Path (fs : List (Frame α)) : Prop where
  root : ∃ r, fs.getLast? = some r ∧ r.place = some []
  chain : fs.IsChain IsChild

namespace Path

variable {f g : Frame α} {fs : List (Frame α)}

theorem root_single (h : Path [f]) : f.place = some [] := by
  obtain ⟨r, hr, hp⟩ := h.root
  simp only [List.getLast?_singleton, Option.some.injEq] at hr
  rw [hr, hp]

theorem place_isSome (h : Path (f :: fs)) : f.place.isSome = true := by
  cases fs with
  | nil => rw [h.root_single]; rfl
  | cons g fs =>
      obtain ⟨_, _, hs, _⟩ := (List.isChain_cons_cons.mp h.chain).1
      exact hs

theorem alike (h : Path (f :: fs)) (hg : g.Alike f) : Path (g :: fs) := by
  cases fs with
  | nil => exact ⟨⟨g, rfl, hg.place.trans h.root_single⟩, .singleton g⟩
  | cons b fs =>
      obtain ⟨hb, hc⟩ := List.isChain_cons_cons.mp h.chain
      refine ⟨?_, List.isChain_cons_cons.mpr ⟨hb.of_alike hg, hc⟩⟩
      simpa only [List.getLast?_cons_cons] using h.root

theorem tail (h : Path (f :: g :: fs)) : Path (g :: fs) :=
  ⟨by simpa only [List.getLast?_cons_cons] using h.root, (List.isChain_cons_cons.mp h.chain).2⟩

theorem push (h : Path (f :: fs)) (hg : g.IsChild f) : Path (g :: f :: fs) :=
  ⟨by simpa only [List.getLast?_cons_cons] using h.root, List.isChain_cons_cons.mpr ⟨hg, h.chain⟩⟩

end Path
end Frame

namespace Machine

/-- All that a step can do to a machine that has not halted, by its top frame and those below. -/
inductive Moved (m : Machine α) (top : Frame α) (below : List (Frame α)) : Outcome α σ ε → Prop where
  /-- It fails, and the top frame stays. -/
  | stays {f s e} : f.Alike top → Moved m top below ⟨{ m with stack := f :: below }, s, .error e⟩
  /-- A child begins. -/
  | enters {f t c s} : f.Alike top → f.activity.child? = some (t, c) →
      Moved m top below ⟨⟨f.ofChild t c :: f :: below, false, m.steps + 1⟩, s, .ok true⟩
  /-- The top frame leaves, and fails with that. -/
  | fails {f s e} : f.Alike top → Moved m top below ⟨m.leave f below, s, .error e⟩
  /-- The top frame leaves. -/
  | leaves {f v s} : f.Alike top →
      Moved m top below ⟨((m.leave f below).deliver v).tick, s, .ok !below.isEmpty⟩
  /-- The root halts the machine. -/
  | halts {f s} : f.Alike top → below = [] → Moved m top below ⟨⟨[f], true, m.steps + 1⟩, s, .ok false⟩

section step

variable [Strange α] {host : Host σ ε} {m : Machine α} {s : σ}

theorem step_moved (host : Host σ ε) (s : σ) {top : Frame α} {below : List (Frame α)} (hm : m.halted = false)
    (hs : m.stack = top :: below) : Moved m top below (m.step host s) := by
  obtain ⟨stack, halted, steps⟩ := m
  cases hm; cases hs
  simp only [step, Bool.false_eq_true, ↓reduceIte]
  cases hk : (top.kind : Except (Fault ε) Kind) with
  | error e => exact .stays (.refl top)
  | ok k =>
      obtain ⟨ha, he⟩ := Frame.act_fits host top below (host.note (.evaluating k) s)
      simp only [carry]
      generalize top.act host below (host.note (.evaluating k) s) = acted at ha he
      obtain ⟨f, world, effect⟩ := acted
      cases effect with
      | error e => exact .stays ha
      | ok effect =>
          have hfit := he effect rfl
          cases effect with
          | enter g t c =>
              simp only
              split
              · exact .stays ha
              · exact .enters hfit.1 hfit.2
          | leave v =>
              cases v with
              | error e => exact .fails ha
              | ok v =>
                  have hr : (!((leave ⟨top :: below, false, steps⟩ f below).deliver v).tick.halted) =
                      !below.isEmpty := by
                    cases below <;> rfl
                  simp only [finish, hr]
                  exact .leaves ha
          | halt =>
              cases hfit
              exact .halts ha rfl

theorem step_of_halted (hm : m.halted = true) : m.step host s = ⟨m, s, .ok false⟩ := by
  simp [step, hm]

theorem not_halted_of_step (h : (m.step host s).machine.halted = false) : m.halted = false := by
  cases hm : m.halted with
  | false => rfl
  | true =>
      rw [step_of_halted hm, hm] at h
      cases h

theorem not_halted_of_error {e : Fault ε} (h : (m.step host s).result = .error e) : m.halted = false := by
  cases hm : m.halted with
  | false => rfl
  | true =>
      rw [step_of_halted hm] at h
      cases h

end step

/-- What holds of a machine from its beginning on: its stack is a path, and it halts only with the root
left. -/
structure Linked (m : Machine α) : Prop where
  path : Frame.Path m.stack
  alone : m.halted = true → m.stack.length = 1

/-- Every tree of the four kinds has a machine. -/
theorem start_ofRoot (n : Node Empty) : start n = .ok (ofRoot n) := by
  cases n with
  | foreign e => exact e.elim
  | literal | binary | print | block => rfl

theorem linked_ofRoot (n : Node α) : (ofRoot n).Linked :=
  ⟨⟨⟨_, rfl, rfl⟩, .singleton _⟩, fun _ => rfl⟩

namespace Linked

variable {m : Machine α}

theorem stack_eq (h : m.Linked) : ∃ top below, m.stack = top :: below := by
  cases hs : m.stack with
  | nil =>
      obtain ⟨r, hr, _⟩ := h.path.root
      rw [hs] at hr; cases hr
  | cons top below => exact ⟨top, below, rfl⟩

theorem leave {f : Frame α} {below : List (Frame α)} (hm : m.halted = false)
    (h : Frame.Path (f :: below)) : (m.leave f below).Linked := by
  cases below with
  | nil => exact ⟨h, fun _ => rfl⟩
  | cons g below =>
      refine ⟨h.tail, fun hh => ?_⟩
      simp only [Machine.leave, hm, Bool.false_eq_true] at hh

theorem deliver (h : m.Linked) (v : Option Number) : (m.deliver v).Linked := by
  obtain ⟨stack, halted, steps⟩ := m
  cases stack with
  | nil => exact h
  | cons f fs => exact ⟨h.path.alike (Frame.alike_receive f v), h.alone⟩

/-- A step keeps the path, whether it fails or not. -/
theorem step [Strange α] {host : Host σ ε} {s : σ} (h : m.Linked) : (m.step host s).machine.Linked := by
  cases hm : m.halted with
  | true => rw [step_of_halted hm]; exact h
  | false =>
      obtain ⟨top, below, hs⟩ := h.stack_eq
      have hp := h.path
      rw [hs] at hp
      have hmoved := step_moved host s hm hs
      generalize m.step host s = o at hmoved ⊢
      cases hmoved with
      | stays hf => exact ⟨hp.alike hf, fun hh => by simp [hm] at hh⟩
      | enters hf hc =>
          have hp' := hp.alike hf
          exact ⟨hp'.push (Frame.isChild_ofChild hp'.place_isSome hc), fun hh => by cases hh⟩
      | fails hf => exact .leave hm (hp.alike hf)
      | leaves hf =>
          have hl := (Linked.leave hm (hp.alike hf)).deliver ‹_›
          exact ⟨hl.path, hl.alone⟩
      | halts hf hb =>
          subst hb
          exact ⟨hp.alike hf, fun _ => rfl⟩

end Linked

theorem root?_alike {f g : Frame α} (hg : g.Alike f) (below : List (Frame α)) (h h' : Bool) (k k' : Nat) :
    root? ⟨g :: below, h, k⟩ = root? ⟨f :: below, h', k'⟩ := by
  cases below with
  | nil => simp [root?, hg.node]
  | cons b below => simp [root?]

theorem root?_leave {f : Frame α} {below : List (Frame α)} (m : Machine α) (h : Bool) (k : Nat) :
    (m.leave f below).root? = root? ⟨f :: below, h, k⟩ := by
  cases below <;> simp [root?, leave]

theorem root?_deliver (m : Machine α) (v : Option Number) : (m.deliver v).root? = m.root? := by
  obtain ⟨stack, halted, steps⟩ := m
  cases stack with
  | nil => rfl
  | cons f fs => exact root?_alike (Frame.alike_receive f v) ..

/-- A step keeps the tree at the root. -/
theorem root?_step [Strange α] (host : Host σ ε) (m : Machine α) (s : σ) :
    (m.step host s).machine.root? = m.root? := by
  obtain ⟨stack, halted, steps⟩ := m
  cases halted with
  | true => rw [step_of_halted rfl]
  | false =>
      cases stack with
      | nil => rfl
      | cons top below =>
          have hmoved := step_moved (m := ⟨top :: below, false, steps⟩) host s rfl rfl
          generalize step host ⟨top :: below, false, steps⟩ s = o at hmoved ⊢
          cases hmoved with
          | stays hf => exact root?_alike hf ..
          | enters hf hc =>
              rw [← root?_alike hf below false false (steps + 1) steps]
              simp [root?]
          | fails hf => rw [root?_leave _ false steps, root?_alike hf]
          | leaves hf =>
              refine (root?_deliver _ _).trans ?_
              rw [root?_leave _ false steps, root?_alike hf]
          | halts hf hb =>
              subst hb
              exact root?_alike hf ..

end Machine
end Pausable
