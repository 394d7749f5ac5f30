import Pausable.Machine.Run

/-! What a frame does in one step, by cases (`Frame.acts`). -/
namespace Pausable

variable {α σ ε : Type}

namespace Frame

/-- The frame below a print has a kind and lets it hand on its number or not, or it refuses any number. -/
theorem handOn_cases [Strange α] (below : List (Frame α)) :
    (∀ v, (handOn v below : Except (Fault ε) _) = .ok (if handsOnPrint below then some v else none)) ∨
      ∃ f a, below.head? = some f ∧ f.activity = .foreign a ∧
        ∃ shown, ∀ v, (handOn v below : Except (Fault ε) _) = .error (.unknownKind shown) := by
  cases below with
  | nil => exact .inl fun _ => rfl
  | cons f below =>
      obtain ⟨place, a, slot⟩ := f
      cases a with
      | literal | binary | print | block => exact .inl fun _ => rfl
      | foreign a =>
          cases hs : Strange.stranger a with
          | kind name => exact .inl fun v => by simp only [handOn, hs]; rfl
          | kindless | value _ => exact .inr ⟨_, a, rfl, rfl, _, fun v => by simp only [handOn, hs]; rfl⟩

/-- What a frame does in one step, given the frames below it and the world. -/
inductive Acts [Strange α] (host : Host σ ε) (below : List (Frame α)) (s : σ) : Frame α → Acted α σ ε → Prop where
  | literal {p n x} : Acts host below s ⟨p, .literal n, x⟩ ⟨⟨p, .literal n, x⟩, s, .ok (.leave (.ok (some n)))⟩
  | left {p symbol l r left x} : Acts host below s ⟨p, .binary symbol l r (.before left), x⟩
      ⟨⟨p, .binary symbol l r (.before left), x⟩, s, .ok (.enter ⟨p, .binary symbol l r (.onLeft left), x⟩ .left l)⟩
  | noLeft {p symbol l r left} : Acts host below s ⟨p, .binary symbol l r (.onLeft left), none⟩
      ⟨⟨p, .binary symbol l r (.onLeft left), none⟩, s, .error (.valuelessOperand .leftOperand)⟩
  | right {p symbol l r left v} : Acts host below s ⟨p, .binary symbol l r (.onLeft left), some v⟩
      ⟨⟨p, .binary symbol l r (.onLeft (some v)), none⟩, s, .ok (.enter ⟨p, .binary symbol l r (.onRight v), none⟩ .right r)⟩
  | unsupported {p symbol l r v x} : Operator.ofSymbol? symbol = none →
      Acts host below s ⟨p, .binary symbol l r (.onRight v), x⟩
        ⟨⟨p, .binary symbol l r (.onRight v), x⟩, s, .error (.unsupportedOperator symbol)⟩
  | noRight {p symbol l r v op} : Operator.ofSymbol? symbol = some op →
      Acts host below s ⟨p, .binary symbol l r (.onRight v), none⟩
        ⟨⟨p, .binary symbol l r (.onRight v), none⟩, s, .error (.valuelessOperand .rightOperand)⟩
  | tooLarge {p symbol l r v w op} : Operator.ofSymbol? symbol = some op → Number.combine? op v w = none →
      Acts host below s ⟨p, .binary symbol l r (.onRight v), some w⟩
        ⟨⟨p, .binary symbol l r (.onRight v), none⟩, s, .ok (.leave (.error .integerTooLarge))⟩
  | applied {p symbol l r v w op x} : Operator.ofSymbol? symbol = some op → Number.combine? op v w = some x →
      Acts host below s ⟨p, .binary symbol l r (.onRight v), some w⟩
        ⟨⟨p, .binary symbol l r (.onRight v), none⟩, s, .ok (.leave (.ok (some x)))⟩
  | operand {p e x} : Acts host below s ⟨p, .print e false, x⟩
      ⟨⟨p, .print e false, x⟩, s, .ok (.enter ⟨p, .print e true, x⟩ .operand e)⟩
  | noOperand {p e} : Acts host below s ⟨p, .print e true, none⟩
      ⟨⟨p, .print e true, none⟩, s, .error (.valuelessOperand .print)⟩
  | refused {p e v u t} : host.print v s = (.error u, t) →
      Acts host below s ⟨p, .print e true, some v⟩ ⟨⟨p, .print e true, none⟩, t, .error (.host u)⟩
  | printed {p e v t} : host.print v s = (.ok (), t) →
      Acts host below s ⟨p, .print e true, some v⟩ ⟨⟨p, .print e true, none⟩, t, .ok (.leave (handOn v below))⟩
  | statement {p begun c waiting x} : Acts host below s ⟨p, .block begun (c :: waiting), x⟩
      ⟨⟨p, .block begun (c :: waiting), x⟩, s,
        .ok (.enter ⟨p, .block (c :: begun) waiting, x⟩ (.statement begun.length) c)⟩
  | last {p begun x b bs} : below = b :: bs →
      Acts host below s ⟨p, .block begun [], x⟩ ⟨⟨p, .block begun [], x⟩, s, .ok (.leave (.ok x))⟩
  | halt {p begun x} : below = [] →
      Acts host below s ⟨p, .block begun [], x⟩ ⟨⟨p, .block begun [], x⟩, s, .ok .halt⟩
  | foreign {p a x} : Acts host below s ⟨p, .foreign a, x⟩
      ⟨⟨p, .foreign a, x⟩, s, .error (unknownKind (Strange.stranger a))⟩

theorem acts [Strange α] (host : Host σ ε) (f : Frame α) (below : List (Frame α)) (s : σ) :
    f.Acts host below s (f.act host below s) := by
  obtain ⟨place, a, slot⟩ := f
  cases a with
  | literal => exact .literal
  | foreign => exact .foreign
  | binary symbol l r stage =>
      cases stage with
      | before => exact .left
      | onLeft =>
          cases slot with
          | none => exact .noLeft
          | some => exact .right
      | onRight v =>
          simp only [act, actBinary]
          cases hop : Operator.ofSymbol? symbol with
          | none => exact .unsupported hop
          | some op =>
              cases slot with
              | none => exact .noRight hop
              | some w =>
                  cases hx : Number.combine? op v w with
                  | none => simp only [hx]; exact .tooLarge hop hx
                  | some => simp only [hx]; exact .applied hop hx
  | print e begun =>
      cases begun with
      | false => exact .operand
      | true =>
          cases slot with
          | none => exact .noOperand
          | some v =>
              simp only [act, actPrint]
              split
              · rename_i h
                exact .refused h
              · rename_i h
                exact .printed h
  | block begun waiting =>
      cases waiting with
      | cons => exact .statement
      | nil =>
          cases below with
          | nil => exact .halt rfl
          | cons => exact .last rfl

namespace Acts

variable [Strange α] {host : Host σ ε} {top f : Frame α} {below : List (Frame α)} {s t : σ}

/-- A frame that fails stays as it is, or its number is lost to the host that failed to print it. -/
theorem error {e : Fault ε} (h : top.Acts host below s ⟨f, t, .error e⟩) :
    (f = top ∧ ∀ u, e ≠ .host u) ∨ ∃ v u, top.slot = some v ∧ e = .host u ∧ f = { top with slot := none } := by
  cases h with
  | noLeft | unsupported | noRight | noOperand => exact .inl ⟨rfl, by simp⟩
  | refused => exact .inr ⟨_, _, rfl, rfl, rfl⟩
  | @foreign _ a =>
      refine .inl ⟨rfl, fun u hu => ?_⟩
      unfold unknownKind at hu
      split at hu <;> cases hu

/-- A frame that leaves or halts the machine has nothing else to do, and at most its slot changes. -/
theorem done {effect : Effect α ε} (h : top.Acts host below s ⟨f, t, .ok effect⟩)
    (hne : ∀ g turn c, effect ≠ .enter g turn c) : f.activity = top.activity ∧ top.activity.work = 1 := by
  cases h with
  | left | right | operand | statement => exact (hne _ _ _ rfl).elim
  | literal | tooLarge | applied | printed | last | halt => exact ⟨rfl, rfl⟩

end Acts

end Frame

end Pausable
