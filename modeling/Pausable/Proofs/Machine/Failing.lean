import Pausable.Proofs.Machine.Evaluates
import Pausable.Proofs.Machine.Mirrored

/-!
Runs with a sink that may fail (`run_performs`). Up to the first failure such a run is one with a quiet sink, which
never fails: it remembers the failure and takes nothing from then on.
-/
namespace Pausable

variable {α σ ε : Type}

/-- A host that hands every number to a sink, which may fail, and takes no notes. -/
def Host.ofPrint (print : Number → σ → Except ε Unit × σ) : Host σ ε := ⟨print, fun _ s => s⟩

/-- The sink that does not fail: it remembers the first failure, and keeps quiet from then on. -/
def quiet (print : Number → σ → Except ε Unit × σ) (v : Number) (s : σ × Option ε) : σ × Option ε :=
  match s.2 with
  | some _ => s
  | none => match print v s.1 with
    | (.ok _, t) => (t, none)
    | (.error e, t) => (t, some e)

/-- A fault of a machine whose host does not fail. -/
def Fault.lift : Fault Empty → Fault ε
  | emptyStack => emptyStack
  | unknownKind shown => unknownKind shown
  | unsupportedOperator symbol => unsupportedOperator symbol
  | valuelessOperand c => valuelessOperand c
  | integerTooLarge => integerTooLarge

def Effect.lift : Effect α Empty → Effect α ε
  | enter entered t c => enter entered t c
  | leave v => leave (v.mapError Fault.lift)
  | halt => halt

/-- The world after the prints of a meaning, up to the first one that fails, and that failure. -/
def Meaning.perform (print : Number → σ → Except ε Unit × σ) (μ : Meaning) (s : σ) : σ × Option ε :=
  μ.prints.foldl (fun s v => quiet print v s) (s, none)

/-- The sink has not failed, and both machines do the same; or it has, and the quiet one remembers it. -/
def Outcome.Quiets (o : Outcome α σ ε) (q : Outcome α (σ × Option ε) Empty) : Prop :=
  (q.world = (o.world, none) ∧ q.machine = o.machine ∧ o.result = q.result.mapError Fault.lift) ∨
    ∃ e, o.result = .error (.host e) ∧ q.world = (o.world, some e)

namespace Machine

variable {print : Number → σ → Except ε Unit × σ}

theorem noteHalt_eq {host : Host σ ε} (hnote : ∀ n s, host.note n s = s) (m : Machine α) (s : σ) :
    m.noteHalt host s = s := by
  rw [noteHalt]
  split
  · exact hnote ..
  · rfl

theorem noteHalt_ofPrint (m : Machine α) (s : σ) : m.noteHalt (.ofPrint print) s = s := noteHalt_eq (fun _ _ => rfl) m s

theorem noteHalt_ofSink (sink : Number → σ → σ) (m : Machine α) (s : σ) : m.noteHalt (.ofSink sink) s = s :=
  noteHalt_eq (fun _ _ => rfl) m s

variable [Strange α]

/-- What the frame does is carried out alike. -/
theorem carry_quiets (m : Machine α) (below : List (Frame α)) (f : Frame α) (s : σ)
    (effect : Except (Fault Empty) (Effect α Empty)) :
    (carry (.ofPrint print) m below ⟨f, s, (effect.mapError Fault.lift).map Effect.lift⟩).Quiets
      (carry (.ofSink (quiet print)) m below ⟨f, (s, none), effect⟩) := by
  refine .inl ?_
  rcases effect with e | ⟨entered, turn, c⟩ | ⟨e | v⟩ | _
  · exact ⟨rfl, rfl, rfl⟩
  · simp only [Except.mapError, Except.map, Effect.lift, carry]
    cases c.kind with
    | error name => exact ⟨rfl, rfl, rfl⟩
    | ok _ => simp [finish, noteHalt_ofPrint, noteHalt_ofSink]
  · exact ⟨rfl, rfl, rfl⟩
  · simp [Except.mapError, Except.map, Effect.lift, carry, finish, noteHalt_ofPrint, noteHalt_ofSink]
  · simp [Except.mapError, Except.map, Effect.lift, carry, finish, noteHalt_ofPrint, noteHalt_ofSink]

theorem handOn_lift (v : Number) (below : List (Frame α)) :
    (Frame.handOn v below : Except (Fault ε) _) = (Frame.handOn v below).mapError Fault.lift := by
  rcases below with _ | ⟨⟨place, a, slot⟩, below⟩
  · rfl
  · cases a with
    | literal | binary | print | block => rfl
    | foreign a =>
        simp only [Frame.handOn]
        cases Strange.stranger a <;> rfl

/-- A frame acts alike with both hosts, unless it prints and the sink fails. -/
theorem act_quiets (print : Number → σ → Except ε Unit × σ) (f : Frame α) (below : List (Frame α)) (s : σ) :
    (∃ f' effect t, f.act (.ofSink (quiet print)) below (s, none) = ⟨f', (t, none), effect⟩ ∧
      f.act (.ofPrint print) below s = ⟨f', t, (effect.mapError Fault.lift).map Effect.lift⟩) ∨
    ∃ f' e t v, f.act (.ofPrint print) below s = ⟨f', t, .error (.host e)⟩ ∧
      f.act (.ofSink (quiet print)) below (s, none) = ⟨f', (t, some e), .ok (.leave (Frame.handOn v below))⟩ := by
  obtain ⟨place, a, slot⟩ := f
  cases a with
  | literal n => exact .inl ⟨_, _, _, rfl, rfl⟩
  | binary symbol l r stage =>
      refine .inl ⟨_, _, _, rfl, ?_⟩
      cases stage with
      | before left => rfl
      | onLeft left => cases slot <;> rfl
      | onRight v =>
          simp only [Frame.act, Frame.actBinary]
          cases Operator.ofSymbol? symbol with
          | none => rfl
          | some op =>
              cases slot with
              | none => rfl
              | some w =>
                  simp only []
                  cases Number.combine? op v w <;> rfl
  | print e begun =>
      cases begun with
      | false => exact .inl ⟨_, _, _, rfl, rfl⟩
      | true =>
          cases slot with
          | none => exact .inl ⟨_, _, _, rfl, rfl⟩
          | some v =>
              rcases hprint : print v s with ⟨err | _, t⟩
              · refine .inr ⟨⟨place, .print e true, none⟩, err, t, v, ?_, ?_⟩
                · simp only [Frame.act, Frame.actPrint, Host.ofPrint, hprint]
                · simp only [Frame.act, Frame.actPrint, Host.ofSink, quiet, hprint]
              · refine .inl ⟨⟨place, .print e true, none⟩, .ok (.leave (Frame.handOn v below)), t, ?_, ?_⟩
                · simp only [Frame.act, Frame.actPrint, Host.ofSink, quiet, hprint]
                · simp only [Frame.act, Frame.actPrint, Host.ofPrint, hprint]
                  rw [handOn_lift]
                  rfl
  | block begun waiting =>
      refine .inl ⟨_, _, _, rfl, ?_⟩
      cases waiting with
      | nil => cases below <;> rfl
      | cons c waiting => rfl
  | foreign a =>
      refine .inl ⟨_, _, _, rfl, ?_⟩
      simp only [Frame.act, Frame.unknownKind]
      cases Strange.stranger a <;> rfl

/-- With a host that takes no notes only the frame changes the world. -/
theorem carry_world {host : Host σ ε} (hnote : ∀ n s, host.note n s = s) (m : Machine α) (below : List (Frame α))
    (a : Acted α σ ε) : (carry host m below a).world = a.world := by
  obtain ⟨f, s, e | ⟨entered, turn, c⟩ | ⟨e | v⟩ | _⟩ := a
  · rfl
  · simp only [carry]
    cases c.kind with
    | error name => rfl
    | ok _ => exact noteHalt_eq hnote ..
  · rfl
  · simp only [carry, finish, noteHalt_eq hnote]
  · simp only [carry, finish, noteHalt_eq hnote]

theorem kind_lift (f : Frame α) : (f.kind : Except (Fault ε) Kind) = f.kind.mapError Fault.lift := by
  obtain ⟨place, a, slot⟩ := f
  cases a with
  | literal | binary | print | block => rfl
  | foreign a =>
      simp only [Frame.kind, Frame.unknownKind]
      cases Strange.stranger a <;> rfl

theorem step_of_kind {host : Host σ ε} (hnote : ∀ n s, host.note n s = s) {top : Frame α} {k : Kind}
    (hk : (top.kind : Except (Fault ε) Kind) = .ok k) (below : List (Frame α)) (n : Nat) (s : σ) :
    step host ⟨top :: below, false, n⟩ s = carry host ⟨top :: below, false, n⟩ below (top.act host below s) := by
  simp only [step, Bool.false_eq_true, ↓reduceIte, hk, hnote]

theorem step_quiets (print : Number → σ → Except ε Unit × σ) (m : Machine α) (s : σ) :
    (m.step (.ofPrint print) s).Quiets (m.step (.ofSink (quiet print)) (s, none)) := by
  obtain ⟨stack, halted, n⟩ := m
  cases halted with
  | true => exact .inl ⟨rfl, rfl, rfl⟩
  | false =>
      cases stack with
      | nil => exact .inl ⟨rfl, rfl, rfl⟩
      | cons top below =>
          have hlift := kind_lift (ε := ε) top
          cases hk : (top.kind : Except (Fault Empty) Kind) with
          | error e =>
              rw [hk] at hlift
              refine .inl ?_
              simp only [step, Bool.false_eq_true, ↓reduceIte, hk, hlift]
              exact ⟨rfl, rfl, rfl⟩
          | ok k =>
              rw [hk] at hlift
              rw [step_of_kind (fun _ _ => rfl) hk, step_of_kind (fun _ _ => rfl) hlift]
              rcases act_quiets print top below s with ⟨f, effect, t, hq, ho⟩ | ⟨f, e, t, v, ho, hq⟩
              · rw [hq, ho]
                exact carry_quiets ..
              · exact .inr ⟨e, by rw [ho]; rfl, by rw [carry_world fun _ _ => rfl, hq, ho]; rfl⟩

/-- When it has failed, the quiet sink takes nothing. -/
theorem run_quieted (m : Machine α) (s : σ) (e : ε) :
    (m.run (.ofSink (quiet print)) (s, some e)).world = (s, some e) := by
  let R : σ × Option ε → σ × Option ε → Prop := fun t _ => t = (s, some e)
  have hmirrors : (Host.ofSink (quiet print)).Mirrors R (.ofSink (quiet print)) :=
    ⟨fun v h => ⟨rfl, by rw [h]; rfl⟩, fun _ _ h => h⟩
  exact (run_mirrored (t := (s, some e)) hmirrors rfl m 0).world

/-- A run is quiet up to the first failure of the sink, and ends there. -/
theorem run_quiets (print : Number → σ → Except ε Unit × σ) (m : Machine α) (s : σ) :
    (m.run (.ofPrint print) s).Quiets (m.run (.ofSink (quiet print)) (s, none)) := by
  induction hw : m.work using Nat.strong_induction_on generalizing m s with
  | h w ih =>
      rcases step_quiets print m s with hsame | ⟨e, he, hworld⟩
      · obtain ⟨hworld, hmachine, hresult⟩ := hsame
        by_cases hmore : (m.step (.ofPrint print) s).result = .ok true
        · have hmore' : (m.step (.ofSink (quiet print)) (s, none)).result = .ok true := by
            rw [hmore] at hresult
            cases hr : (m.step (.ofSink (quiet print)) (s, none)).result with
            | error e => rw [hr] at hresult; cases hresult
            | ok more => rw [hr] at hresult; cases hresult; rfl
          have hless := work_step hmore
          rw [run_of_more hmore, run_of_more hmore', hworld, hmachine]
          exact ih _ (by omega) _ _ rfl
        · have hmore' : (m.step (.ofSink (quiet print)) (s, none)).result ≠ .ok true := by
            intro hr
            rw [hr] at hresult
            exact hmore hresult
          rw [run_of_not_more hmore, run_of_not_more hmore']
          exact .inl ⟨hworld, hmachine, hresult⟩
      · have hstop : m.run (.ofPrint print) s = m.step (.ofPrint print) s := run_of_not_more (by rw [he]; exact nofun)
        rw [hstop]
        refine .inr ⟨e, he, ?_⟩
        by_cases hmore : (m.step (.ofSink (quiet print)) (s, none)).result = .ok true
        · rw [run_of_more hmore, hworld, run_quieted]
        · rw [run_of_not_more hmore, hworld]

/-- A run with a sink that does not fail goes through the prints of the tree, and ends with its value or its fault. -/
theorem Closes.run {sink : Number → σ → σ} {m : Machine α} {s : σ} {μ : Meaning} {k : Nat}
    (h : Closes sink [] k m s μ) :
    (m.run (.ofSink sink) s).world = μ.pass sink s ∧
      (m.run (.ofSink sink) s).result.map (fun _ => (m.run (.ofSink sink) s).machine.value) = μ.result := by
  unfold Closes at h
  split at h
  · rename_i e he
    obtain ⟨k, m', t, hl, -, hr, hw⟩ := h
    have hrun : m.run (.ofSink sink) s = m'.step (.ofSink sink) t :=
      hl.run_eq.trans (run_of_not_more (by rw [hr]; exact nofun))
    rw [hrun, hr, hw]
    exact ⟨rfl, he.symm⟩
  · rename_i v hv
    obtain ⟨m', t, hl, -, f, k, hs, hf⟩ := h
    have hrun : m.run (.ofSink sink) s = m'.step (.ofSink sink) t :=
      hl.run_eq.trans (run_of_not_more (by rw [hs]; exact nofun))
    rw [hrun, hs]
    exact ⟨rfl, by rw [hv, ← hf]; rfl⟩

/-- A run hands on the prints of the tree up to the first one that fails. That failure ends it, or else the value or
the fault of the tree. -/
theorem run_performs (print : Number → σ → Except ε Unit × σ) (n : Node Empty) (s : σ) :
    let o := (ofRoot n).run (.ofPrint print) s
    let performed := (n.meaning true).perform print s
    o.world = performed.1 ∧
      o.result.map (fun _ => o.machine.value) = match performed.2 with
        | some e => .error (.host e)
        | none => (n.meaning true).result.mapError Fault.lift := by
  intro o performed
  have hc : Closes (quiet print) [] (2 * n.count - 2) (ofRoot n) (s, none) (n.meaning true) :=
    n.closes [] (some []) 0 (s, none)
  obtain ⟨hworld, hresult⟩ := hc.run
  have hperformed : ((ofRoot n).run (.ofSink (quiet print)) (s, none)).world = performed := hworld
  rcases run_quiets print (ofRoot n) s with ⟨hw, hm, hr⟩ | ⟨e, hr, hw⟩
  · rw [← hperformed, hw]
    refine ⟨rfl, ?_⟩
    rw [← hresult, hm, hr]
    cases ((ofRoot n).run (.ofSink (quiet print)) (s, none)).result <;> rfl
  · rw [← hperformed, hw]
    exact ⟨rfl, by rw [hr]; rfl⟩

end Machine
end Pausable
