import Pausable.Proofs.Json.RoundTrip
import Pausable.Proofs.Machine.Evaluates
import Pausable.Proofs.Machine.Mirrored
import Pausable.Proofs.Machine.Reload
import Pausable.Proofs.Machine.Saved
import Pausable.Proofs.Wire.RoundTrip

/-!
A run that pauses ends like one that does not. At a pause a copy takes the place of the machine, and
differs from it in its counter of steps only (`copy_eq`); and a run does the same whatever is counted
(`run_counted`).
-/
namespace Pausable

variable {α σ ε : Type}

/-- The ways in which a machine is copied: by its record, by JSON text and by snapshot text. -/
inductive Route where
  | data
  | json
  | text

/-- The reasons for which a machine is not copied. -/
inductive CopyError where
  | save (e : SaveError)
  | restore (e : RestoreError)

/-- What comes of a run: the world, the number of steps that did not fail, and the value at the root or
the fault. -/
structure Ending (σ ε : Type) where
  world : σ
  steps : Nat
  result : Except (Fault ε) (Option Number)

def Outcome.ending (o : Outcome α σ ε) : Ending σ ε :=
  ⟨o.world, o.machine.steps, o.result.map fun _ => o.machine.value⟩

namespace Machine

def copy [Strange α] (m : Machine α) : Route → Except CopyError (Machine α)
  | .data => do (ofValue (← m.toValue.mapError .save)).mapError .restore
  | .json => do (ofJson (← m.toJson.mapError .save)).mapError .restore
  | .text => do (ofText (← m.toText.mapError .save)).mapError .restore

section

variable [Strange α] (host : Host σ ε)

/-- Runs a machine with pauses, each so many steps after the one before. At a pause a copy takes the
place of the machine. The steps of all copies are counted. -/
def drive : List (Nat × Route) → Machine α → σ → Except CopyError (Ending σ ε)
  | [], m, s => .ok (m.run host s).ending
  | (k, r) :: pauses, m, s =>
    let o := m.advance host k s
    match o.result with
    | .error _ => .ok o.ending
    | .ok _ => do
      let e ← drive pauses (← o.machine.copy r) o.world
      return { e with steps := o.machine.steps + e.steps }

/-- The machines at the points where pauses would be, in a run without any. -/
def stops : List (Nat × Route) → Machine α → σ → List (Machine α)
  | [], _, _ => []
  | (k, _) :: pauses, m, s =>
    let o := m.advance host k s
    match o.result with
    | .error _ => []
    | .ok _ => o.machine :: stops pauses o.machine o.world

end

/-- The record of the machine holds no integer that is too long. -/
def Short [Strange α] (m : Machine α) : Prop := ∀ v, m.toValue = .ok v → ∀ n ∈ v.numbers, n.Short

instance [Strange α] (m : Machine α) : Decidable m.Short :=
  match h : m.toValue with
  | .ok v => decidable_of_iff (∀ n ∈ v.numbers, n.Short)
      ⟨fun hs _ hw => Except.ok.inj (h.symm.trans hw) ▸ hs, fun hs => hs v h⟩
  | .error _ => isTrue fun _ hv => nomatch h.symm.trans hv

/-- The machine with no steps counted. -/
def recounted (m : Machine α) : Machine α := { m with steps := 0 }

end Machine

def Outcome.counted (o : Outcome α σ ε) (k : Nat) : Outcome α σ ε := { o with machine := o.machine.counted k }

theorem Outcome.ending_counted (o : Outcome α σ ε) (k : Nat) :
    (o.counted k).ending = { o.ending with steps := k + o.ending.steps } := by
  simp only [ending, counted, Machine.counted, Ending.mk.injEq, true_and]
  exact ⟨Nat.add_comm _ _, rfl⟩

theorem Outcome.Mirrors.eq_counted {k : Nat} {o o' : Outcome α σ ε} (h : o.Mirrors Eq k o') : o' = o.counted k := by
  obtain ⟨machine, world, result⟩ := o'
  rw [counted, h.world, ← h.machine, ← h.result]

namespace Machine

theorem counted_recounted (m : Machine α) : m.recounted.counted m.steps = m := by
  simp only [counted, recounted, Nat.zero_add]

section Counted

variable {sink : Number → σ → σ} {k : Nat} {m : Machine Empty} {s : σ}

theorem mirrors_ofSink (sink : Number → σ → σ) : (Host.ofSink sink).Mirrors Eq (Host.ofSink sink) where
  print := by
    rintro s _ v rfl
    exact ⟨rfl, rfl⟩
  note := by
    rintro s _ n n' rfl
    rfl

/-- A run does the same whatever is counted. -/
theorem run_counted : (m.counted k).run (.ofSink sink) s = (m.run (.ofSink sink) s).counted k :=
  (run_mirrored (mirrors_ofSink sink) rfl m k).eq_counted

theorem advance_counted {j : Nat} :
    (m.counted k).advance (.ofSink sink) j s = (m.advance (.ofSink sink) j s).counted k :=
  (advance_mirrored (mirrors_ofSink sink) rfl m k j).eq_counted

theorem stops_counted (pauses : List (Nat × Route)) :
    (m.counted k).stops (.ofSink sink) pauses s = (m.stops (.ofSink sink) pauses s).map (·.counted k) := by
  induction pauses generalizing m s with
  | nil => rfl
  | cons p pauses ih =>
      simp only [stops, advance_counted, Outcome.counted]
      cases (m.advance (.ofSink sink) p.1 s).result with
      | error e => rfl
      | ok more => exact congrArg (_ :: ·) ih

theorem ending_recounted : (m.run (.ofSink sink) s).ending =
    { (m.recounted.run (.ofSink sink) s).ending with
      steps := m.steps + (m.recounted.run (.ofSink sink) s).ending.steps } := by
  have hrun : (m.recounted.counted m.steps).run (.ofSink sink) s =
      (m.recounted.run (.ofSink sink) s).counted m.steps := run_counted
  rw [counted_recounted] at hrun
  rw [hrun, Outcome.ending_counted]

end Counted

section Copy

variable {m : Machine Empty} {n : Node Empty}

theorem unjoined_of_scalar {t : Text} (h : Json.Scalar t) : Wire.Unjoined t := by
  refine List.Pairwise.isChain (List.pairwise_of_forall_mem_list fun c hc d _ hhigh => ?_)
  rw [Json.isHigh_of_isSurrogate (h c hc)] at hhigh
  cases hhigh

/-- A machine is copied on each route, and nothing but its counter changes. -/
theorem copy_eq (h : m.Linked) (hr : m.root? = some n) (hn : ∀ t ∈ n.symbols, Json.Scalar t) (hs : m.Short)
    (r : Route) : m.copy r = .ok m.recounted := by
  obtain ⟨v, hv, hback⟩ := h.reload
  have hscalar := scalar_toValue hr hn hv
  cases r with
  | data =>
      rw [copy, hv]
      exact congrArg (Except.mapError _) hback
  | json =>
      have hplain := Value.Plain.imp (fun _ => Json.Scalar.unpaired) v hscalar (hs v hv)
      have hto : m.toJson = .ok (Json.format.text v) := by
        simp only [toJson, hv, Json.write_plain hplain]
        rfl
      have hof : ofJson (Json.format.text v) = .ok m.recounted := by
        simp only [ofJson, Json.read_text hplain]
        exact hback
      rw [copy, hto]
      exact congrArg (Except.mapError _) hof
  | text =>
      have hplain := Value.Plain.imp (fun _ => unjoined_of_scalar) v hscalar (hs v hv)
      have hto : m.toText = .ok (Wire.format.text v) := by
        simp only [toText, hv, Wire.write_plain hplain]
        rfl
      have hof : ofText (Wire.format.text v) = .ok m.recounted := by
        simp only [ofText, Wire.read_text hplain]
        exact hback
      rw [copy, hto]
      exact congrArg (Except.mapError _) hof

end Copy

section Drive

variable {sink : Number → σ → σ} {m : Machine Empty} {n : Node Empty} {s : σ}

/-- A drive with pauses ends like a run without any. -/
theorem drive_linked {pauses : List (Nat × Route)} (h : m.Linked) (hr : m.root? = some n)
    (hn : ∀ t ∈ n.symbols, Json.Scalar t) (hs : ∀ m' ∈ m.stops (.ofSink sink) pauses s, m'.Short) :
    m.drive (.ofSink sink) pauses s = .ok (m.run (.ofSink sink) s).ending := by
  -- each copy has counted no steps, so the machine is general in the induction over the pauses
  induction pauses generalizing m s with
  | nil => rfl
  | cons p pauses ih =>
      obtain ⟨k, r⟩ := p
      have hl : (m.advance (.ofSink sink) k s).machine.Linked := advance_keeps (fun h => h.step) h
      have hroot : (m.advance (.ofSink sink) k s).machine.root? = some n :=
        advance_keeps (P := fun m => m.root? = some n) (fun h => by rw [root?_step, h]) hr
      cases ho : (m.advance (.ofSink sink) k s).result with
      | error e => simp only [drive, ho, run_of_fault ho]
      | ok more =>
          have hrun := run_advance ho
          simp only [stops, ho, List.forall_mem_cons] at hs
          simp only [drive, ho]
          generalize m.advance (.ofSink sink) k s = o at *
          obtain ⟨hshort, hs⟩ := hs
          have hcopy := copy_eq hl hroot hn hshort r
          have hrest : o.machine.recounted.drive (.ofSink sink) pauses o.world =
              .ok (o.machine.recounted.run (.ofSink sink) o.world).ending := by
            refine ih ⟨hl.path, hl.alone⟩ hroot fun m' hm' => ?_
            rw [← counted_recounted o.machine, stops_counted] at hs
            exact hs (m'.counted o.machine.steps) (List.mem_map_of_mem hm')
          rw [← hrun, ending_recounted, hcopy]
          exact congrArg (Except.map _) hrest

/-- Pauses change nothing: the driver of a tree with copies at any points and on any routes comes to the
same world, with the same number of steps and the same value or fault as a run of the tree. -/
theorem drive_eq_run (sink : Number → σ → σ) (n : Node Empty) (pauses : List (Nat × Route)) (s : σ)
    (hn : ∀ t ∈ n.symbols, Json.Scalar t)
    (hs : ∀ m ∈ (ofRoot n).stops (.ofSink sink) pauses s, m.Short) :
    start n = .ok (ofRoot n) ∧
      (ofRoot n).drive (.ofSink sink) pauses s = .ok ((ofRoot n).run (.ofSink sink) s).ending :=
  ⟨start_ofRoot n, drive_linked (linked_ofRoot n) (by rw [root?]; simp [ofRoot, Frame.node]) hn hs⟩

/-- Two prints, one of a sum. -/
def sample : Node Empty :=
  .block [.print (.binary "+" (.literal (.int 40)) (.literal (.int 2))), .print (.literal (.float .nan))]

/-- Pauses within the sum, two of them at one point, and one behind the end. -/
def samplePauses : List (Nat × Route) := [(4, .text), (1, .json), (0, .data), (20, .text)]

theorem drive_eq_run_sample :
    (∀ t ∈ sample.symbols, Json.Scalar t) ∧
      (∀ m ∈ (ofRoot sample).stops (.ofSink List.cons) samplePauses [], m.Short) ∧
      (ofRoot sample).drive (.ofSink List.cons) samplePauses [] =
        .ok ((ofRoot sample).run (.ofSink List.cons) []).ending := by
  have hsymbols : ∀ t ∈ sample.symbols, Json.Scalar t := by decide
  have hshort : ∀ m ∈ (ofRoot sample).stops (.ofSink List.cons) samplePauses [], m.Short := by decide +kernel
  exact ⟨hsymbols, hshort, (drive_eq_run List.cons sample samplePauses [] hsymbols hshort).2⟩

end Drive

end Machine

end Pausable
