import Pausable.Command.Perform
import Pausable.Proofs.Machine.Mirrored

/-!
What the parts of a command do to the workspace and to the lines for the reader, whatever is logged (`Act.Does`).
Each part has one lemma that gives its result and what can be seen behind it; a command is put together from them.
-/
namespace Pausable.Command

variable {β γ ε : Type}

/-- What can be seen of a shell beside the log. -/
structure View where
  workspace : Workspace
  /-- The pieces for the reader, the last one first. -/
  out : List Text

def Shell.view (s : Shell) : View := ⟨s.workspace, s.console.out⟩

/-- In every shell with the first view, the act gives the result and leads to the second view. -/
structure Act.Does (a : Act β) (v : View) (r : Except Failure β) (v' : View) : Prop where
  run (s : Shell) : s.view = v → (a.run.run s).1 = r ∧ (a.run.run s).2.view = v'

/-! ## Rules -/

namespace Act

section

variable {v v' : View} {a : Act β} {f : β → Act γ} {r : Except Failure γ}

theorem does_pure (b : β) (v : View) : (pure b : Act β).Does v (.ok b) v := ⟨fun _ hs => ⟨rfl, hs⟩⟩

theorem does_throw (e : Failure) (v : View) : (throw e : Act β).Does v (.error e) v :=
  ⟨fun _ hs => ⟨rfl, hs⟩⟩

theorem run_bind (a : Act β) (f : β → Act γ) (s : Shell) : (a >>= f).run.run s =
    match a.run.run s with
    | (.ok b, s') => (f b).run.run s'
    | (.error e, s') => (.error e, s') := by
  rw [ExceptT.run_bind, StateT.run_bind]
  obtain ⟨r, s'⟩ := a.run.run s
  cases r <;> rfl

theorem Does.bind {b : β} {v'' : View} (ha : a.Does v (.ok b) v') (hf : (f b).Does v' r v'') :
    (a >>= f).Does v r v'' := by
  refine ⟨fun s hs => ?_⟩
  obtain ⟨hresult, hview⟩ := ha.run s hs
  rw [run_bind]
  generalize a.run.run s = o at hresult hview
  obtain ⟨r', s'⟩ := o
  cases hresult
  exact hf.run s' hview

theorem Does.bind_ok {x : Except Failure β} {b : β} {v'' : View} (ha : a.Does v x v') (hx : x = .ok b)
    (hf : (f b).Does v' r v'') : (a >>= f).Does v r v'' := (hx ▸ ha).bind hf

theorem Does.fail {e : Failure} (ha : a.Does v (.error e) v') : (a >>= f).Does v (.error e) v' := by
  refine ⟨fun s hs => ?_⟩
  obtain ⟨hresult, hview⟩ := ha.run s hs
  rw [run_bind]
  generalize a.run.run s = o at hresult hview
  obtain ⟨r', s'⟩ := o
  cases hresult
  exact ⟨rfl, hview⟩

/-- Where an act leaves what is seen as it is, the rest goes on from there if it succeeds. -/
theorem Does.bind_keeps {r : Except Failure β} {g : β → Except Failure γ} (ha : a.Does v r v)
    (hf : ∀ b, (f b).Does v (g b) v) : (a >>= f).Does v (r >>= g) v := by
  cases r with
  | error e => exact ha.fail
  | ok b => exact ha.bind (hf b)

theorem Does.bind_returns {r : Except Failure β} {f : β → Act β} (ha : a.Does v r v)
    (hf : ∀ b, (f b).Does v (.ok b) v) : (a >>= f).Does v r v := by
  cases r with
  | error e => exact ha.fail
  | ok b => exact ha.bind (hf b)

theorem does_get {f : Shell → Act β} {r : Except Failure β} (hf : ∀ s : Shell, s.view = v → (f s).Does v r v') :
    (get >>= f).Does v r v' := by
  refine ⟨fun s hs => ?_⟩
  rw [run_bind]
  exact (hf s hs).run s hs

theorem does_set {s : Shell} {v : View} (hs : s.view = v') : (set s : Act Unit).Does v (.ok ()) v' :=
  ⟨fun _ _ => ⟨rfl, hs⟩⟩

theorem does_ofExcept (failure : ε → Failure) (r : Except ε β) (v : View) :
    (ofExcept failure r).Does v (r.mapError failure) v := by
  cases r with
  | error e => exact does_throw _ v
  | ok b => exact does_pure b v

theorem does_writing {f : Console → Console} (hf : ∀ c, (f c).out = c.out) (v : View) :
    (writing f).Does v (.ok ()) v := by
  refine ⟨?_⟩
  rintro ⟨w, c⟩ rfl
  refine ⟨rfl, ?_⟩
  show View.mk w (f c).out = View.mk w c.out
  rw [hf]

theorem does_say (t : Text) (v : View) :
    (writing (Console.say t)).Does v (.ok ()) ⟨v.workspace, (t ++ "\n") :: v.out⟩ := by
  refine ⟨?_⟩
  rintro ⟨w, c⟩ rfl
  exact ⟨rfl, rfl⟩

end

end Act

/-! ## The console -/

namespace Console

theorem out_log (level : Text) (source : Source) (t : Text) (c : Console) : (log level source t c).out = c.out := by
  rw [log]
  split <;> rfl

theorem out_note (n : Note) (c : Console) : (note n c).out = c.out := by
  cases n <;> exact out_log ..

/-- The host that keeps the numbers that are printed, the last one first. It fails where the console does. -/
def sheet : Host (List Number) PrintError where
  print v vs :=
    match v.print? with
    | some _ => (.ok (), v :: vs)
    | none => (.error .numeralTooLong, vs)
  note _ vs := vs

/-- The lines of numbers that were printed, the last one first. -/
def tape (vs : List Number) : List Text := vs.map fun v => v.print?.getD [] ++ "\n"

/-- A console answers like a sheet, and has the lines of its numbers. -/
theorem mirrors_sheet (out : List Text) :
    sheet.Mirrors (fun vs (c : Console) => c.out = tape vs ++ out) host where
  print := by
    intro vs c v hc
    simp only [sheet, host, print]
    cases hv : v.print? with
    | none => exact ⟨rfl, hc⟩
    | some t =>
        refine ⟨rfl, ?_⟩
        simp only [say, write, hc, tape, List.map_cons, hv, Option.getD_some, List.cons_append]
  note := by
    intro vs c n n' hc
    exact (out_note n' c).trans hc

end Console

/-! ## Parts of commands -/

def counted (n : Int) : Except Failure Nat := if n < 0 then .error .negativeSteps else .ok n.toNat

/-- The program in the file that a path leads to. -/
def programAt (w : Workspace) (path : Text) : Except Failure (Node Empty) := do
  let bytes ← (w.readFile path).mapError (.path path)
  let text ← bytes.decodeUtf8.mapError .decode
  let value ← (Json.read text.unifyLineEnds).mapError .json
  (Node.ofValue value).mapError .node

def machineAt (w : Workspace) (p : Place) (handle : Text) : Except Failure (Machine Empty) := do
  let h ← (Store.handleOf handle).mapError .store
  ((w.store p).load h).mapError .store

/-- What comes of steps whose prints are kept on a sheet. -/
def evaluated (steps : Option Nat) (m : Machine Empty) : Outcome Empty (List Number) Console.PrintError :=
  m.proceed Console.sheet steps []

/-- The machine behind these steps, and whether there is more to do. -/
def progress (o : Outcome Empty (List Number) Console.PrintError) : Except Failure (Machine Empty × Bool) :=
  (o.result.mapError .fault).map (o.machine, ·)

/-- An addition of a machine to the store at a place. -/
def added (w : Workspace) (p : Place) (m : Machine Empty) (label : Text) : Store.Added :=
  (w.store p).addMachine Handle.ofBytes w.clock m (some label) .null

/-- The workspace behind an addition. -/
def keeping (w : Workspace) (p : Place) (a : Store.Added) : Workspace :=
  { w.setStore p a.store with clock := a.clock }

/-- The line that tells a value. -/
def valueLine : Option Number → Except Failure Text
  | none => .ok "Result: None"
  | some v =>
    match v.print? with
    | some t => .ok ("Result: " ++ t)
    | none => .error .numeralTooLong

theorem counted_natCast (n : Nat) : counted n = .ok n := by
  rw [counted, if_neg (Int.not_lt.2 (Int.natCast_nonneg n))]
  rfl

namespace Act

theorem does_stepCount (n : Int) (v : View) : (stepCount n).Does v (counted n) v := by
  rw [stepCount, counted]
  split
  · exact does_throw _ v
  · exact does_pure _ v

theorem does_stepCounts (steps : Option Int) (v : View) : (steps.mapM stepCount).Does v (steps.mapM counted) v := by
  cases steps with
  | none => exact does_pure none v
  | some n => exact (does_stepCount n v).bind_keeps fun k => does_pure (some k) v

theorem does_readProgram (path : Text) (v : View) : (readProgram path).Does v (programAt v.workspace path) v := by
  refine does_get fun s hs => ?_
  cases hs
  refine (does_ofExcept ..).bind_keeps fun bytes => (does_ofExcept ..).bind_keeps fun text =>
    (does_ofExcept ..).bind_keeps fun value => (does_ofExcept ..).bind_returns fun program => ?_
  exact (does_writing (Console.out_log _ _ _) _).bind (does_pure program _)

theorem does_openStore (path : Text) (v : View) :
    (openStore path).Does v ((v.workspace.openStore path).1.mapError .opening)
      ⟨(v.workspace.openStore path).2, v.out⟩ := by
  refine does_get fun s hs => ?_
  cases hs
  have hview : s.view.workspace = s.workspace := rfl
  rw [hview]
  obtain ⟨result, workspace⟩ := s.workspace.openStore path
  exact (does_set rfl).bind (does_ofExcept ..)

theorem does_store (p : Place) (v : View) : (store p).Does v (.ok (v.workspace.store p)) v := by
  refine does_get fun s hs => ?_
  cases hs
  exact does_pure _ _

theorem does_load (p : Place) (handle : Text) (v : View) :
    (load p handle).Does v (machineAt v.workspace p handle) v := by
  refine (does_ofExcept ..).bind_keeps fun h => ?_
  refine (does_store p v).bind ((does_ofExcept ..).bind_returns fun m => ?_)
  exact (does_writing (Console.out_note _) _).bind
    ((does_writing (Console.out_log _ _ _) _).bind (does_pure m _))

/-- Steps on the console come to the same as on a sheet. -/
theorem does_work (steps : Option Nat) (m : Machine Empty) (v : View) :
    (work (m.proceed Console.host steps)).Does v (progress (evaluated steps m))
      ⟨v.workspace, Console.tape (evaluated steps m).world ++ v.out⟩ := by
  refine ⟨?_⟩
  rintro ⟨w, c⟩ rfl
  have hmirrored := Machine.proceed_mirrored (Console.mirrors_sheet c.out) (s := []) (t := c) rfl m 0 steps
  have hmachine : (m.proceed Console.host steps c).machine = (evaluated steps m).machine := hmirrored.machine
  have hresult : (m.proceed Console.host steps c).result = (evaluated steps m).result := hmirrored.result
  refine ⟨?_, ?_⟩
  · rw [progress, ← hmachine, ← hresult]
    rfl
  · exact congrArg (View.mk w) hmirrored.world

theorem does_worked {steps : Option Nat} {m : Machine Empty} {more : Bool} (h : (evaluated steps m).result = .ok more)
    (w : Workspace) : (work (m.proceed Console.host steps)).Does ⟨w, []⟩ (.ok ((evaluated steps m).machine, more))
      ⟨w, Console.tape (evaluated steps m).world⟩ := by
  have hdoes := does_work steps m ⟨w, []⟩
  rw [List.append_nil, progress, h] at hdoes
  exact hdoes

theorem does_save (p : Place) (m : Machine Empty) (label : Text) (v : View) :
    (save p m label).Does v (((added v.workspace p m label).result.mapError .store).map fun _ => ())
      ⟨keeping v.workspace p (added v.workspace p m label),
        match (added v.workspace p m label).result with
        | .ok h => (h.toText ++ "\n") :: v.out
        | .error _ => v.out⟩ := by
  refine does_get fun s hs => ?_
  cases hs
  have hadded : added s.view.workspace p m label =
      (s.workspace.store p).addMachine Handle.ofBytes s.workspace.clock m (some label) .null := rfl
  have hkeeping (a : Store.Added) : keeping s.view.workspace p a =
      { s.workspace.setStore p a.store with clock := a.clock } := rfl
  rw [hadded, hkeeping]
  generalize (s.workspace.store p).addMachine Handle.ofBytes s.workspace.clock m (some label) .null = a
  refine (does_set rfl).bind ?_
  have hknown (w : View) : (a.known.forM fun h => writing (Console.debug .store
      ("Snapshot " ++ h.toText ++ " already stored"))).Does w (.ok ()) w := by
    cases a.known with
    | none => exact does_pure _ _
    | some h => exact does_writing (Console.out_log _ _ _) _
  refine (hknown _).bind ?_
  cases a.result with
  | error e => exact (does_throw _ _).fail
  | ok h => exact (does_pure _ _).bind ((does_writing (Console.out_log _ _ _) _).bind (does_say _ _))

theorem does_saved {v : View} {p : Place} {m : Machine Empty} {label : Text} {h : Handle}
    (hadded : (added v.workspace p m label).result = .ok h) : (save p m label).Does v (.ok ())
      ⟨keeping v.workspace p (added v.workspace p m label), (h.toText ++ "\n") :: v.out⟩ := by
  have hdoes := does_save p m label v
  rw [hadded] at hdoes
  exact hdoes

theorem does_resultLine (x : Option Number) (v : View) : (resultLine x).Does v (valueLine x) v := by
  cases x with
  | none => exact does_pure _ v
  | some n =>
      rw [resultLine, valueLine]
      cases n.print? with
      | none => exact does_throw _ v
      | some t => exact does_pure _ v

theorem does_shown {v : View} {m : Machine Empty} {shows : Bool} {t : Text}
    (ht : shows = true → valueLine m.value = .ok t) : (if shows then showResult m else pure ()).Does v (.ok ())
      ⟨v.workspace, (if shows then [t ++ "\n"] else []) ++ v.out⟩ := by
  cases shows with
  | false => exact does_pure () v
  | true => exact (does_resultLine m.value v).bind_ok (ht rfl) (does_say t v)

end Act
end Pausable.Command
