import Pausable.Proofs.Command.Failures

/-!
How the commands that run a machine end (`Line.ended`). A command loads a machine and takes its steps, stores it if
that is asked for, and shows its value if that is. It is done if all of this succeeds; else the first failure ends it.
-/
namespace Pausable.Command

variable {β γ : Type}

/-- The requests that run a machine. -/
inductive Job where
  | run (program : Text) (shows : Bool)
  | step (program store label : Text) (steps : Int)
  | resume (handle store label : Text) (steps : Option Int) (saves shows : Bool)

/-- An addition to the store that a path leads to. -/
def stored (w : Workspace) (folder : Text) (m : Machine Empty) (label : Text) : Except Failure Unit := do
  let p ← (w.openStore folder).1.mapError .opening
  ((added (w.openStore folder).2 p m label).result.mapError .store).map fun _ => ()

def shown (m : Machine Empty) : Except Failure Unit := do
  let _ ← valueLine m.value

namespace Job

def request : Job → Request
  | run program shows => .run program shows
  | step program store label steps => .step program store label steps
  | resume handle store label steps saves shows => .resume handle store label steps saves shows

/-- The machine that the steps lead to, and whether there is more to do. -/
def evaluation (w : Workspace) : Job → Except Failure (Machine Empty × Bool)
  | run path _ => do
    let program ← programAt w path
    progress (evaluated none (.ofRoot program))
  | step path _ _ steps => do
    let n ← counted steps
    let program ← programAt w path
    progress (evaluated (some n) (.ofRoot program))
  | resume handle folder _ steps _ _ => do
    let n ← steps.mapM counted
    let p ← (w.openStore folder).1.mapError .opening
    let m ← machineAt (w.openStore folder).2 p handle
    progress (evaluated n m)

def storing (w : Workspace) (m : Machine Empty) : Job → Except Failure Unit
  | run .. => pure ()
  | step _ folder label _ => stored w folder m label
  | resume _ folder label _ saves _ => if saves then stored w folder m label else pure ()

/-- A value is shown if that is asked for, and where steps halt. -/
def showing (m : Machine Empty) (more : Bool) : Job → Except Failure Unit
  | run _ shows => if shows then shown m else pure ()
  | step .. => if !more then shown m else pure ()
  | resume _ _ _ _ _ shows => if !more && shows then shown m else pure ()

/-- All that is asked for succeeds, or this is what fails first. -/
def verdict (w : Workspace) (j : Job) : Except Failure Unit := do
  let (m, more) ← j.evaluation w
  j.storing w m
  j.showing m more

/-- Where its evaluation fails, a job leaves the stores as they were. -/
def Spares (j : Job) (w : Workspace) (v : View) : Prop :=
  ∀ e, j.evaluation w = .error e → ∀ p, v.workspace.store p = w.store p

variable {j : Job} {w : Workspace} {v : View}

theorem spares_of_store (h : ∀ p, v.workspace.store p = w.store p) : j.Spares w v := fun _ _ => h

theorem spares_of_ok {r : Machine Empty × Bool} (h : j.evaluation w = .ok r) : j.Spares w v := by
  intro e he
  cases h.symm.trans he

end Job

/-! ## What comes of a job -/

namespace Act

/-- In every shell with this view the act gives the result and leads to a view of which `Q` holds. -/
def Ends (a : Act β) (v : View) (r : Except Failure β) (Q : View → Prop) : Prop := ∃ v', a.Does v r v' ∧ Q v'

variable {v v' : View} {a : Act β} {f : β → Act γ} {r : Except Failure β} {g : β → Except Failure γ} {Q : View → Prop}

theorem Ends.bind (ha : a.Does v r v') (he : ∀ e, r = .error e → Q v')
    (hf : ∀ b, r = .ok b → (f b).Ends v' (g b) Q) : (a >>= f).Ends v (r >>= g) Q := by
  cases r with
  | error e => exact ⟨v', ha.fail, he e rfl⟩
  | ok b =>
      obtain ⟨v'', hdoes, hQ⟩ := hf b rfl
      exact ⟨v'', ha.bind hdoes, hQ⟩

theorem Ends.imp {P : View → Prop} (h : a.Ends v r P) (hPQ : ∀ v', P v' → Q v') : a.Ends v r Q := by
  obtain ⟨v', hdoes, hv'⟩ := h
  exact ⟨v', hdoes, hPQ v' hv'⟩

theorem does_halted (m : Machine Empty) (v : View) :
    (do writing (Console.warn ("Halted. " ++ (← resultLine m.value))) : Act Unit).Does v (shown m) v :=
  (does_resultLine m.value v).bind_keeps fun _ => does_writing (f := Console.warn _) (fun _ => rfl) v

theorem showResult_ends (m : Machine Empty) (v : View) :
    (showResult m).Ends v (shown m) fun v' => v'.workspace = v.workspace :=
  Ends.bind (does_resultLine m.value v) (fun _ _ => rfl) fun t _ => ⟨_, does_say t v, rfl⟩

theorem when_ends {c : Bool} {b : Act Unit} {r : Except Failure Unit} (h : c = true → b.Ends v r Q) (hv : Q v) :
    (if c then b else pure ()).Ends v (if c then r else pure ()) Q := by
  cases c with
  | false => exact ⟨v, does_pure () v, hv⟩
  | true => exact h rfl

end Act

open Act

namespace Job

theorem run_ends (path : Text) (shows : Bool) (w : Workspace) (out : List Text) :
    let j := run path shows
    j.request.perform.Ends ⟨w, out⟩ (j.verdict w) (j.Spares w) := by
  intro j
  have hverdict : j.verdict w = programAt w path >>= fun program =>
      progress (evaluated none (.ofRoot program)) >>= fun r => j.showing r.1 r.2 := by
    simp only [j, verdict, evaluation, storing, bind_assoc, pure_bind]
  have hsame : j.Spares w ⟨w, out⟩ := spares_of_store fun _ => rfl
  rw [hverdict]
  refine Ends.bind (does_readProgram path _) (fun _ _ => hsame) fun program _ => ?_
  refine Ends.bind (does_work none (.ofRoot program) _) (fun _ _ => hsame) fun r _ => ?_
  exact when_ends (fun _ => (showResult_ends r.1 _).imp fun v' hv' => spares_of_store (hv' ▸ fun _ => rfl)) hsame

theorem step_ends (path folder label : Text) (steps : Int) (w : Workspace) (out : List Text) :
    let j := step path folder label steps
    j.request.perform.Ends ⟨w, out⟩ (j.verdict w) (j.Spares w) := by
  intro j
  have hverdict : j.verdict w = counted steps >>= fun n => programAt w path >>= fun program =>
      progress (evaluated (some n) (.ofRoot program)) >>= fun r =>
      (w.openStore folder).1.mapError .opening >>= fun p =>
      (((added (w.openStore folder).2 p r.1 label).result.mapError .store).map fun _ => ()) >>= fun _ =>
      j.showing r.1 r.2 := by
    simp only [j, verdict, evaluation, storing, stored, bind_assoc]
  have hsame : j.Spares w ⟨w, out⟩ := spares_of_store fun _ => rfl
  rw [hverdict]
  refine Ends.bind (does_stepCount steps _) (fun _ _ => hsame) fun n hn => ?_
  refine Ends.bind (does_readProgram path _) (fun _ _ => hsame) fun program hprogram => ?_
  refine Ends.bind (does_work (some n) (.ofRoot program) _) (fun _ _ => hsame) fun r hr => ?_
  have hevaluation : j.evaluation w = .ok r := by
    simp only [j, evaluation, hn, hprogram]
    exact hr
  -- from here on the evaluation has succeeded, so whatever is stored is none of its failures
  refine Ends.bind (does_openStore folder _) (fun _ _ => spares_of_ok hevaluation) fun p _ => ?_
  refine Ends.bind (does_save p r.1 label _) (fun _ _ => spares_of_ok hevaluation) fun _ _ => ?_
  exact when_ends (fun _ => ⟨_, does_halted r.1 _, spares_of_ok hevaluation⟩) (spares_of_ok hevaluation)

theorem resume_ends (handle folder label : Text) (steps : Option Int) (saves shows : Bool) (w : Workspace)
    (out : List Text) :
    let j := resume handle folder label steps saves shows
    j.request.perform.Ends ⟨w, out⟩ (j.verdict w) (j.Spares w) := by
  intro j
  have hverdict : j.verdict w = steps.mapM counted >>= fun n => (w.openStore folder).1.mapError .opening >>= fun p =>
      machineAt (w.openStore folder).2 p handle >>= fun m => progress (evaluated n m) >>= fun r =>
      (if saves then stored w folder r.1 label else pure ()) >>= fun _ => j.showing r.1 r.2 := by
    simp only [j, verdict, evaluation, storing, bind_assoc]
  have hsame : j.Spares w ⟨w, out⟩ := spares_of_store fun _ => rfl
  have hopened (out : List Text) : j.Spares w ⟨(w.openStore folder).2, out⟩ :=
    spares_of_store (w.store_openStore folder)
  rw [hverdict]
  refine Ends.bind (does_stepCounts steps _) (fun _ _ => hsame) fun n hn => ?_
  refine Ends.bind (does_openStore folder _) (fun _ _ => hopened _) fun p hp => ?_
  refine Ends.bind (does_load p handle _) (fun _ _ => hopened _) fun m hm => ?_
  refine Ends.bind (does_work n m _) (fun _ _ => hopened _) fun r hr => ?_
  have hevaluation : j.evaluation w = .ok r := by
    simp only [j, evaluation, hn, hp]
    exact (congrArg (· >>= fun m => progress (evaluated n m)) hm).trans hr
  have hspared (v : View) : j.Spares w v := spares_of_ok hevaluation
  have hshowing (v : View) : (if !r.2 && shows then showResult r.1 else pure () : Act Unit).Ends v
      (j.showing r.1 r.2) (j.Spares w) :=
    when_ends (fun _ => (showResult_ends r.1 v).imp fun v' _ => hspared v') (hspared v)
  cases saves with
  | false => exact hshowing _
  | true =>
      have hstored : stored w folder r.1 label =
          ((added (w.openStore folder).2 p r.1 label).result.mapError .store).map fun _ => () := by
        rw [stored, hp]
        rfl
      rw [if_pos rfl, hstored]
      exact Ends.bind (does_save p r.1 label _) (fun _ _ => hspared _) fun _ _ => hshowing _

end Job

/-- A job comes to its verdict. Where its evaluation fails, the stores stay as they were. -/
theorem Job.ends (j : Job) (w : Workspace) (out : List Text) :
    j.request.perform.Ends ⟨w, out⟩ (j.verdict w) (j.Spares w) := by
  cases j with
  | run path shows => exact run_ends path shows w out
  | step path folder label steps => exact step_ends path folder label steps w out
  | resume handle folder label steps saves shows => exact resume_ends handle folder label steps saves shows w out

/-! ## Failures -/

namespace Usual

theorem stored {w : Workspace} (hw : w.Sound) (folder : Text) (m : Machine Empty) (label : Text) :
    Usual (stored w folder m label) :=
  (mapError opening).bind fun p => (added (hw.openStore folder) p m label).map _

theorem shown (m : Machine Empty) : Usual (shown m) := by
  rw [Command.shown]
  cases m.value with
  | none => exact ok ()
  | some v =>
      rw [valueLine]
      cases v.print? with
      | none => exact reported rfl
      | some t => exact ok ()

theorem counts (steps : Option Int) : Usual (steps.mapM Command.counted) := by
  cases steps with
  | none => exact ok none
  | some n => exact (counted n).bind fun k => ok (some k)

theorem verdict (j : Job) {w : Workspace} (hw : w.Sound) : Usual (j.verdict w) := by
  refine bind ?_ fun r => bind ?_ fun _ => ?_
  · cases j with
    | run path => exact (programAt w path).bind fun program => progress _
    | step path _ _ steps => exact (counted steps).bind fun n => (programAt w path).bind fun program => progress _
    | resume handle folder _ steps =>
        exact (counts steps).bind fun n => (mapError opening).bind fun p =>
          (machineAt _ p handle).bind fun m => progress _
  · cases j with
    | run => exact ok ()
    | step _ folder label => exact stored hw folder r.1 label
    | resume _ folder label _ saves =>
        cases saves with
        | false => exact ok ()
        | true => exact stored hw folder r.1 label
  · rw [Job.showing.eq_def]
    split <;> split <;> first | exact shown r.1 | exact ok ()

end Usual

/-! ## Replies -/

/-- What is replied where a request has this result: it is done, its failure is reported in a last line, or its
failure breaks off. -/
inductive Reply.Tells (reply : Reply) : Except Failure Unit → Prop where
  | done : reply.ending = .done → Tells reply (.ok ())
  | reported {f : Failure} (lead : Text) : f.isReported = true → reply.ending = .reported →
      reply.err = lead ++ ("Error: " ++ f.message ++ "\n") → Tells reply (.error f)
  | broken {f : Failure} : ¬ f.isReported = true → reply.ending = .broken f → Tells reply (.error f)

theorem Line.perform_of_does (l : Line) {w : Workspace} {r : Except Failure Unit} {v : View}
    (h : l.request.perform.Does ⟨w, []⟩ r v) :
    (l.perform w).Tells r ∧ (l.perform w).out = v.out.reverse.flatten ∧ (l.perform w).workspace = v.workspace := by
  obtain ⟨hresult, hview⟩ := h.run ⟨w, Console.start l.verbose⟩ rfl
  rw [Line.perform]
  generalize l.request.perform.run.run ⟨w, Console.start l.verbose⟩ = o at hresult hview ⊢
  obtain ⟨r', s⟩ := o
  cases hresult
  cases hview
  cases r' with
  | ok _ => exact ⟨.done rfl, rfl, rfl⟩
  | error f =>
      simp only
      split
      · rename_i hreported
        refine ⟨.reported s.console.err.reverse.flatten hreported rfl ?_, rfl, rfl⟩
        simp [Shell.reply, Console.warn]
      · rename_i hreported
        exact ⟨.broken hreported rfl, rfl, rfl⟩

namespace Reply.Tells

variable {reply : Reply} {r : Except Failure Unit} {f : Failure}

theorem code_eq_zero (h : reply.Tells r) : reply.ending.code = 0 ↔ r = .ok () := by
  cases h with
  | done hending =>
      rw [hending]
      exact iff_of_true rfl rfl
  | reported _ _ hending | broken _ hending =>
      rw [hending]
      exact iff_of_false nofun nofun

theorem error (h : reply.Tells (.error f)) (hf : f.Usual) : reply.ending.code = 1 ∧
    (f.Silent → reply.ending = .broken f) ∧
    (¬ f.Silent → reply.ending = .reported ∧ ∃ lead, reply.err = lead ++ ("Error: " ++ f.message ++ "\n")) := by
  cases h with
  | reported lead hreported hending herr =>
      rw [hending]
      exact ⟨rfl, fun hsilent => absurd hreported hsilent.not_isReported, fun _ => ⟨rfl, lead, herr⟩⟩
  | broken hreported hending =>
      rw [hending]
      exact ⟨rfl, fun _ => rfl, fun hsilent => absurd (hf.resolve_right hsilent) hreported⟩

end Reply.Tells

/-- A command that runs a machine ends with 0 just if it takes its steps, and stores and shows what it is to store
and show. Else it ends with 1 for the first of these that fails. The failure is told in a last line, unless a float
met an integer too large for one or the index cannot be used. If the steps fail, the stores stay as they were. -/
theorem Line.ended (j : Job) (verbose : Bool) (w : Workspace) (hw : w.Sound) :
    let reply := (Line.mk verbose j.request).perform w
    (reply.ending.code = 0 ↔ j.verdict w = .ok ()) ∧
      (∀ f, j.verdict w = .error f → reply.ending.code = 1 ∧ (f.Silent → reply.ending = .broken f) ∧
        (¬ f.Silent → reply.ending = .reported ∧ ∃ lead, reply.err = lead ++ ("Error: " ++ f.message ++ "\n"))) ∧
      ∀ f, j.evaluation w = .error f → ∀ p, reply.workspace.store p = w.store p := by
  intro reply
  obtain ⟨v, hdoes, hspares⟩ := j.ends w []
  obtain ⟨htells, -, hworkspace⟩ := (Line.mk verbose j.request).perform_of_does hdoes
  refine ⟨htells.code_eq_zero, fun f hf => ?_, fun f hf p => ?_⟩
  · rw [hf] at htells
    exact htells.error (Usual.verdict j hw f hf)
  · rw [hworkspace]
    exact hspares f hf p

/-- A workspace with one program and no store. -/
def sampleWorkspace (program : Text) : Workspace :=
  ⟨[([("p.json" : Text)], .file (program.toUtf8.toOption.getD []))], [], 0⟩

theorem sound_sampleWorkspace (program : Text) : (sampleWorkspace program).Sound := ⟨List.nodup_nil, nofun⟩

/-- The text of a sum or the like of two literals. -/
def binaryText (symbol left right : Text) : Text :=
  ("\x7b\"kind\": \"binop\", \"op\": \"" : Text) ++ symbol ++
    ("\", \"left\": \x7b\"kind\": \"literal\", \"value\": " : Text) ++ left ++
    ("\x7d, \"right\": \x7b\"kind\": \"literal\", \"value\": " : Text) ++ right ++ ("\x7d\x7d" : Text)

theorem Line.ended_unsupported :
    let w := sampleWorkspace (binaryText "-" "2" "1")
    let reply := (Line.mk false (Job.step "p.json" "s" "twice" 9).request).perform w
    reply.ending.code = 1 ∧ (∃ f lead, reply.err = lead ++ ("Error: " ++ Failure.message f ++ "\n")) ∧
      ∀ p, reply.workspace.store p = w.store p := by
  intro w reply
  have hfails : (Job.step "p.json" "s" "twice" 9).evaluation w matches .error (.fault (.unsupportedOperator _)) := by
    decide +kernel
  split at hfails
  · rename_i t hevaluation
    have hverdict : (Job.step "p.json" "s" "twice" 9).verdict w = .error (.fault (.unsupportedOperator t)) := by
      rw [Job.verdict, hevaluation]
      rfl
    obtain ⟨-, hfailed, hstores⟩ := Line.ended (.step "p.json" "s" "twice" 9) false w (sound_sampleWorkspace _)
    obtain ⟨hcode, -, htold⟩ := hfailed _ hverdict
    obtain ⟨-, lead, herr⟩ := htold nofun
    exact ⟨hcode, ⟨_, lead, herr⟩, hstores _ hevaluation⟩
  · cases hfails

/-- No line tells that a float has met an integer too large for one. -/
theorem large_untold :
    let w := sampleWorkspace (binaryText "+" "1.0" ("1" ++ List.replicate 309 ('0' : CodePoint)))
    let reply := (Line.mk false (Job.run "p.json" false).request).perform w
    reply.ending.code = 1 ∧ (reply.ending matches .broken (.fault .integerTooLarge)) ∧ reply.err = [] := by
  decide +kernel

end Pausable.Command
