import Pausable.Proofs.Command.Ended
import Pausable.Proofs.Command.Stored

/-!
Runs in stages (`Line.staged`). A command that goes on from a stored machine prints what is left to print, and comes
to the machine that all the steps at once would have come to: the same handle is stored, the same value shown.
-/
namespace Pausable.Command

open Machine (Stems)
open Store (Deposit)

namespace Console

/-- The lines of numbers that were printed, the last number first. -/
def lines (vs : List Number) : Text := (tape vs).reverse.flatten

theorem lines_append (vs ws : List Number) : lines (vs ++ ws) = lines ws ++ lines vs := by
  rw [lines, tape, List.map_append, List.reverse_append, List.flatten_append]
  rfl

/-- A sheet that has something on it already answers like one that is empty. -/
theorem mirrors_onward (base : List Number) : sheet.Mirrors (fun vs ws => ws = vs ++ base) sheet where
  print := by
    rintro vs _ v rfl
    simp only [sheet]
    cases v.print? <;> exact ⟨rfl, rfl⟩
  note := fun _ _ h => h

end Console

/-- Steps of a copy go on where the first steps have stopped. -/
theorem evaluated_onward {m : Machine Empty} {n : Nat} {more : Bool} (h : (evaluated (some n) m).result = .ok more)
    (steps : Option Nat) : let o := evaluated (some n) m
    (evaluated steps o.machine.recounted).Mirrors (fun vs ws => ws = vs ++ o.world) o.machine.steps
      (evaluated (steps.map (n + ·)) m) := by
  intro o
  have hmirrored := Machine.proceed_mirrored (Console.mirrors_onward o.world) (s := []) (t := o.world) rfl
    o.machine.recounted o.machine.steps steps
  rw [Machine.counted_recounted] at hmirrored
  have hadd : o.machine.proceed Console.sheet steps o.world = evaluated (steps.map (n + ·)) m :=
    Machine.proceed_add steps h
  rw [hadd] at hmirrored
  exact hmirrored

/-! ## Commands that succeed -/

open Act

/-- What comes of the first steps of a tree, or of all. -/
abbrev reached (program : Node Empty) (steps : Option Nat) : Outcome Empty (List Number) Console.PrintError :=
  evaluated steps (.ofRoot program)

section

variable {w : Workspace} {path folder label : Text} {program : Node Empty} {p : Place} {more : Bool} {h : Handle}
  {m : Machine Empty}

theorem does_step {n : Nat} (hprogram : programAt w path = .ok program)
    (hsteps : (reached program (some n)).result = .ok more) (hopen : (w.openStore folder).1 = .ok p)
    (hadded : (added (w.openStore folder).2 p (reached program (some n)).machine label).result = .ok h)
    (ht : ∃ t, valueLine (reached program (some n)).machine.value = .ok t) :
    let o := reached program (some n)
    (Request.step path folder label n).perform.Does ⟨w, []⟩ (.ok ())
      ⟨holding w folder p o.machine label, (h.toText ++ "\n") :: Console.tape o.world⟩ := by
  intro o
  refine (does_stepCount n _).bind_ok (counted_natCast n) ?_
  refine (does_readProgram path _).bind_ok hprogram ?_
  refine (does_worked hsteps _).bind ?_
  refine (does_openStore folder _).bind_ok (congrArg (Except.mapError Failure.opening) hopen) ?_
  refine (does_saved hadded).bind ?_
  cases more with
  | true => exact does_pure _ _
  | false =>
      obtain ⟨t, ht⟩ := ht
      exact (does_resultLine _ _).bind_ok ht (does_writing (f := Console.warn _) (fun _ => rfl) _)

theorem does_run {shows : Bool} {t : Text} (hprogram : programAt w path = .ok program)
    (hsteps : (reached program none).result = .ok more)
    (ht : shows = true → valueLine (reached program none).machine.value = .ok t) :
    (Request.run path shows).perform.Does ⟨w, []⟩ (.ok ())
      ⟨w, (if shows then [t ++ "\n"] else []) ++ Console.tape (reached program none).world⟩ := by
  refine (does_readProgram path _).bind_ok hprogram ?_
  exact (does_worked hsteps _).bind (does_shown ht)

theorem does_resume {handle : Text} {steps : Option Nat} (hopen : (w.openStore folder).1 = .ok p)
    (hload : machineAt (w.openStore folder).2 p handle = .ok m) (hsteps : (evaluated steps m).result = .ok more)
    {saves shows : Bool} {v : View}
    (hrest : (do if saves then save p (evaluated steps m).machine label
                 if !more && shows then showResult (evaluated steps m).machine : Act Unit).Does
      ⟨(w.openStore folder).2, Console.tape (evaluated steps m).world⟩ (.ok ()) v) :
    (Request.resume handle folder label (steps.map Int.ofNat) saves shows).perform.Does ⟨w, []⟩ (.ok ()) v := by
  have hcounts : (steps.map Int.ofNat).mapM counted = .ok steps := by
    cases steps with
    | none => rfl
    | some n => exact congrArg (Except.map some) (counted_natCast n)
  refine (does_stepCounts _ _).bind_ok hcounts ?_
  refine (does_openStore folder _).bind_ok (congrArg (Except.mapError Failure.opening) hopen) ?_
  refine (does_load p handle _).bind_ok hload ?_
  exact (does_worked hsteps _).bind hrest

end

/-! ## Stages -/

/-- The reply is done, and this is what was written for the reader. -/
structure Reply.Done (reply : Reply) (out : Text) : Prop where
  ending : reply.ending = .done
  out : reply.out = out

theorem Line.done_of_does (l : Line) {w : Workspace} {v : View} (h : l.request.perform.Does ⟨w, []⟩ (.ok ()) v) :
    (l.perform w).Done v.out.reverse.flatten ∧ (l.perform w).workspace = v.workspace := by
  obtain ⟨htells, hout, hworkspace⟩ := l.perform_of_does h
  cases htells with
  | done hending => exact ⟨⟨hending, hout⟩, hworkspace⟩

section

variable {w : Workspace} {path folder label : Text} {program : Node Empty} {n : Nat} {more : Bool}

theorem Line.step_done (hw : w.Sound) (hprogram : programAt w path = .ok program)
    (hsymbols : ∀ t ∈ program.symbols, Json.Scalar t) (hsteps : (reached program (some n)).result = .ok more)
    (hstorable : Storable w folder label (reached program (some n)).machine) (verbose : Bool) :
    let m := (reached program (some n)).machine
    let reply := (Line.mk verbose (.step path folder label n)).perform w
    ∃ p bytes, (w.openStore folder).1 = .ok p ∧ (Deposit.machine m).bytes? = some bytes ∧
      (added (w.openStore folder).2 p m label).result = .ok (Handle.ofBytes bytes) ∧
      reply.Done (Console.lines (reached program (some n)).world ++ ((Handle.ofBytes bytes).toText ++ "\n")) ∧
      reply.workspace = holding w folder p m label := by
  intro m reply
  have hstems := stems_evaluated program n
  obtain ⟨p, bytes, hopen, hbytes, hadded⟩ := hstorable.added hw hstems hsymbols
  obtain ⟨hdone, hworkspace⟩ := Line.done_of_does ⟨verbose, .step path folder label n⟩
    (does_step hprogram hsteps hopen hadded (valueLine_short hstems hstorable.short))
  rw [List.reverse_cons, List.flatten_append, List.flatten_singleton] at hdone
  exact ⟨p, bytes, hopen, hbytes, hadded, hdone, hworkspace⟩

def told (shows : Bool) (t : Text) : Text := if shows then t ++ "\n" else []

theorem flatten_told (shows : Bool) (t : Text) (vs : List Number) :
    ((if shows then [t ++ "\n"] else []) ++ Console.tape vs).reverse.flatten = Console.lines vs ++ told shows t := by
  cases shows with
  | false => exact (List.append_nil _).symm
  | true =>
      rw [if_pos rfl, List.singleton_append, List.reverse_cons, List.flatten_append, List.flatten_singleton]
      rfl

theorem Line.run_done {shows : Bool} {t : Text} (hprogram : programAt w path = .ok program)
    (hsteps : (reached program none).result = .ok more)
    (ht : shows = true → valueLine (reached program none).machine.value = .ok t) (verbose : Bool) :
    ((Line.mk verbose (.run path shows)).perform w).Done
      (Console.lines (reached program none).world ++ told shows t) := by
  obtain ⟨hdone, -⟩ := Line.done_of_does ⟨verbose, .run path shows⟩ (does_run hprogram hsteps ht)
  rw [flatten_told] at hdone
  exact hdone

section

variable {p : Place} {handle : Text} {m : Machine Empty} (hopen : (w.openStore folder).1 = .ok p)
  (hload : machineAt (w.openStore folder).2 p handle = .ok m)
include hopen hload

theorem Line.resume_saved {k : Nat} {h : Handle} (hsteps : (evaluated (some k) m).result = .ok more)
    (hadded : (added (w.openStore folder).2 p (evaluated (some k) m).machine label).result = .ok h) (verbose : Bool) :
    ((Line.mk verbose (.resume handle folder label (some k) true false)).perform w).Done
      (Console.lines (evaluated (some k) m).world ++ (h.toText ++ "\n")) := by
  have hrest := (does_saved (v := ⟨(w.openStore folder).2, Console.tape (evaluated (some k) m).world⟩) hadded).bind
    (f := fun _ => if !more && false then showResult (evaluated (some k) m).machine else pure ())
    (by rw [Bool.and_false]; exact does_pure () _)
  obtain ⟨hdone, -⟩ := Line.done_of_does ⟨verbose, .resume handle folder label (some k) true false⟩
    (does_resume hopen hload hsteps hrest)
  rw [List.reverse_cons, List.flatten_append, List.flatten_singleton] at hdone
  exact hdone

theorem Line.resume_shown (label : Text) {shows : Bool} {t : Text} (hsteps : (evaluated none m).result = .ok false)
    (ht : shows = true → valueLine (evaluated none m).machine.value = .ok t) (verbose : Bool) :
    ((Line.mk verbose (.resume handle folder label none false shows)).perform w).Done
      (Console.lines (evaluated none m).world ++ told shows t) := by
  obtain ⟨hdone, -⟩ := Line.done_of_does ⟨verbose, .resume handle folder label none false shows⟩
    (does_resume hopen hload hsteps (does_shown ht))
  rw [flatten_told] at hdone
  exact hdone

end

end

/-- A tree that is run in two stages, the first of them stored and found again, prints what it prints at once. So many
steps and then some others come to the machine that all of them at once come to, and it has the same handle. A stage
to the end shows the value that a run shows. -/
theorem Line.staged {w : Workspace} (hw : w.Sound) {path folder label : Text} {program : Node Empty}
    (hprogram : programAt w path = .ok program) (hsymbols : ∀ t ∈ program.symbols, Json.Scalar t) {n : Nat}
    {more : Bool} (hsteps : (reached program (some n)).result = .ok more)
    (hstorable : Storable w folder label (reached program (some n)).machine) (verbose : Bool) :
    let first := (Line.mk verbose (.step path folder label n)).perform w
    let lead := Console.lines (reached program (some n)).world
    ∃ h : Handle, first.Done (lead ++ (h.toText ++ "\n")) ∧
      (∀ (k : Nat) (more : Bool) (label' label'' path' folder' : Text) (w' : Workspace) (verbose' verbose'' : Bool),
        (reached program (some (n + k))).result = .ok more →
        Storable w folder label' (reached program (some (n + k))).machine →
        Apart (reached program (some n)).machine (reached program (some (n + k))).machine →
        w'.Sound → programAt w' path' = .ok program →
        Storable w' folder' label'' (reached program (some (n + k))).machine →
        ∃ (h' : Handle) (rest : Text),
          ((Line.mk verbose' (.resume h.toText folder label' (some k) true false)).perform first.workspace).Done
            (rest ++ (h'.toText ++ "\n")) ∧
          ((Line.mk verbose'' (.step path' folder' label'' (n + k : Nat))).perform w').Done
            (lead ++ rest ++ (h'.toText ++ "\n"))) ∧
      ∀ (more shows : Bool) (t label' path' : Text) (w' : Workspace) (verbose' verbose'' : Bool),
        (reached program none).result = .ok more →
        (shows = true → valueLine (reached program none).machine.value = .ok t) →
        programAt w' path' = .ok program →
        ∃ rest : Text,
          ((Line.mk verbose' (.resume h.toText folder label' none false shows)).perform first.workspace).Done
            (rest ++ told shows t) ∧
          ((Line.mk verbose'' (.run path' shows)).perform w').Done (lead ++ rest ++ told shows t) := by
  intro first lead
  have hstems := stems_evaluated program n
  obtain ⟨p, bytes, hopen, hbytes, hadded, hdone, hworkspace⟩ :=
    Line.step_done hw hprogram hsymbols hsteps hstorable verbose
  have hagain := openStore_holding (reached program (some n)).machine label hw hopen
  have hload := machineAt_holding hstems hsymbols hadded
  have hfirst : first.workspace = _ := hworkspace
  rw [hfirst]
  refine ⟨Handle.ofBytes bytes, hdone, ?_, ?_⟩
  · intro k more' label' label'' path' folder' w' verbose' verbose'' hsteps' hstorable' hapart hw' hprogram' hother
    have honward : Outcome.Mirrors _ _ _ (reached program (some (n + k))) := evaluated_onward hsteps (some k)
    -- the record of a machine tells nothing of the steps that were counted, so the second stage adds the same text
    obtain ⟨q, bytes', hq, hbytes', hadded'⟩ :=
      (hstorable'.holding hw hapart hopen).added (sound_holding hw hadded) (stems_evaluated program (n + k)) hsymbols
    cases hagain.symm.trans hq
    rw [honward.machine] at hadded'
    have hsecond := Line.resume_saved hagain hload (honward.result.symm.trans hsteps') hadded' verbose'
    obtain ⟨p', bytes'', -, hbytes'', -, hsingle, -⟩ :=
      Line.step_done hw' hprogram' hsymbols hsteps' hother verbose''
    cases hbytes'.symm.trans hbytes''
    rw [honward.world, Console.lines_append] at hsingle
    exact ⟨_, _, hsecond, hsingle⟩
  · intro more' shows t label' path' w' verbose' verbose'' hrun ht hprogram'
    cases Machine.run_ended hrun
    have honward : Outcome.Mirrors _ _ _ (reached program none) := evaluated_onward hsteps none
    have hvalue : shows = true →
        valueLine (evaluated none (reached program (some n)).machine.recounted).machine.value = .ok t := by
      intro hshows
      rw [← ht hshows]
      exact congrArg (fun m => valueLine m.value) honward.machine.symm
    have hsecond := Line.resume_shown hagain hload label' (honward.result.symm.trans hrun) hvalue verbose'
    have hwhole := Line.run_done hprogram' hrun ht verbose''
    rw [honward.world, Console.lines_append] at hwhole
    exact ⟨_, hsecond, hwhole⟩

/-- The text of a program that prints a sum. -/
def printText : Text :=
  ("\x7b\"kind\": \"program\", \"stmts\": [\x7b\"kind\": \"print\", \"expr\": " : Text) ++ binaryText "+" "40" "2" ++
    ("\x7d]\x7d" : Text)

def printProgram : Node Empty := .block [.print (.binary "+" (.literal (.int 40)) (.literal (.int 2)))]

theorem storable_sampleWorkspace {program : Text} {m : Machine Empty} (hs : m.Short)
    (hopen : ((sampleWorkspace program).openStore "s").1 = .ok ["s"]) :
    Storable (sampleWorkspace program) "s" "unnamed" m := by
  refine ⟨⟨_, hopen⟩, Json.scalar_ofString "unnamed", hs, ?_⟩
  intro p hp bytes _ old hold
  cases hopen.symm.trans hp
  cases hold

/-- The sum is printed in the second stage, which also ends the program. -/
theorem Line.staged_print :
    let w := sampleWorkspace printText
    let first := (Line.mk false (.step "p.json" "s" "unnamed" 4)).perform w
    ∃ (h h' : Handle) (lead rest : Text), first.Done (lead ++ (h.toText ++ "\n")) ∧
      ((Line.mk false (.resume h.toText "s" "unnamed" (some 9) true false)).perform first.workspace).Done
        (rest ++ (h'.toText ++ "\n")) ∧
      ((Line.mk false (.step "p.json" "s" "unnamed" 13)).perform w).Done (lead ++ rest ++ (h'.toText ++ "\n")) ∧
      ∃ rest, ((Line.mk false (.resume h.toText "s" "unnamed" none false true)).perform first.workspace).Done
          (rest ++ told true "Result: 42") ∧
        ((Line.mk false (.run "p.json" true)).perform w).Done (lead ++ rest ++ told true "Result: 42") := by
  intro w first
  have hw : w.Sound := sound_sampleWorkspace _
  have hprogram : programAt w "p.json" = .ok printProgram := ok_of_toOption (by decide +kernel)
  have hopen : (w.openStore "s").1 = .ok ["s"] := by decide +kernel
  have hshort : (reached printProgram (some 4)).machine.Short := by decide +kernel
  have hshort' : (reached printProgram (some 13)).machine.Short := by decide +kernel
  have hapart : Apart (reached printProgram (some 4)).machine (reached printProgram (some 13)).machine := by
    unfold Apart
    decide +kernel
  have hsteps : (reached printProgram (some 4)).result = .ok true := by decide +kernel
  have hsteps' : (reached printProgram (some 13)).result = .ok false := by decide +kernel
  have hall : (reached printProgram none).result = .ok false := by decide +kernel
  have hline : valueLine (reached printProgram none).machine.value = .ok "Result: 42" :=
    ok_of_toOption (by decide +kernel)
  have hsymbols : ∀ t ∈ printProgram.symbols, Json.Scalar t := by decide
  obtain ⟨h, hfirst, hstages, hwhole⟩ :=
    Line.staged hw hprogram hsymbols hsteps (storable_sampleWorkspace hshort hopen) false
  obtain ⟨h', rest, hsecond, hsingle⟩ := hstages 9 false "unnamed" "unnamed" "p.json" "s" w false false hsteps'
    (storable_sampleWorkspace hshort' hopen) hapart hw hprogram (storable_sampleWorkspace hshort' hopen)
  obtain ⟨rest', hlast, hrun⟩ :=
    hwhole false true "Result: 42" "unnamed" "p.json" w false false hall (fun _ => hline) hprogram
  exact ⟨h, h', _, rest, hfirst, hsecond, hsingle, rest', hlast, hrun⟩

end Pausable.Command
