import Pausable.Machine.Restored
import Pausable.Machine.Run

/-! A program that is paused after its first print, written down and resumed from the text alone. -/
namespace Pausable.Demo

variable {α σ ε : Type}

def literal (n : Int) : Node α := .literal (.int n)

/-- Prints 40 + 2, then (1 + 4) * 5. -/
def program : Node α :=
  .block [
    .print (.binary "+" (literal 40) (literal 2)),
    .print (.binary "*" (.binary "+" (literal 1) (literal 4)) (literal 5))]

/-- The steps up to the end of the first print. -/
def pauseSteps : Nat := 8

def announcement : Text := "\nPaused!\n\n"

inductive Failure (ε : Type) where
  | fault (f : Fault ε)
  | save (e : SaveError)
  | restore (e : RestoreError)

/-- Resumes a text and runs it to its end. -/
def resume (host : Host σ ε) (t : Text) (s : σ) : Except (Failure ε) (Option Number) × σ :=
  match (Machine.ofText t : Except RestoreError (Machine Empty)) with
  | .error e => (.error (.restore e), s)
  | .ok m =>
    match m.run host (host.note (.restored m.depth m.halted) s) with
    | ⟨_, s, .error f⟩ => (.error (.fault f), s)
    | ⟨m, s, .ok _⟩ => (.ok m.value, s)

/-- Runs the program up to the pause, announces it, and resumes. -/
def run (host : Host σ ε) (announce : σ → σ) (s : σ) : Except (Failure ε) (Option Number) × σ :=
  match (Machine.ofRoot (program : Node Empty)).advance host pauseSteps s with
  | ⟨_, s, .error f⟩ => (.error (.fault f), s)
  | ⟨m, s, .ok _⟩ =>
    match m.toText with
    | .error e => (.error (.save e), s)
    | .ok t => resume host t (announce s)

end Pausable.Demo
