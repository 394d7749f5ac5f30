import Pausable.Machine.Run
import Pausable.Value.Shown

/-! What a command writes: lines for the reader, and a log of what goes on if it is asked for. -/
namespace Pausable.Command

/-- What is written, the last piece first. -/
structure Console where
  verbose : Bool
  out : List Text
  err : List Text

inductive Source where
  | command
  | machine
  | store

/-- The name of a part in the log. -/
def Source.name : Source → Text
  | command => "stepwise_runtime"
  | machine => "stepwise_runtime.stepwise_runtime"
  | store => "stepwise_runtime.snapshot_store"

namespace Console

def start (verbose : Bool) : Console := ⟨verbose, [], []⟩

def write (t : Text) (c : Console) : Console := { c with out := t :: c.out }

def say (t : Text) (c : Console) : Console := c.write (t ++ "\n")

/-- Writes a line beside those for the reader. -/
def warn (t : Text) (c : Console) : Console := { c with err := (t ++ "\n") :: c.err }

def log (level : Text) (source : Source) (t : Text) (c : Console) : Console :=
  if c.verbose then c.warn ("[" ++ level ++ "] " ++ source.name ++ ": " ++ t) else c

/-- Logs what matters to those who look for it. -/
def debug : Source → Text → Console → Console := log "DEBUG"

/-- Logs what matters to all. -/
def info : Source → Text → Console → Console := log "INFO"

def note (n : Note) : Console → Console :=
  match n with
  | .evaluating k => debug .machine ("Evaluating " ++ k.name ++ " node")
  | .halted steps => info .machine ("Halted after " ++ Numeral.ofNat steps ++ " steps")
  | .restored frames halted =>
    debug .machine ("Restored " ++ Numeral.ofNat frames ++ " frames (halted=" ++ Value.boolWord halted ++ ")")

/-- The integer that is printed has too long a numeral. -/
inductive PrintError where
  | numeralTooLong
deriving DecidableEq

def PrintError.message : PrintError → Text
  | numeralTooLong => Numeral.tooLong

/-- Prints a number on a line of its own. -/
def print (v : Number) (c : Console) : Except PrintError Unit × Console :=
  match v.print? with
  | some t => (.ok (), c.say t)
  | none => (.error .numeralTooLong, c)

/-- The host of the machines that commands run. -/
def host : Host Console PrintError := ⟨print, note⟩

end Console
end Pausable.Command
