import Pausable.Command.Grammar
import Pausable.Numeral

/-!
The requests of the command line. There are six commands, each with options of its own; the options of
the whole program stand before the command.
-/
namespace Pausable

/-- Blanks around the numeral of an option. The four separators of information are none there. -/
def CodePoint.isPadding (c : CodePoint) : Bool := c.isBlank && !(0x1C ≤ c.val && c.val ≤ 0x1F)

/-- The integer that a text stands for, in digits of any script. Single underscores may divide the digits,
and blanks may surround it. -/
def Numeral.integer? (t : Text) : Option Int :=
  let t := t.trim CodePoint.isPadding
  let (negative, digits) :=
    match t with
    | c :: rest => if c = '-' then (true, rest) else if c = '+' then (false, rest) else (false, t)
    | [] => (false, t)
  let groups := Text.split '_' digits
  if groups.any List.isEmpty then none
  else (Numeral.bounded? groups.flatten).map fun n => if negative then -n else n

namespace Command

inductive Format where
  | snapshot
  | json
deriving DecidableEq

def Format.all : List (Text × Format) := [("st", .snapshot), ("json", .json)]

inductive Request where
  /-- Runs a program to its end. -/
  | run (program : Text) (shows : Bool)
  /-- Runs some steps of a program and stores the state reached. -/
  | step (program store label : Text) (steps : Int)
  /-- Goes on from a stored state, to the end if no number of steps is given. -/
  | resume (handle store label : Text) (steps : Option Int) (saves shows : Bool)
  /-- Shows a stored state. -/
  | display (handle store : Text) (format : Format)
  /-- Lists what is stored. -/
  | list (store : Text) (label : Option Text) (halted : Option Bool)
  /-- Shows a pause and a resumption. -/
  | demo
deriving DecidableEq

inductive Verb where
  | run
  | step
  | resume
  | display
  | list
  | demo
deriving DecidableEq

namespace Verb

/-- All commands, in the order in which messages name them. -/
def all : List Verb := [run, step, resume, display, list, demo]

def name : Verb → Text
  | run => "run"
  | step => "step"
  | resume => "resume"
  | display => "show"
  | list => "list"
  | demo => "demo"

def operand? : Verb → Option Text
  | run | step => some "program"
  | resume | display => some "handle"
  | list | demo => none

end Verb

/-- What the options of a command set. -/
structure Settings where
  operand : Option Text
  steps : Option Int
  store : Option Text
  label : Option Text
  format : Option Format
  halted : Option Bool
  saves : Bool
  shows : Bool

namespace Settings

def initial : Settings := ⟨none, none, none, none, none, none, false, false⟩

/-- The name of the option for a number of steps. -/
def stepsName : Text := "--steps"

def stepsFlag : Flag Settings := .valued stepsName fun v s =>
  match Numeral.integer? v with
  | some n => .ok { s with steps := some n }
  | none => .error (.invalidInt stepsName v)

def storeFlag : Flag Settings := .valued "--store" fun v s => .ok { s with store := some v }

/-- A label, to give or to search for. -/
def labelFlag : Flag Settings := .valued "--label" fun v s => .ok { s with label := some v }

def formatFlag : Flag Settings :=
  let name : Text := "--format"
  .valued name fun v s =>
    match Format.all.find? fun f => f.1 = v with
    | some f => .ok { s with format := some f.2 }
    | none => .error (.invalidChoice name v (Format.all.map (·.1)))

def savesFlag : Flag Settings := .switch none "--save" fun s => .ok { s with saves := true }

def showsFlag : Flag Settings := .switch none "--result" fun s => .ok { s with shows := true }

/-- The name of the filter on states that have halted, and of that on states that have not. -/
def haltedName (halted : Bool) : Text := if halted then "--halted" else "--paused"

/-- A filter on states; the two filters exclude each other. -/
def haltedFlag (halted : Bool) : Flag Settings := .switch none (haltedName halted) fun s =>
  if s.halted = some (!halted) then .error (.conflict (haltedName halted) (haltedName (!halted)))
  else .ok { s with halted := some halted }

end Settings

namespace Verb

open Settings in
def flags : Verb → List (Flag Settings)
  | run => [.help, showsFlag]
  | step => [.help, stepsFlag, storeFlag, labelFlag]
  | resume => [.help, storeFlag, stepsFlag, savesFlag, labelFlag, showsFlag]
  | display => [.help, storeFlag, formatFlag]
  | list => [.help, storeFlag, labelFlag, haltedFlag true, haltedFlag false]
  | demo => [.help]

/-- What a command requires and lacks. -/
def missing (v : Verb) (s : Settings) : List Text :=
  (if s.operand.isNone then v.operand?.toList else []) ++
    (if v = step ∧ s.steps.isNone then [Settings.stepsName] else [])

end Verb

def programName : Text := "stepwise"

def Verb.grammar (v : Verb) : Grammar Settings where
  program := programName ++ " " ++ v.name
  flags := v.flags
  operand := if v.operand?.isSome then .single fun t s => { s with operand := some t } else .absent
  missing := v.missing

/-- The label of what is stored without one. -/
def defaultLabel : Text := "unnamed"

/-- The request of a command with these settings. -/
def Verb.request (defaultStore : Text) (v : Verb) (s : Settings) : Request :=
  let operand := s.operand.getD []
  let store := s.store.getD defaultStore
  let label := s.label.getD defaultLabel
  match v with
  | .run => .run operand s.shows
  | .step => .step operand store label (s.steps.getD 0)
  | .resume => .resume operand store label s.steps s.saves s.shows
  | .display => .display operand store (s.format.getD .snapshot)
  | .list => .list store s.label s.halted
  | .demo => .demo

structure Line where
  /-- Every step is logged. -/
  verbose : Bool
  request : Request
deriving DecidableEq

/-- What is read of a line on the way. -/
structure Outline where
  verbose : Bool
  request : Option Request
  leftOver : List Text

def commandName : Text := "command"

def readCommand (defaultStore : Text) (args : List Text) (o : Outline) : Except Stop Outline :=
  let name := args.headD []
  match Verb.all.find? fun v => v.name = name with
  | none => .error (.refused programName (.invalidChoice commandName name (Verb.all.map Verb.name)))
  | some v =>
    (v.grammar.read args.tail .initial).map fun (s, leftOver) =>
      { o with request := some (v.request defaultStore s), leftOver }

def grammar (defaultStore : Text) : Grammar Outline where
  program := programName
  flags := [.help, .switch (some 'v') "--verbose" fun o => .ok { o with verbose := true }]
  operand := .rest (readCommand defaultStore)
  missing o := if o.request.isNone then [commandName] else []

/-- Reads a command line. No argument may be left over. -/
def Line.ofArguments (defaultStore : Text) (args : List Text) : Except Stop Line :=
  match (grammar defaultStore).read args ⟨false, none, []⟩ with
  | .error e => .error e
  | .ok (o, leftOver) =>
    match leftOver ++ o.leftOver, o.request with
    | [], some request => .ok ⟨o.verbose, request⟩
    | [], none => .error (.refused programName (.missing [commandName]))
    | ts, _ => .error (.refused programName (.leftOver ts))

end Command
end Pausable
