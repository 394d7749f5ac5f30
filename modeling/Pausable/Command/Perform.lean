import Pausable.Command.Console
import Pausable.Command.Request
import Pausable.Demo
import Pausable.Workspace

/-!
Carrying out a command line on a workspace. What was written and stored before a failure stays. Most
failures are reported in a line; a few end the program without one.
-/
namespace Pausable.Command

inductive Failure where
  | negativeSteps
  | path (path : Text) (e : PathError)
  | decode (e : DecodeError)
  | json (e : Json.ReadError)
  | node (e : NodeError)
  | fault (f : Fault Console.PrintError)
  | opening (e : OpenError)
  | store (e : StoreError)
  | save (e : SaveError)
  | restore (e : RestoreError)
  | wire (e : Wire.WriteError)
  | layout (e : Json.WriteError)
  | numeralTooLong

namespace Failure

def message : Failure → Text
  | negativeSteps => "--steps must be non-negative."
  | path p e => e.message p
  | decode e => e.message
  | json e => e.message
  | node e => e.message
  | fault f => f.message Console.PrintError.message
  | opening e => e.message
  | store e => e.message
  | save e => e.message
  | restore e => e.message
  | wire e => e.message
  | layout e => e.message
  | numeralTooLong => Numeral.tooLong

/-- The failures that are reported in a line. Numbers too large for arithmetic and an index that cannot be
used are not. -/
def isReported : Failure → Bool
  | fault .integerTooLarge => false
  | opening .noIndex | opening .notIndex => false
  | store .filterTooLong | store .limitTooLarge | store .closed => false
  | _ => true

def ofDemo : Demo.Failure Console.PrintError → Failure
  | .fault f => fault f
  | .save e => save e
  | .restore e => restore e

end Failure

/-- What a command works on. -/
structure Shell where
  workspace : Workspace
  console : Console

abbrev Act := ExceptT Failure (StateM Shell)

namespace Act

variable {β ε : Type}

def ofExcept (failure : ε → Failure) : Except ε β → Act β
  | .ok b => pure b
  | .error e => throw (failure e)

def writing (f : Console → Console) : Act Unit :=
  modify fun s => { s with console := f s.console }

def work (f : Console → Outcome Empty Console Console.PrintError) : Act (Machine Empty × Bool) :=
  ExceptT.mk fun s =>
    let o := f s.console
    ((o.result.mapError .fault).map (o.machine, ·), { s with console := o.world })

/-- Reads the program that a path leads to. -/
def readProgram (path : Text) : Act (Node Empty) := do
  let bytes ← ofExcept (.path path) ((← get).workspace.readFile path)
  let text ← ofExcept .decode bytes.decodeUtf8
  let value ← ofExcept .json (Json.read text.unifyLineEnds)
  let program ← ofExcept .node (Node.ofValue value)
  writing (Console.info .command
    ("Loaded " ++ path ++ " (" ++ Numeral.ofNat program.count ++ " nodes)"))
  return program

/-- Opens the store that a path leads to. -/
def openStore (path : Text) : Act Place := do
  let s ← get
  let (result, workspace) := s.workspace.openStore path
  set { s with workspace }
  ofExcept .opening result

def store (p : Place) : Act Store := return (← get).workspace.store p

/-- Stores a machine; the handle is written for the reader. -/
def save (p : Place) (m : Machine Empty) (label : Text) : Act Unit := do
  let s ← get
  let added := (s.workspace.store p).addMachine Handle.ofBytes s.workspace.clock m (some label) .null
  set { s with workspace := { s.workspace.setStore p added.store with clock := added.clock } }
  added.known.forM fun h =>
    writing (Console.debug .store ("Snapshot " ++ h.toText ++ " already stored"))
  let shown ← ofExcept .store (added.result.map Handle.toText)
  writing (Console.info .store ("Stored snapshot " ++ shown ++ " (label=" ++ label ++ ")"))
  writing (Console.say shown)

def load (p : Place) (handle : Text) : Act (Machine Empty) := do
  let h ← ofExcept .store (Store.handleOf handle)
  let m : Machine Empty ← ofExcept .store ((← store p).load h)
  writing (Console.note (.restored m.depth m.halted))
  writing (Console.info .store ("Loaded snapshot " ++ handle))
  return m

def resultLine (v : Option Number) : Act Text :=
  match v with
  | none => return "Result: None"
  | some v =>
    match v.print? with
    | some t => return "Result: " ++ t
    | none => throw .numeralTooLong

def showResult (m : Machine Empty) : Act Unit := do writing (Console.say (← resultLine m.value))

end Act

open Act

/-- The number of steps, if it is none below zero. -/
def stepCount (n : Int) : Act Nat := if n < 0 then throw .negativeSteps else return n.toNat

def rowLine (r : Row) : Text :=
  r.handle.toText ++ "  " ++ r.label.getD [] ++ "  depth=" ++ Numeral.ofNat r.depth ++ "  "
    ++ if r.halted then "halted" else "paused"

/-- No more rows than this are listed. -/
def maxListed : Int := 100

def formatted (fs : List (Value × Value)) : Format → Act Text
  | .snapshot => ofExcept .wire (Wire.write (.record fs))
  | .json => ofExcept .layout (Json.write .indented (.record fs))

def Request.perform : Request → Act Unit
  | .run path shows => do
    let program ← readProgram path
    let (m, _) ← work ((Machine.ofRoot program).run Console.host)
    if shows then showResult m
  | .step path folder label steps => do
    let n ← stepCount steps
    let program ← readProgram path
    let (m, more) ← work ((Machine.ofRoot program).proceed Console.host (some n))
    save (← openStore folder) m label
    if !more then writing (Console.warn ("Halted. " ++ (← resultLine m.value)))
  | .resume handle folder label steps saves shows => do
    let n ← steps.mapM stepCount
    let p ← openStore folder
    let m ← load p handle
    let (m, more) ← work (m.proceed Console.host n)
    if saves then save p m label
    if !more && shows then showResult m
  | .display handle folder format => do
    let p ← openStore folder
    let h ← ofExcept .store (Store.handleOf handle)
    let fs ← ofExcept .store ((← store p).get h)
    writing (Console.say (← formatted fs format))
  | .list folder label halted => do
    let p ← openStore folder
    let rows ← ofExcept .store ((← store p).query label halted maxListed)
    rows.forM fun r => writing (Console.say (rowLine r))
  | .demo => do
    let s ← get
    let (result, console) := Demo.run Console.host (Console.write Demo.announcement) s.console
    set { s with console }
    let v ← ofExcept Failure.ofDemo result
    writing (Console.say (← resultLine v))

inductive Ending where
  | done
  | reported
  /-- Nothing is reported of the failure. -/
  | broken (f : Failure)

/-- The code that tells how a command line ended. -/
def Ending.code : Ending → Nat
  | done => 0
  | reported | broken _ => 1

structure Reply where
  ending : Ending
  out : Text
  err : Text
  workspace : Workspace

def Shell.reply (s : Shell) (ending : Ending) : Reply :=
  ⟨ending, s.console.out.reverse.flatten, s.console.err.reverse.flatten, s.workspace⟩

def Line.perform (l : Line) (w : Workspace) : Reply :=
  match (l.request.perform.run).run ⟨w, Console.start l.verbose⟩ with
  | (.ok _, s) => s.reply .done
  | (.error f, s) =>
    if f.isReported then
      Shell.reply { s with console := s.console.warn ("Error: " ++ f.message) } .reported
    else s.reply (.broken f)

end Pausable.Command
