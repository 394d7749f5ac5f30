import Pausable.Command.Perform
import Pausable.Store.Index

/-!
The program. It fetches what a command line may touch, carries the line out, and puts back what the line
has changed.
-/
namespace Pausable.Main

/-- The string of a text. Surrogates have none; they become replacement characters. -/
def stringOf (t : Text) : String := String.ofList (t.map fun c => c.toChar?.getD '\uFFFD')

def pathOf (p : Place) : String :=
  match p with
  | [] => "."
  | name :: names =>
    if [name] = Place.root then "/" ++ stringOf (Text.join "/" names)
    else stringOf (Text.join "/" p)

def placesOf (path : Text) : List Place :=
  ((Place.names path).foldl (fun ps name => Place.enter (ps.headD []) name :: ps) [Place.start path]).reverse

/-- What lies at a place of the disk. -/
def fetch (p : Place) : IO (Option (Place × Entry)) := do
  try
    return some (p, .file (← IO.FS.readBinFile (pathOf p)).toList)
  catch e =>
    match e with
    | .inappropriateType .. => return some (p, .folder)
    | _ => return none

/-- The paths of the program, the store and the handle that a request names. -/
def mentions : Command.Request → List Text × Option Text × List Handle
  | .run path _ => ([path], none, [])
  | .step path folder _ _ => ([path], some folder, [])
  | .resume handle folder _ _ _ _ | .display handle folder _ =>
    ([], some folder, (Handle.ofText? handle).toList)
  | .list folder _ _ => ([], some folder, [])
  | .demo => ([], none, [])

/-- The place of an object below the folder of its store. -/
def objectPlace (folder : Place) (h : Handle) : Place :=
  folder ++ [Store.objectsName, h.folder, h.file]

/-- The rows of an index on the disk. -/
def rowsOf? (entry : Option (Place × Entry)) : Option (List Row) :=
  match entry with
  | some (_, .file bytes) => bytes.decodeUtf8.toOption.bind Store.rowsOfText?
  | _ => none

/-- Fetches what a request may touch. -/
def workspaceFor (r : Command.Request) : IO Workspace := do
  let (programs, store?, handles) := mentions r
  let named ← (programs.flatMap placesOf).filterMapM fetch
  match store? with
  | none => return ⟨named, [], 0⟩
  | some path =>
    let way := placesOf path
    let folder := way.getLastD []
    let index ← fetch (folder ++ [Store.indexName])
    let rows? := rowsOf? index
    let rows := rows?.getD []
    let objects ← (handles ++ rows.map (·.handle)).filterMapM fun h => fetch (objectPlace folder h)
    let below ← (way ++ [folder ++ [Store.objectsName]]).filterMapM fetch
    let w : Workspace := ⟨named ++ below ++ objects, [], (rows.map (·.created)).foldl max 0⟩
    match rows? with
    | some _ => return w.setStore folder { w.store folder with rows }
    | none => return { w with entries := w.entries ++ index.toList }

/-- Puts back the folders, objects and indexes that are new. -/
def putBack (before after : Workspace) : IO Unit := do
  for (p, e) in after.entries.reverse do
    if let .folder := e then
      if !before.entries.any fun b => b.1 = p then IO.FS.createDirAll (pathOf p)
  for (folder, s) in after.stores do
    for (h, bytes) in s.objects do
      if !(before.store folder).exists? h then
        IO.FS.createDirAll (pathOf (folder ++ [Store.objectsName, h.folder]))
        IO.FS.writeBinFile (pathOf (objectPlace folder h)) ⟨bytes.toArray⟩
    match s.indexText with
    | .ok t => IO.FS.writeFile (pathOf (folder ++ [Store.indexName])) (stringOf t)
    | .error e => IO.eprintln (stringOf e.message)

/-- Carries out a command line on the disk; gives the code of its end. -/
def execute (l : Command.Line) : IO UInt32 := do
  let before ← workspaceFor l.request
  let reply := l.perform before
  putBack before reply.workspace
  IO.print (stringOf reply.out)
  IO.eprint (stringOf reply.err)
  if let .broken f := reply.ending then IO.eprintln (stringOf f.message)
  return reply.ending.code.toUInt32

/-- The folder of the store where none is named. -/
def defaultStore : IO Text := do
  return Text.ofString ((← IO.getEnv "HOME").getD "." ++ "/.stepwise/snapshots")

end Pausable.Main

open Pausable in
def main (args : List String) : IO UInt32 := do
  match Command.Line.ofArguments (← Main.defaultStore) (args.map Text.ofString) with
  | .ok l => Main.execute l
  | .error .help =>
    IO.println "usage: stepwise [-h] [-v] command ..."
    return 0
  | .error stop =>
    IO.eprintln (Main.stringOf (stop.line?.getD []))
    return 2
