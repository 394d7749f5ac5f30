import Pausable.Store.Snapshots

/-!
The workspace of the command line: a tree of files and folders, and the stores kept in it. An entry of
the tree is reached by a path, name by name. A store lies in a folder; its objects and its index are
entries of the tree like all others.
-/
namespace Pausable

inductive Entry where
  | folder
  | file (bytes : Bytes)

/-- The names from the working folder, or from the root, down to an entry. -/
abbrev Place := List Text

/-- The reasons for which a path leads nowhere. -/
inductive PathError where
  | missing
  | notFolder
  | isFolder
  | taken
  | tooLong
  | nul
  | encode (e : EncodeError)
deriving DecidableEq

def PathError.message (path : Text) : PathError → Text
  | missing => "File '" ++ path ++ "' not found."
  | notFolder => "[Errno 20] Not a directory: " ++ path.quoted
  | isFolder => "[Errno 21] Is a directory: " ++ path.quoted
  | taken => "[Errno 17] File exists: " ++ path.quoted
  | tooLong => "[Errno 36] File name too long: " ++ path.quoted
  | nul => "embedded null byte"
  | encode e => e.message

namespace Place

def divider : CodePoint := '/'

def root : Place := [[divider]]

def above : Text := ".."

/-- Names that stay where they are. -/
def isIdle (name : Text) : Bool := name.isEmpty || name = ("." : Text)

/-- The folder above a place; above the working folder lie others. -/
def up (p : Place) : Place :=
  if p = root then root
  else if p.getLast?.all (· = above) then p ++ [above]
  else p.dropLast

def enter (p : Place) (name : Text) : Place :=
  if isIdle name then p else if name = above then p.up else p ++ [name]

def start (path : Text) : Place := if path.head? = some divider then root else []

def names (path : Text) : List Text := Text.split divider path

/-- Half surrogates that stand for a byte. -/
def isByte (c : CodePoint) : Bool := 0xDC80 ≤ c.val && c.val ≤ 0xDCFF

/-- The number of bytes of a path or a name. -/
def size (t : Text) : Nat :=
  total (fun c => if isByte c then 1 else (Text.utf8Bytes c).length) t

/-- No name has more bytes than this. -/
def maxName : Nat := 255

/-- No path has more bytes than this. -/
def maxPath : Nat := 4095

def check (path : Text) : Except PathError Unit :=
  match Text.surrogates? (fun c => c.isSurrogate && !isByte c) path with
  | some e => .error (.encode e)
  | none =>
    if path.any fun c => c.val = 0 then .error .nul
    else if path.isEmpty then .error .missing
    else if maxPath < size path then .error .tooLong
    else .ok ()

end Place

namespace Store

/-- The name of the folder of the objects. -/
def objectsName : Text := "objects"

def indexName : Text := "index.sqlite"

/-- What lies in a store under the names below its folder. An index has no text. -/
def entry? (s : Store) : Place → Option Entry
  | [name] => if name = indexName then some (.file []) else none
  | [name, folder] =>
    if name = objectsName && s.objects.any fun o => o.1.folder = folder then some .folder else none
  | [name, folder, file] =>
    if name = objectsName then
      (s.objects.find? fun o => o.1.folder = folder && o.1.file = file).map fun o => .file o.2
    else none
  | _ => none

/-- The handle of an object under the names below the folder of its store. -/
def handleAt? : Place → Option Handle
  | [name, folder, file] =>
    if name = objectsName && folder.length = 2 then Handle.ofText? (Handle.mark ++ folder ++ file)
    else none
  | _ => none

end Store

/-- The files and folders, the stores, and the last time the clock told. -/
structure Workspace where
  entries : List (Place × Entry)
  stores : List (Place × Store)
  clock : Nat

/-- The reasons for which a store cannot be opened. -/
inductive OpenError where
  | path (path : Text) (e : PathError)
  /-- The index is a folder. -/
  | noIndex
  /-- The index is a file of another kind. -/
  | notIndex
deriving DecidableEq

def OpenError.message : OpenError → Text
  | path p e => e.message p
  | noIndex => "unable to open database file"
  | notIndex => "file is not a database"

namespace Workspace

/-- What lies in a store at a place. -/
def stored? (w : Workspace) (p : Place) : Option Entry :=
  w.stores.findSome? fun (q, s) => if q.isPrefixOf p then s.entry? (p.drop q.length) else none

/-- What lies at a place. The working folder, those above it and the root are folders. -/
def entry? (w : Workspace) (p : Place) : Option Entry :=
  if p = Place.root || p.all (· = Place.above) then some .folder
  else
    match w.entries.find? fun e => e.1 = p with
    | some e => some e.2
    | none => w.stored? p

/-- Follows names from a place on; each must be one of a folder. -/
def walk (w : Workspace) (p : Place) : List Text → Except PathError Place
  | [] => .ok p
  | name :: names =>
    match w.entry? p with
    | none => .error .missing
    | some (.file _) => .error .notFolder
    | some .folder =>
      if Place.maxName < Place.size name then .error .tooLong else walk w (p.enter name) names

/-- The bytes of the file that a path leads to. -/
def readFile (w : Workspace) (path : Text) : Except PathError Bytes :=
  match Place.check path with
  | .error e => .error e
  | .ok _ =>
    match w.walk (Place.start path) (Place.names path) with
    | .error e => .error e
    | .ok p =>
      match w.entry? p with
      | none => .error .missing
      | some .folder => .error .isFolder
      | some (.file bytes) => .ok bytes

/-- Follows names from a folder on and makes the folders that are missing. -/
def makeFolders (w : Workspace) (p : Place) : List Text → Except PathError (Place × Workspace)
  | [] => .ok (p, w)
  | name :: names =>
    if Place.maxName < Place.size name then .error .tooLong
    else
      match w.entry? (p.enter name) with
      | some .folder => makeFolders w (p.enter name) names
      | some (.file _) => .error (if names.isEmpty then .taken else .notFolder)
      | none =>
        makeFolders { w with entries := (p.enter name, .folder) :: w.entries } (p.enter name) names

/-- The objects that lie under a folder before a store is there. -/
def objectsUnder (w : Workspace) (p : Place) : List (Handle × Bytes) :=
  w.entries.filterMap fun (q, e) =>
    match e with
    | .folder => none
    | .file bytes =>
      if p.isPrefixOf q then (Store.handleAt? (q.drop p.length)).map (·, bytes) else none

def store (w : Workspace) (p : Place) : Store :=
  match w.stores.find? fun s => s.1 = p with
  | some s => s.2
  | none => { Store.empty with objects := w.objectsUnder p }

def setStore (w : Workspace) (p : Place) (s : Store) : Workspace :=
  { w with stores := (p, s) :: w.stores.filter fun t => t.1 ≠ p }

/-- The index of a store can be opened. -/
def checkIndex (w : Workspace) (p : Place) : Except OpenError Unit :=
  match w.entry? (p ++ [Store.indexName]) with
  | some .folder => .error .noIndex
  | some (.file (_ :: _)) => .error .notIndex
  | some (.file []) | none => .ok ()

/-- The path of the objects of a store, as messages show it. -/
def objectsPath (path : Text) : Text :=
  let names := (Place.names path).filter fun name => !Place.isIdle name
  (if path.head? = some Place.divider then [Place.divider] else [])
    ++ Text.join [Place.divider] (names ++ [Store.objectsName])

/-- Opens the store that a path leads to; what is missing of it is made. Gives the place of the store. -/
def openStore (w : Workspace) (path : Text) : Except OpenError Place × Workspace :=
  let shown := objectsPath path
  match Place.check shown with
  | .error e => (.error (.path shown e), w)
  | .ok _ =>
    match w.makeFolders (Place.start shown) (Place.names shown) with
    | .error e => (.error (.path shown e), w)
    | .ok (objects, w) =>
      let p := objects.up
      match w.checkIndex p with
      | .error e => (.error e, w)
      | .ok _ => (.ok p, w.setStore p (w.store p))

end Workspace
end Pausable
