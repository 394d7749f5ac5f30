import Pausable.Machine.Restored
import Pausable.Store.Handle
import Pausable.Store.Label

/-!
The store of snapshots. The text of each snapshot is an object under its handle; the index has a row with
a label, tags and measures for each. The two are kept apart: reading looks only at the objects, searching
only at the rows, and a failure between the two leaves the object without a row.
-/
namespace Pausable

/-- What the index knows of a snapshot. -/
structure Row where
  handle : Handle
  label : Option Text
  depth : Nat
  halted : Bool
  textSize : Nat
  created : Nat
  tags : Value

/-- A store of snapshots. Rows are kept in the order of their writing. -/
structure Store where
  objects : List (Handle × Bytes)
  rows : List Row
  isOpen : Bool

/-- The reasons for which an operation on a store fails. -/
inductive StoreError where
  | invalidHandle (t : Text)
  | notFound (h : Handle)
  | collision (h : Handle)
  | closed
  | save (e : SaveError)
  | restore (e : RestoreError)
  | write (e : Wire.WriteError)
  | read (e : Wire.ReadError)
  | encode (e : EncodeError)
  | decode (e : DecodeError)
  | tags (e : Json.WriteError)
  | filterTooLong
  | limitTooLarge
deriving DecidableEq

def StoreError.message : StoreError → Text
  | invalidHandle t => Handle.invalidMessage t
  | notFound h => "Snapshot not found: " ++ h.toText
  | collision h => "Hash collision detected for " ++ h.toText
  | closed => "Cannot operate on a closed database."
  | save e => e.message
  | restore e => e.message
  | write e => e.message
  | read e => e.message
  | encode e => e.message
  | decode e => e.message
  | tags e => e.message
  | filterTooLong => "LIKE or GLOB pattern too complex"
  | limitTooLarge => "Python int too large to convert to SQLite INTEGER"

namespace Store

def empty : Store := ⟨[], [], true⟩

/-- The bytes of an object. -/
def object? (s : Store) (h : Handle) : Option Bytes :=
  (s.objects.find? fun o => o.1 = h).map (·.2)

def removeObject (s : Store) (h : Handle) : Store :=
  { s with objects := s.objects.filter fun o => o.1 ≠ h }

/-- Writes an object, over an old one if there is one. -/
def writeObject (s : Store) (h : Handle) (bytes : Bytes) : Store :=
  { s with objects := (h, bytes) :: (s.removeObject h).objects }

/-- The text of an object as it is read back, with its line ends made equal. -/
def objectText (bytes : Bytes) : Except StoreError Text :=
  match bytes.decodeAscii with
  | .ok t => .ok t.unifyLineEnds
  | .error e => .error (.decode e)

def handleOf (t : Text) : Except StoreError Handle :=
  match Handle.ofText? t with
  | some h => .ok h
  | none => .error (.invalidHandle t)

def exists? (s : Store) (h : Handle) : Bool := (s.object? h).isSome

def get (s : Store) (h : Handle) : Except StoreError (List (Value × Value)) :=
  match s.object? h with
  | none => .error (.notFound h)
  | some bytes => match objectText bytes with
    | .error e => .error e
    | .ok t => (Wire.readState t).mapError .read

def load {α : Type} (s : Store) (h : Handle) : Except StoreError (Machine α) :=
  match s.get h with
  | .error e => .error e
  | .ok fs => (Machine.ofValue (.record fs)).mapError .restore

/-- Removes the object and the row; says whether there was an object. -/
def delete (s : Store) (h : Handle) : Except StoreError Bool × Store :=
  let left := s.removeObject h
  if s.isOpen then
    (.ok (s.exists? h), { left with rows := s.rows.filter fun r => r.handle ≠ h })
  else (.error .closed, left)

/-- Closes the index. -/
def close (s : Store) : Store := { s with isOpen := false }

def reopen (s : Store) : Store := { s with isOpen := true }

/-- What an attempt to add gives: the handle or a reason, the store, and the last time the clock told. -/
structure Added where
  result : Except StoreError Handle
  store : Store
  clock : Nat
  /-- The handle of the object, if it was there before. -/
  known : Option Handle

/-- Tags that are nothing in one way or another count as no tags. -/
def noTags : Value → Bool
  | .null => true
  | .bool b => !b
  | .number n => n.sameValue (.int 0)
  | .text t => t.isEmpty
  | .list vs | .tuple vs => vs.isEmpty
  | .record fs => fs.isEmpty
  | .alien _ => false

/-- Tags as they come back from the index. -/
def recallTags (tags : Value) : Except StoreError Value :=
  (Json.readBack (if noTags tags then .list [] else tags)).mapError .tags

/-- Labels are kept in UTF-8, which has no surrogates. -/
def checkLabel (label : Option Text) : Except StoreError Unit :=
  match label with
  | none => .ok ()
  | some t => (t.toUtf8.map fun _ => ()).mapError .encode

/-- The number of frames and the halted flag of a record. -/
def measures (fs : List (Value × Value)) : Nat × Bool :=
  (match Value.field? Wire.stackField fs with
    | some (.list vs) => vs.length
    | _ => 0,
   match Value.field? "halted" fs with
    | some (.bool b) => b
    | _ => false)

/-- Makes sure that the object is there with these bytes; says whether it was there before. -/
def keepObject (s : Store) (h : Handle) (t : Text) (bytes : Bytes) :
    Except StoreError (Bool × Store) :=
  match s.object? h with
  | none => .ok (false, s.writeObject h bytes)
  | some old => match objectText old with
    | .error e => .error e
    | .ok u => if u = t then .ok (true, s) else .error (.collision h)

/-- Writes a row, in the place of an old one if there is one. -/
def writeRow (s : Store) (row : Row) : Store :=
  { s with rows := (s.rows.filter fun r => r.handle ≠ row.handle) ++ [row] }

/-- Adds a record that is known to be one of a machine, under the hash of its text. The time is taken when
the object is there and before the tags are looked at. -/
def addRecord (hash : Bytes → Handle) (clock : Nat) (s : Store) (fs : List (Value × Value))
    (label : Option Text) (tags : Value) : Added :=
  match Wire.write (.record fs) with
  | .error e => ⟨.error (.write e), s, clock, none⟩
  | .ok t =>
    match t.toAscii with
    | .error e => ⟨.error (.encode e), s, clock, none⟩
    | .ok bytes =>
      let h := hash bytes
      match s.keepObject h t bytes with
      | .error e => ⟨.error e, s, clock, none⟩
      | .ok (known, s) =>
        let known := if known then some h else none
        match recallTags tags with
        | .error e => ⟨.error e, s, clock + 1, known⟩
        | .ok tags =>
          if !s.isOpen then ⟨.error .closed, s, clock + 1, known⟩
          else match checkLabel label with
            | .error e => ⟨.error e, s, clock + 1, known⟩
            | .ok _ =>
              let (depth, halted) := measures fs
              ⟨.ok h, s.writeRow ⟨h, label, depth, halted, t.length, clock + 1, tags⟩, clock + 1,
                known⟩

/-- Adds any value that a machine can be restored from. -/
def addValue (hash : Bytes → Handle) (clock : Nat) (s : Store) (v : Value) (label : Option Text)
    (tags : Value) : Added :=
  match (Machine.ofValue v : Except RestoreError (Machine Empty)) with
  | .error e => ⟨.error (.restore e), s, clock, none⟩
  | .ok _ => match v with
    | .record fs => addRecord hash clock s fs label tags
    | v => ⟨.error (.write (.notRecord v.typeName)), s, clock, none⟩

def addMachine {α : Type} [Strange α] (hash : Bytes → Handle) (clock : Nat) (s : Store) (m : Machine α)
    (label : Option Text) (tags : Value) : Added :=
  match m.toValue with
  | .error e => ⟨.error (.save e), s, clock, none⟩
  | .ok (.record fs) => addRecord hash clock s fs label tags
  | .ok v => ⟨.error (.write (.notRecord v.typeName)), s, clock, none⟩

/-- The first rows of a list; a negative limit is none. -/
def limited {β : Type} (limit : Int) (rows : List β) : List β :=
  if limit < 0 then rows else rows.take limit.toNat

def passes (label : Option Text) (halted : Option Bool) (r : Row) : Bool :=
  (match label with
    | none | some [] => true
    | some filter => match r.label with
      | none => false
      | some t => Label.passes filter t) &&
  (match halted with
    | none => true
    | some b => r.halted = b)

/-- The pattern for a filter on labels, as the index takes it; without a filter it is empty. -/
def boundPattern (label : Option Text) : Except EncodeError Bytes :=
  match label with
  | none | some [] => .ok []
  | some filter => (Label.pattern filter).toUtf8

/-- The integers of the index have 64 bits; those that are not negative are below this one. -/
def integerBound : Nat := Nat.pow 2 63

/-- A limit as the index takes it. -/
def boundLimit (limit : Int) : Except StoreError Int :=
  if -(integerBound : Int) ≤ limit ∧ limit < integerBound then .ok limit else .error .limitTooLarge

/-- The rows that pass the filters, in the order of their times. The index takes the pattern and the limit before it
looks at any row. -/
def query (s : Store) (label : Option Text) (halted : Option Bool) (limit : Int) :
    Except StoreError (List Row) :=
  if !s.isOpen then .error .closed
  else
    match boundPattern label with
    | .error e => .error (.encode e)
    | .ok pattern =>
      match boundLimit limit with
      | .error e => .error e
      | .ok limit =>
        if Label.maxBytes < pattern.length ∧ !s.rows.isEmpty then .error .filterTooLong
        else .ok (limited limit
          ((s.rows.filter (passes label halted)).mergeSort fun a b => a.created ≤ b.created))

/-- The order of texts by their first difference. -/
def textLe (a b : Text) : Bool := !(b.map CodePoint.val < a.map CodePoint.val)

/-- The handles of the index, in the order of their texts. The index takes the limit before it looks at any row. -/
def listAll (s : Store) (limit : Int) : Except StoreError (List Handle) :=
  if !s.isOpen then .error .closed
  else
    match boundLimit limit with
    | .error e => .error e
    | .ok limit =>
      .ok (limited limit ((s.rows.map (·.handle)).mergeSort fun a b => textLe a.toText b.toText))

/-- The number of rows and the sum of their text sizes. -/
def stats (s : Store) : Except StoreError (Nat × Nat) :=
  if !s.isOpen then .error .closed
  else .ok (s.rows.length, total Row.textSize s.rows)

end Store

def Handle.ofBytes (bytes : Bytes) : Handle := ⟨Blake2b.digest bytes⟩

end Pausable
