import Pausable.Number
import Pausable.Total

/-!
Plain data: what records of programs and paused machines are made of, and what the two text formats
write and read. Keys of records may be any value, so that a bad key can be refused by its type.
-/
namespace Pausable

/-- A value of plain data. -/
inductive Value where
  | null
  | bool (b : Bool)
  | number (n : Number)
  | text (t : Text)
  | list (items : List Value)
  | tuple (items : List Value)
  | record (fields : List (Value × Value))
  /-- A value that is no plain data; only the name of its type is known. -/
  | alien (typeName : Text)

namespace Value

instance : Inhabited Value := ⟨null⟩

abbrev int (n : Int) : Value := number (.int n)

def typeName : Value → Text
  | null => "NoneType"
  | bool _ => "bool"
  | number (.int _) => "int"
  | number (.float _) => "float"
  | text _ => "str"
  | list _ => "list"
  | tuple _ => "tuple"
  | record _ => "dict"
  | alien name => name

/-- Truth values count as the integers 0 and 1 where values are compared. -/
def number? : Value → Option Number
  | number n => some n
  | bool b => some (.int b.toNat)
  | _ => none

mutual

/-- Equality of values: numbers and truth values by their value, lists and tuples member by member,
records whatever the order of their fields. -/
def same : Value → Value → Bool
  | null, w => match w with
    | null => true
    | _ => false
  | bool b, w => match w.number? with
    | some n => Number.sameValue (.int b.toNat) n
    | none => false
  | number m, w => match w.number? with
    | some n => m.sameValue n
    | none => false
  | text t, w => match w with
    | text u => t = u
    | _ => false
  | list vs, w => match w with
    | list ws => sameItems vs ws
    | _ => false
  | tuple vs, w => match w with
    | tuple ws => sameItems vs ws
    | _ => false
  | record fs, w => match w with
    | record gs => fs.length = gs.length && sameFields fs gs
    | _ => false
  | alien a, w => match w with
    | alien b => a = b
    | _ => false

def sameItems : List Value → List Value → Bool
  | [], ws => ws.isEmpty
  | v :: vs, ws => match ws with
    | [] => false
    | w :: ws => same v w && sameItems vs ws

/-- Each field of the first row has an equal one in the second. -/
def sameFields : List (Value × Value) → List (Value × Value) → Bool
  | [], _ => true
  | (k, v) :: fs, gs => gs.any (fun g => same k g.1 && same v g.2) && sameFields fs gs

end

/-- Sets a field: in its place if the key is there, else at the end. -/
def setField (key value : Value) : List (Value × Value) → List (Value × Value)
  | [] => [(key, value)]
  | (k, v) :: fs => if same k key then (k, value) :: fs else (k, v) :: setField key value fs

/-- The record of a row of fields: a repeated key keeps its first place and its last value. -/
def ofFields (fields : List (Value × Value)) : Value :=
  record (fields.foldl (fun fs f => setField f.1 f.2 fs) [])

def isName (name : Text) : Value → Bool
  | text t => t = name
  | _ => false

def field? (name : Text) (fields : List (Value × Value)) : Option Value :=
  (fields.find? fun f => f.1.isName name).map (·.2)

def named (name : String) (v : Value) : Value × Value := (text name, v)

mutual

/-- The number of values in a value, keys and itself included, plus one for each row that ends. -/
def size : Value → Nat
  | null | bool _ | number _ | text _ | alien _ => 1
  | list vs => sizeItems vs + 1
  | tuple vs => sizeItems vs + 1
  | record fs => sizeFields fs + 1

def sizeItems : List Value → Nat
  | [] => 1
  | v :: vs => v.size + 1 + sizeItems vs

def sizeFields : List (Value × Value) → Nat
  | [] => 1
  | (k, v) :: fs => k.size + v.size + 2 + sizeFields fs

end

theorem size_pos (v : Value) : 0 < v.size := by cases v <;> simp [size]

theorem sizeFields_pos (fs : List (Value × Value)) : 0 < sizeFields fs := by
  cases fs with
  | nil => simp [sizeFields]
  | cons f fs => simp only [sizeFields]; omega

end Value
end Pausable
