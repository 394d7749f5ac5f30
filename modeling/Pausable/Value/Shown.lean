import Pausable.Value
import Pausable.Text.Quoted

/-! Values as messages show them. -/
namespace Pausable

/-- The message for an integer whose numeral would be too long. -/
def Numeral.tooLong : Text :=
  "Exceeds the limit (4300 digits) for integer string conversion; " ++
    "use sys.set_int_max_str_digits() to increase the limit"

namespace Value

def boolWord (b : Bool) : Text := if b then "True" else "False"

/-- A tuple of one member is told from a value in parentheses by a comma. -/
def tupleShown : List Text → Text
  | [t] => "(" ++ t ++ ",)"
  | ts => "(" ++ Text.join ", " ts ++ ")"

mutual

/-- The value as messages show it; none if it holds an integer whose numeral is too long. -/
def shown? : Value → Option Text
  | null => some "None"
  | bool b => some (boolWord b)
  | number n => n.print?
  | text t => some t.quoted
  | list vs => (shownItems? vs).map fun ts => "[" ++ Text.join ", " ts ++ "]"
  | tuple vs => (shownItems? vs).map tupleShown
  | record fs => (shownFields? fs).map fun ts => "\x7b" ++ Text.join ", " ts ++ "\x7d"
  | alien name => some ("<" ++ name ++ ">")

/-- The members of a row as messages show them. -/
def shownItems? : List Value → Option (List Text)
  | [] => some []
  | v :: vs => match shown? v with
    | none => none
    | some t => (shownItems? vs).map (t :: ·)

/-- The fields of a record as messages show them. -/
def shownFields? : List (Value × Value) → Option (List Text)
  | [] => some []
  | (k, v) :: fs => match shown? k with
    | none => none
    | some a => match shown? v with
      | none => none
      | some b => (shownFields? fs).map ((a ++ ": " ++ b) :: ·)

end
end Value
end Pausable
