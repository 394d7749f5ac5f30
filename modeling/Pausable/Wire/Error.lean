import Pausable.Value.Container
import Pausable.Value.Shown

/-! Why a value cannot be written as snapshot text, and why a text is no snapshot text. -/
namespace Pausable.Wire

inductive WriteError where
  /-- The value has a type that the format does not know. -/
  | unknownType (typeName : Text)
  /-- A key of a record is no text. -/
  | keyType (typeName : Text)
  /-- The numeral of an integer is too long. -/
  | numeralTooLong
  /-- A machine was expected, saved or as its record. -/
  | notRecord (typeName : Text)
deriving DecidableEq

def WriteError.message : WriteError → Text
  | unknownType t => "E_ST_ENCODE: Cannot encode type " ++ t
  | keyType t => "E_ST_ENCODE: Object keys must be strings, got " ++ t
  | numeralTooLong => Numeral.tooLong
  | notRecord t => "E_ST_ENCODE: Expected serialized state dict, got " ++ t

/-- The reasons against reading a text. Positions count the code points of the trimmed text. -/
inductive ReadError where
  | notText (typeName : Text)
  | empty
  | unexpectedEnd
  | unterminated (shape : Shape)
  | noSeparator (shape : Shape) (position : Nat)
  | trailing (position : Nat)
  | unexpectedCharacter (c : CodePoint) (position : Nat)
  | noKey (position : Nat)
  | noColon (key : Text) (position : Nat)
  | unterminatedString
  | unterminatedEscape
  | unknownEscape (c : CodePoint) (position : Nat)
  | badUnit (position : Nat)
  | badPair (position : Nat)
  | badNumber (numeral : Text) (position : Nat)
  | notState
deriving DecidableEq

/-- What is wrong with a text, without the code in front. -/
def ReadError.detail : ReadError → Text
  | notText t => "Expected str, got " ++ t
  | empty => "Empty input"
  | unexpectedEnd => "Unexpected end of input"
  | unterminated .list => "Unterminated array"
  | unterminated .record => "Unterminated object"
  | noSeparator .list p => "Expected ',' or ']' in array at position " ++ Numeral.ofNat p
  | noSeparator .record p => "Expected ',' or '\x7d' in object at position " ++ Numeral.ofNat p
  | trailing p => "Unexpected content after value at position " ++ Numeral.ofNat p
  | unexpectedCharacter c p =>
    "Unexpected character '" ++ [c] ++ "' at position " ++ Numeral.ofNat p
  | noKey p => "Expected identifier at position " ++ Numeral.ofNat p
  | noColon key p => "Expected ':' after key '" ++ key ++ "' at position " ++ Numeral.ofNat p
  | unterminatedString => "Unterminated string"
  | unterminatedEscape => "Unterminated escape sequence"
  | unknownEscape c p => "Unknown escape '\\" ++ [c] ++ "' at position " ++ Numeral.ofNat p
  | badUnit p => "Invalid \\u escape at position " ++ Numeral.ofNat p
  | badPair p => "Invalid surrogate pair at position " ++ Numeral.ofNat p
  | badNumber t p => "Invalid number '" ++ t ++ "' at position " ++ Numeral.ofNat p
  | notState => "Text does not hold a serialized state"

def ReadError.message (e : ReadError) : Text := "E_ST_DECODE: " ++ e.detail

end Pausable.Wire
