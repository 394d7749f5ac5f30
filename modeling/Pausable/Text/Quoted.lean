import Pausable.Text.Classes

/-!
Quoted texts inside messages: single quotes unless only a single quote occurs inside, escapes for
what cannot be shown.
-/
namespace Pausable.Text

/-- The escape of a code point by its number, as short as the number allows. -/
def numericEscape (c : CodePoint) : Text :=
  if c.val < 0x100 then "\\x" ++ hex 2 c.val
  else if c.val < 0x10000 then unitEscape c.val
  else "\\U" ++ hex 8 c.val

def quotedMember (quote c : CodePoint) : Text :=
  if c = quote ∨ c = '\\' then ['\\', c]
  else if c = '\n' then "\\n"
  else if c = '\r' then "\\r"
  else if c = '\t' then "\\t"
  else if c.isShown then [c]
  else numericEscape c

/-- Double quotes only where a single quote occurs and no double quote does. -/
def quoteMark (t : Text) : CodePoint :=
  if t.contains '\'' && !t.contains '"' then '"' else '\''

def quoted (t : Text) : Text :=
  let mark := quoteMark t
  mark :: (t.flatMap (quotedMember mark) ++ [mark])

end Pausable.Text
