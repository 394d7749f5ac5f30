import Pausable.Text

/-!
The filter on labels. The index compares a label with a pattern, in which some code points are wildcards; a filter
becomes a pattern that marks the wildcards of its own. The comparison sees a text up to its first NUL.
-/
namespace Pausable.Label

/-- What a pattern asks for, one piece of a text behind the other. -/
inductive Sign where
  /-- Any text. -/
  | any
  /-- Any code point. -/
  | one
  /-- This code point; a letter of ASCII in either case. -/
  | exactly (c : CodePoint)
deriving DecidableEq

/-- The signs of a pattern. What follows a backslash stands for itself; a pattern that ends on one has no signs. -/
def signs? : Text → Option (List Sign)
  | [] => some []
  | c :: t =>
    if c = '\\' then
      match t with
      | [] => none
      | d :: t => (signs? t).map (.exactly d :: ·)
    else if c = '%' then (signs? t).map (.any :: ·)
    else if c = '_' then (signs? t).map (.one :: ·)
    else (signs? t).map (.exactly c :: ·)

/-- Some end of the text is as `p` asks; the text itself and the empty one are ends too. -/
def anyEnd (p : Text → Bool) : Text → Bool
  | [] => p []
  | c :: t => p (c :: t) || anyEnd p t

/-- The text has what the signs ask for. -/
def fits : List Sign → Text → Bool
  | [], t => t.isEmpty
  | .any :: signs, t => anyEnd (fits signs) t
  | .one :: signs, _ :: t => fits signs t
  | .exactly c :: signs, d :: t => c.asciiLower = d.asciiLower && fits signs t
  | _ :: _, [] => false

/-- What a comparison sees of a text. -/
def seen (t : Text) : Text := t.takeWhile fun c => c.val ≠ 0

/-- The text is like the pattern. -/
def like (pattern t : Text) : Bool :=
  match signs? (seen pattern) with
  | none => false
  | some signs => fits signs (seen t)

/-- No filter may be longer than this, in bytes, the marks of the pattern around it and before each of its
wildcards counted in. -/
def maxBytes : Nat := 50000

/-- A code point that a pattern marks as standing for itself. -/
def isWildcard (c : CodePoint) : Bool := c = '%' || c = '_' || c = '\\'

def marked (filter : Text) : Text :=
  filter.flatMap fun c => if isWildcard c then ['\\', c] else [c]

/-- The pattern for a filter. -/
def pattern (filter : Text) : Text := "%" ++ marked filter ++ "%"

/-- A label passes a filter that is not empty. -/
def passes (filter label : Text) : Bool := like (pattern filter) label

end Pausable.Label
