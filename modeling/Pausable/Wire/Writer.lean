import Pausable.Wire.Error

/-!
Writing snapshot text, in printable ASCII. Values wait in a list of pieces together with the text that
stands between them, so that nesting costs no recursion.
-/
namespace Pausable.Wire

def keywords : List Text := ["NULL", "TRUE", "FALSE", "INF", "NAN"]

def numberWords : Binary64.Words := ⟨"NAN", "INF"⟩

/-- Letters of ASCII and the underscore begin a bare key. -/
def isKeyStart (c : CodePoint) : Bool := c.isAsciiLetter || c = '_'

/-- A key that needs no quotes: a name in ASCII that is no keyword. -/
def isBareKey : Text → Bool
  | [] => false
  | c :: t =>
    isKeyStart c && t.all (fun d => isKeyStart d || d.isAsciiDigit) && !keywords.contains (c :: t)

/-- One code point inside quotes. -/
def escaped (c : CodePoint) : Text :=
  if c = '\\' then "\\\\"
  else if c = '"' then "\\\""
  else if c = '\n' then "\\n"
  else if c = '\t' then "\\t"
  else if c = '\r' then "\\r"
  else if 0x20 ≤ c.val ∧ c.val ≤ 0x7E then [c]
  else Text.unitEscapes c

def quote (t : Text) : Text := "\"" ++ t.flatMap escaped ++ "\""

/-- A key, in quotes where it needs them. -/
def keyText (t : Text) : Text := if isBareKey t then t else quote t

def fieldKey : Value → Except WriteError Text
  | .text t => .ok (keyText t)
  | k => .error (.keyType k.typeName)

def writeNumber : Number → Except WriteError Text
  | .int n => match Numeral.ofInt? n with
    | some t => .ok t
    | none => .error .numeralTooLong
  | .float x => .ok (x.write numberWords)

/-- What waits to be written. -/
inductive Piece where
  | text (t : Text)
  | value (v : Value)

namespace Piece

/-- Members of a list with commas between them. -/
def ofItems : List Value → List Piece
  | [] => []
  | [v] => [value v]
  | v :: w :: vs => value v :: text "," :: ofItems (w :: vs)

/-- Fields of a record with commas between them, their keys already written. -/
def ofMembers : List (Text × Value) → List Piece
  | [] => []
  | [(k, v)] => [text (k ++ ":"), value v]
  | (k, v) :: m :: ms => text (k ++ ":") :: value v :: text "," :: ofMembers (m :: ms)

def keyed : List (Value × Value) → Except WriteError (List (Text × Value))
  | [] => .ok []
  | (k, v) :: fs => match fieldKey k with
    | .error e => .error e
    | .ok t => (keyed fs).map ((t, v) :: ·)

/-- A value as pieces: a scalar is text, a container opens, holds its members and closes. All keys of a
record are written when it opens. -/
def expand : Value → Except WriteError (List Piece)
  | .null => .ok [text "NULL"]
  | .bool b => .ok [text (if b then "TRUE" else "FALSE")]
  | .number n => (writeNumber n).map ([text ·])
  | .text t => .ok [text (quote t)]
  | .list vs | .tuple vs => .ok (text "[" :: ofItems vs ++ [text "]"])
  | .record fs => (keyed fs).map fun ms => text "\x7b" :: ofMembers ms ++ [text "\x7d"]
  | .alien name => .error (.unknownType name)

/-- The work that a piece stands for. -/
def weight : Piece → Nat
  | text _ => 1
  | value v => 2 * v.size

def totalWeight (ps : List Piece) : Nat := total weight ps

@[simp] theorem totalWeight_nil : totalWeight [] = 0 := rfl

@[simp] theorem totalWeight_cons (p : Piece) (ps : List Piece) :
    totalWeight (p :: ps) = p.weight + totalWeight ps := by simp [totalWeight]

@[simp] theorem totalWeight_append (ps qs : List Piece) :
    totalWeight (ps ++ qs) = totalWeight ps + totalWeight qs := by simp [totalWeight]

theorem totalWeight_ofItems (vs : List Value) :
    totalWeight (ofItems vs) < 2 * Value.sizeItems vs := by
  induction vs using ofItems.induct with
  | case1 => simp [ofItems, Value.sizeItems]
  | case2 v =>
    simp only [ofItems, totalWeight_cons, totalWeight_nil, weight, Value.sizeItems]; omega
  | case3 v w vs ih =>
    simp only [ofItems, totalWeight_cons, weight, Value.sizeItems] at ih ⊢
    omega

theorem totalWeight_ofMembers {fs : List (Value × Value)} {ms : List (Text × Value)}
    (h : keyed fs = .ok ms) : totalWeight (ofMembers ms) < 2 * Value.sizeFields fs := by
  induction fs generalizing ms with
  | nil => simp only [keyed, Except.ok.injEq] at h; simp [← h, ofMembers, Value.sizeFields]
  | cons f fs ih =>
    obtain ⟨k, v⟩ := f
    cases hk : fieldKey k with
    | error e => simp [keyed, hk] at h
    | ok t =>
      cases hr : keyed fs with
      | error e => simp [keyed, hk, hr, Except.map] at h
      | ok rest =>
        simp only [keyed, hk, hr, Except.map, Except.ok.injEq] at h
        have := ih hr
        subst h
        cases rest with
        | nil => simp [ofMembers, weight, Value.sizeFields]; omega
        | cons m ms =>
          obtain ⟨l, w⟩ := m
          simp only [ofMembers, totalWeight_cons, weight, Value.sizeFields] at this ⊢
          omega

/-- Opening a value leaves less work than the value itself. -/
theorem totalWeight_expand {v : Value} {ps : List Piece} (h : expand v = .ok ps) :
    totalWeight ps < weight (value v) := by
  cases v with
  | null | bool _ | text _ =>
    simp only [expand, Except.ok.injEq] at h; subst h; simp [weight, Value.size]
  | alien _ => simp [expand] at h
  | number n =>
    cases hn : writeNumber n <;> simp only [expand, hn, Except.map, reduceCtorEq, Except.ok.injEq] at h
    subst h; simp [weight, Value.size]
  | list vs | tuple vs =>
    simp only [expand, Except.ok.injEq] at h
    subst h
    have := totalWeight_ofItems vs
    simp [weight, Value.size]; omega
  | record fs =>
    cases hk : keyed fs <;> simp only [expand, hk, Except.map, reduceCtorEq, Except.ok.injEq] at h
    subst h
    have := totalWeight_ofMembers hk
    simp [weight, Value.size]; omega

end Piece

/-- Writes the waiting pieces behind what is already written, which is kept last part first. -/
def emit (pending : List Piece) (out : List Text) : Except WriteError (List Text) :=
  match pending with
  | [] => .ok out
  | .text t :: rest => emit rest (t :: out)
  | .value v :: rest =>
    match _h : Piece.expand v with
    | .error e => .error e
    | .ok pieces => emit (pieces ++ rest) out
termination_by Piece.totalWeight pending
decreasing_by
  · simp [Piece.weight]
  · have := Piece.totalWeight_expand _h
    simp only [Piece.totalWeight_append, Piece.totalWeight_cons]
    omega

/-- The snapshot text of a value. -/
def write (v : Value) : Except WriteError Text :=
  (emit [.value v] []).map fun out => out.reverse.flatten

end Pausable.Wire
