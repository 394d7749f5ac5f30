import Mathlib.Data.List.Induction
import Mathlib.Data.List.Nodup
import Pausable.Proofs.Number.Spelled
import Pausable.Proofs.Value.Plain
import Pausable.Wire.Token

/-!
The grammar of snapshot text. What derives a thing at the front of a text says what is left behind it, for
some tokens end only where nothing more can belong to them.
-/
namespace Pausable

/-! ## Numbers -/

namespace WrittenNumber

def IsDigits (t : Text) : Prop := ∀ c ∈ t, c.isDigit = true

/-- A point with digits behind it, or nothing. -/
inductive FractionText : Option Text → Text → Prop where
  | none : FractionText none []
  | point {t : Text} : IsDigits t → FractionText (some t) ('.' :: t)

def IsExponentLetter (c : CodePoint) : Prop := c = 'e' ∨ c = 'E'

/-- A letter, a sign or none, and digits; or nothing. -/
inductive ExponentText : Option (Bool × Text) → Text → Prop where
  | none : ExponentText none []
  | bare {c : CodePoint} {t : Text} : IsExponentLetter c → IsDigits t → ExponentText (some (false, t)) (c :: t)
  | plus {c : CodePoint} {t : Text} : IsExponentLetter c → IsDigits t →
      ExponentText (some (false, t)) (c :: '+' :: t)
  | minus {c : CodePoint} {t : Text} : IsExponentLetter c → IsDigits t →
      ExponentText (some (true, t)) (c :: '-' :: t)

/-- The text of a number in its parts. Every part may be empty: whether there is such a number is another
question. -/
def IsText (w : WrittenNumber) (t : Text) : Prop :=
  ∃ f e, t = spellSign w.negative ++ (w.whole ++ (f ++ e)) ∧ IsDigits w.whole ∧ FractionText w.fraction f ∧
    ExponentText w.exponent e

/-- The text of a number, and no longer one stands at the front of it with the rest. -/
structure Longest (w : WrittenNumber) (t r : Text) : Prop where
  text : w.IsText t
  longest : ∀ w' t', IsText w' t' → t' <+: t ++ r → t'.length ≤ t.length

end WrittenNumber

namespace Wire

/-! ## Quoted texts -/

/-- The code points that are escaped by a letter or by themselves. -/
inductive ShortEscape : CodePoint → CodePoint → Prop where
  | backslash : ShortEscape '\\' '\\'
  | quote : ShortEscape '"' '"'
  | lineFeed : ShortEscape 'n' '\n'
  | tab : ShortEscape 't' '\t'
  | carriageReturn : ShortEscape 'r' '\r'

/-- Four hexadecimal digits and their value. -/
def CodeUnit (digits : Text) (n : Nat) : Prop := digits.length = 4 ∧ Text.hexValue? digits = some n

/-- What a backslash stands for with what is behind it, and what is left. A first surrogate with an escape
directly behind it makes a pair with that, or no text at all. -/
inductive Escape : Text → CodePoint → Text → Prop where
  | short {e c : CodePoint} {r : Text} : ShortEscape e c → Escape (e :: r) c r
  | unit {digits r : Text} {n : Nat} : CodeUnit digits n → ¬ (CodePoint.isHigh n = true ∧ ("\\u" : Text) <+: r) →
      Escape ('u' :: (digits ++ r)) (CodePoint.ofNat n) r
  | pair {first second r : Text} {high low : Nat} : CodeUnit first high → CodeUnit second low →
      CodePoint.isHigh high = true → CodePoint.isLow low = true →
      Escape ('u' :: (first ++ ("\\u" ++ (second ++ r)))) (CodePoint.ofPair high low) r

/-- The text from behind the opening quote on, what it stands for, and what is left behind the closing
quote. -/
inductive Quoted : Text → Text → Text → Prop where
  | close {r : Text} : Quoted ('"' :: r) [] r
  | plain {c : CodePoint} {t s r : Text} : c ≠ '"' → c ≠ '\\' → Quoted t s r → Quoted (c :: t) (c :: s) r
  | escape {c : CodePoint} {t u s r : Text} : Escape t c u → Quoted u s r → Quoted ('\\' :: t) (c :: s) r

/-! ## Scalars and keys -/

inductive Scalar : Text → Value → Text → Prop where
  | constant {word r : Text} {v : Value} : (word, v) ∈ constants → r.Stops CodePoint.isWordChar →
      Scalar (word ++ r) v r
  | text {t s r : Text} : Quoted t s r → Scalar ('"' :: t) (.text s) r
  | number {c : CodePoint} {t r : Text} {w : WrittenNumber} {n : Number} : c = '-' ∨ c.isDigit = true →
      w.Longest (c :: t) r → w.toNumber? = some n → Scalar (c :: t ++ r) (.number n) r

inductive Key : Text → Text → Text → Prop where
  | text {t s r : Text} : Quoted t s r → Key ('"' :: t) s r
  | name {k r : Text} : k ≠ [] → (∀ c ∈ k, c.isWordChar = true) → r.Stops CodePoint.isWordChar → Key (k ++ r) k r

/-! ## Values -/

def Blank (t : Text) : Prop := ∀ c ∈ t, c.isBlank = true

/-- The value of the last field with a key. -/
def lastValue (fs : List (Text × Value)) (k : Text) : Value :=
  ((fs.reverse.find? fun f => f.1 = k).map (·.2)).getD .null

/-- The fields of a record, given all that are written: each key in its first place and with its last
value. -/
def settled (fs : List (Text × Value)) : List (Value × Value) :=
  (fs.map (·.1)).eraseDups.map fun k => (.text k, lastValue fs k)

mutual

/-- A value at the front of a text. -/
inductive Derives : Text → Value → Text → Prop where
  | scalar {t r : Text} {v : Value} : Scalar t v r → Derives t v r
  | emptyList {b r : Text} : Blank b → Derives ("[" ++ (b ++ ("]" ++ r))) (.list []) r
  | list {b t u r : Text} {v : Value} {vs : List Value} : Blank b → Derives t v u → Items u vs r →
      Derives ("[" ++ (b ++ t)) (.list (v :: vs)) r
  | emptyRecord {b r : Text} : Blank b → Derives ("\x7b" ++ (b ++ ("\x7d" ++ r))) (.record []) r
  | record {t u r : Text} {f : Text × Value} {fs : List (Text × Value)} : Field t f u → Fields u fs r →
      Derives ("\x7b" ++ t) (.record (settled (f :: fs))) r

/-- The members behind the first one of a list, and its end. -/
inductive Items : Text → List Value → Text → Prop where
  | close {b r : Text} : Blank b → Items (b ++ ("]" ++ r)) [] r
  | more {b b' t u r : Text} {v : Value} {vs : List Value} : Blank b → Blank b' → Derives t v u → Items u vs r →
      Items (b ++ ("," ++ (b' ++ t))) (v :: vs) r

/-- A key, a colon and a value. -/
inductive Field : Text → Text × Value → Text → Prop where
  | mk {b b' b'' t u r : Text} {k : Text} {v : Value} : Blank b → Key t k (b' ++ (":" ++ (b'' ++ u))) →
      Blank b' → Blank b'' → Derives u v r → Field (b ++ t) (k, v) r

/-- The fields behind the first one of a record, and its end. -/
inductive Fields : Text → List (Text × Value) → Text → Prop where
  | close {b r : Text} : Blank b → Fields (b ++ ("\x7d" ++ r)) [] r
  | more {b t u r : Text} {f : Text × Value} {fs : List (Text × Value)} : Blank b → Field t f u → Fields u fs r →
      Fields (b ++ ("," ++ t)) (f :: fs) r

end

/-! ## Repeated keys -/

theorem eraseDups_append_singleton (ks : List Text) (k : Text) :
    (ks ++ [k]).eraseDups = if k ∈ ks then ks.eraseDups else ks.eraseDups ++ [k] := by
  rw [List.eraseDups_append]
  split
  · rename_i hk
    simp [List.removeAll, hk]
  · rename_i hk
    simp [List.removeAll, hk, List.eraseDups_cons]

theorem nodup_eraseDups (ks : List Text) : ks.eraseDups.Nodup := by
  induction ks using List.reverseRecOn with
  | nil => exact .nil
  | append_singleton ks k ih =>
      rw [eraseDups_append_singleton]
      split
      · exact ih
      · rename_i hk
        refine List.nodup_append.2 ⟨ih, List.pairwise_singleton .., ?_⟩
        rintro a ha _ hb rfl
        rw [List.mem_singleton.1 hb, List.mem_eraseDups] at ha
        exact hk ha

theorem setField_of_mem {ks : List Text} (hks : ks.Nodup) {k : Text} (hk : k ∈ ks) (g : Text → Value)
    (v : Value) : Value.setField (.text k) v (ks.map fun x => (.text x, g x)) =
      ks.map fun x => (.text x, if x = k then v else g x) := by
  induction ks with
  | nil => cases hk
  | cons x ks ih =>
      obtain ⟨hx, hks⟩ := List.nodup_cons.1 hks
      rw [List.map_cons, List.map_cons, Value.setField]
      by_cases hxk : x = k
      · have hrest : ∀ y ∈ ks, y ≠ k := fun y hy hyk => hx (hxk ▸ hyk ▸ hy)
        rw [if_pos ((Value.same_text _ _).2 (congrArg Value.text hxk)), if_pos hxk]
        refine congrArg (List.cons _) (List.map_congr_left fun y hy => ?_)
        rw [if_neg (hrest y hy)]
      · have hsame : ¬ Value.same (.text x) (.text k) = true := by
          rw [Value.same_text]
          exact fun h => hxk (Value.text.inj h)
        have hmem : k ∈ ks := (List.mem_cons.1 hk).resolve_left (Ne.symm hxk)
        rw [if_neg hsame, if_neg hxk, ih hks hmem]

theorem lastValue_append (fs : List (Text × Value)) (k x : Text) (v : Value) :
    lastValue (fs ++ [(k, v)]) x = if x = k then v else lastValue fs x := by
  by_cases hx : x = k
  · simp [lastValue, hx]
  · simp [lastValue, hx, Ne.symm hx]

theorem settled_append (fs : List (Text × Value)) (k : Text) (v : Value) :
    settled (fs ++ [(k, v)]) = Value.setField (.text k) v (settled fs) := by
  have hnodup := nodup_eraseDups (fs.map (·.1))
  rw [settled, List.map_append, List.map_cons, List.map_nil, eraseDups_append_singleton]
  simp only [lastValue_append]
  split
  · rename_i hk
    exact (setField_of_mem hnodup (List.mem_eraseDups.2 hk) _ v).symm
  · rename_i hk
    have hnew : Value.text k ∉ (settled fs).map (·.1) := by
      intro h
      simp only [settled, List.map_map, List.mem_map, List.mem_eraseDups, Function.comp_apply] at h
      obtain ⟨x, hx, hxk⟩ := h
      cases hxk
      exact hk (List.mem_map.2 hx)
    rw [Value.setField_of_new hnew, List.map_append, settled]
    congr 1
    · refine List.map_congr_left fun x hx => ?_
      have hne : x ≠ k := by
        rintro rfl
        exact hk (List.mem_eraseDups.1 hx)
      rw [if_neg hne]
    · rw [List.map_singleton, if_pos rfl]

theorem keys_settled (gs : List (Text × Value)) :
    (settled gs).map (·.1) = (gs.map (·.1)).eraseDups.map Value.text := by
  rw [settled, List.map_map]
  rfl

theorem mem_keys_settled (gs : List (Text × Value)) (k : Text) :
    Value.text k ∈ (settled gs).map (·.1) ↔ k ∈ gs.map (·.1) := by
  rw [keys_settled, List.mem_map_of_injective fun _ _ => Value.text.inj, List.mem_eraseDups]

/-- A record is plain if all fields that are written are. -/
theorem plain_settled {p : Number → Prop} {q : Text → Prop} {gs : List (Text × Value)}
    (h : ∀ g ∈ gs, q g.1 ∧ g.2.Plain p q) : (Value.record (settled gs)).Plain p q := by
  constructor
  · rw [keys_settled]
    exact List.Nodup.map (fun _ _ => Value.text.inj) (nodup_eraseDups _)
  · induction gs using List.reverseRecOn with
    | nil => trivial
    | append_singleton gs g ih =>
        obtain ⟨hgs, hg⟩ := List.forall_mem_append.1 h
        obtain ⟨hkey, hvalue⟩ := hg g (List.mem_singleton_self g)
        rw [settled_append]
        exact Value.plainFields_setField hkey hvalue (ih hgs)

/-- Where no key is repeated, all fields stay. -/
theorem settled_nodup {gs : List (Text × Value)} (h : (gs.map (·.1)).Nodup) :
    settled gs = gs.map fun g => (.text g.1, g.2) := by
  induction gs using List.reverseRecOn with
  | nil => rfl
  | append_singleton gs g ih =>
      rw [List.map_append, List.nodup_append] at h
      have hnew : Value.text g.1 ∉ (settled gs).map (·.1) := by
        rw [mem_keys_settled]
        exact fun hmem => h.2.2 _ hmem _ (List.mem_singleton_self _) rfl
      rw [settled_append, Value.setField_of_new hnew, ih h.1, List.map_append]
      rfl

end Wire
end Pausable
