import Pausable.Proofs.Text.Cut
import Pausable.Proofs.Value.Plain
import Pausable.Value.Container

/-!
The two text formats nest values in the same way, and their readers keep the open containers on a stack.
From what a reader does with one token (`Format.Reads`) follows what it does with the text of a whole
value, whatever containers are open around it (`Format.Reads.value`).
-/
namespace Pausable

namespace Text

theorem join_cons (separator t : Text) (ts : List Text) :
    join separator (t :: ts) = t ++ ts.flatMap (separator ++ ·) := by
  induction ts generalizing t with
  | nil => rw [List.flatMap_nil, List.append_nil, join]
  | cons u ts ih =>
      rw [join, ih, List.flatMap_cons, List.append_assoc, List.append_assoc]
      exact nofun

end Text

/-- How a format writes scalars and keys. -/
structure Format where
  scalar : Value → Text
  key : Text → Text

namespace Format

mutual

/-- The text of a value. -/
def text (f : Format) : Value → Text
  | .list vs | .tuple vs => "[" ++ Text.join "," (items f vs) ++ "]"
  | .record fs => "\x7b" ++ Text.join "," (fields f fs) ++ "\x7d"
  | v => f.scalar v

/-- The texts of members. -/
def items (f : Format) : List Value → List Text
  | [] => []
  | v :: vs => f.text v :: items f vs

/-- The texts of fields. -/
def fields (f : Format) : List (Value × Value) → List Text
  | [] => []
  | (.text k, v) :: fs => (f.key k ++ ":" ++ f.text v) :: fields f fs
  | (_, v) :: fs => f.text v :: fields f fs

end

section

variable {ρ : Type} (read : Task → List Container → Cursor → Except ρ (Value × Cursor))

/-- The reader goes on from one task, stack and text with another one, wherever in the whole text it is. -/
def Goes (task : Task) (stack : List Container) (t : Text) (task' : Task) (stack' : List Container)
    (t' : Text) : Prop :=
  ∀ p, ∃ p', read task stack ⟨p, t⟩ = read task' stack' ⟨p', t'⟩

/-- The reader goes on with a value, or with a container that has opened. -/
def follow (stack : List Container) (c : Cursor) : Opening → Except ρ (Value × Cursor)
  | .value v => read (.store v) stack c
  | .container k => read .seek (k :: stack) c

/-- What a reader of the format does with one token. -/
structure Reads (f : Format) (p : Number → Prop) (q : Text → Prop) : Prop where
  begins {v : Value} (r : Text) : v.IsScalar → v.Plain p q → (f.scalar v ++ r).Begins
  scalar {v : Value} {r : Text} (stack) : v.IsScalar → v.Plain p q → r.Ends →
    Goes read .seek stack (f.scalar v ++ r) (.store v) stack r
  emptyList (stack) (r : Text) : Goes read .seek stack ("[]" ++ r) (.store (.list [])) stack r
  openList {r : Text} (stack) : r.Begins → Goes read .seek stack ("[" ++ r) .seek (.list [] :: stack) r
  nextItem {r : Text} (v vs stack) : r.Begins →
    Goes read (.store v) (.list vs :: stack) ("," ++ r) .seek (.list (v :: vs) :: stack) r
  closeList (v vs stack) (r : Text) :
    Goes read (.store v) (.list vs :: stack) ("]" ++ r) (.store (.list (v :: vs).reverse)) stack r
  emptyRecord (stack) (r : Text) : Goes read .seek stack ("\x7b\x7d" ++ r) (.store (.record [])) stack r
  openRecord {k r : Text} (stack) : q k → r.Begins →
    Goes read .seek stack ("\x7b" ++ (f.key k ++ (":" ++ r))) .seek (.record [] k :: stack) r
  nextField {k r : Text} (v fs key stack) : q k → r.Begins →
    Goes read (.store v) (.record fs key :: stack) ("," ++ (f.key k ++ (":" ++ r))) .seek
      (.record (Value.setField (.text key) v fs) k :: stack) r
  closeRecord (v fs key stack) (r : Text) :
    Goes read (.store v) (.record fs key :: stack) ("\x7d" ++ r)
      (.store (.record (Value.setField (.text key) v fs))) stack r

end

variable {ρ : Type} {read : Task → List Container → Cursor → Except ρ (Value × Cursor)}

theorem Goes.trans {a b c : Task} {s t u : List Container} {x y z : Text}
    (h : Goes read a s x b t y) (h' : Goes read b t y c u z) : Goes read a s x c u z := by
  intro p
  obtain ⟨p', hp⟩ := h p
  obtain ⟨p'', hp'⟩ := h' p'
  exact ⟨p'', hp.trans hp'⟩

/-- What stands behind one member of a list. -/
theorem ends_items (f : Format) (vs : List Value) (r : Text) :
    Text.Ends ((f.items vs).flatMap (("," : Text) ++ ·) ++ ("]" ++ r)) := by
  cases vs with
  | nil => exact .inr ⟨']', r, rfl, .inr (.inl rfl)⟩
  | cons v vs => exact .inr ⟨',', _, rfl, .inl rfl⟩

/-- What stands behind one field of a record. -/
theorem ends_fields (f : Format) (fs : List (Value × Value)) (r : Text) :
    Text.Ends ((f.fields fs).flatMap (("," : Text) ++ ·) ++ ("\x7d" ++ r)) := by
  rcases fs with _ | ⟨⟨k, v⟩, fs⟩
  · exact .inr ⟨'\x7d', r, rfl, .inr (.inr rfl)⟩
  · cases k <;> exact .inr ⟨',', _, rfl, .inl rfl⟩

namespace Reads

variable {f : Format} {p : Number → Prop} {q : Text → Prop}

theorem begins_text (h : Reads read f p q) {v : Value} (hv : v.Plain p q) (r : Text) :
    (f.text v ++ r).Begins := by
  cases v with
  | null | bool | number | text => exact h.begins r trivial hv
  | list vs => exact ⟨'[', _, rfl, by decide⟩
  | record fs => exact ⟨'\x7b', _, rfl, by decide⟩
  | tuple vs | alien name => exact hv.elim

mutual

/-- The text of a value is taken off, and the value is stored. -/
theorem value (h : Reads read f p q) (stack : List Container) (r : Text) (hr : r.Ends) :
    (v : Value) → v.Plain p q → Goes read .seek stack (f.text v ++ r) (.store v) stack r
  | .null, hv => h.scalar stack trivial hv hr
  | .bool _, hv => h.scalar stack trivial hv hr
  | .number _, hv => h.scalar stack trivial hv hr
  | .text _, hv => h.scalar stack trivial hv hr
  | .list [], _ => h.emptyList stack r
  | .list (v :: vs), hv => by
      have hfirst := value h (.list [] :: stack) _ (ends_items f vs r) v hv.1
      have hrest := items h stack r [] v vs hv.2
      have hall := (h.openList stack (h.begins_text hv.1 _)).trans (hfirst.trans hrest)
      simpa only [text, Format.items, Text.join_cons, List.append_assoc, List.reverse_nil, List.nil_append]
        using hall
  | .record [], _ => h.emptyRecord stack r
  | .record ((k, v) :: fs), hv => by
      obtain ⟨hkeys, ⟨t, rfl, ht⟩, hv, hfs⟩ := hv
      have hfirst := value h (.record [] t :: stack) _ (ends_fields f fs r) v hv
      have hrest := fields h stack r [] t v fs hfs hkeys
      have hall := (h.openRecord stack ht (h.begins_text hv _)).trans (hfirst.trans hrest)
      simpa only [text, Format.fields, Text.join_cons, List.append_assoc, Value.setField, List.cons_append,
        List.nil_append] using hall
  | .tuple _, hv => hv.elim
  | .alien _, hv => hv.elim

/-- The members behind one that is stored are taken off, and the list closes. -/
theorem items (h : Reads read f p q) (stack : List Container) (r : Text) (done : List Value) (last : Value) :
    (vs : List Value) → Value.PlainItems p q vs →
      Goes read (.store last) (.list done :: stack) ((f.items vs).flatMap (("," : Text) ++ ·) ++ ("]" ++ r))
        (.store (.list (done.reverse ++ last :: vs))) stack r
  | [], _ => by
      have hclose := h.closeList last done stack r
      rwa [List.reverse_cons] at hclose
  | v :: vs, hvs => by
      have hfirst := value h (.list (last :: done) :: stack) _ (ends_items f vs r) v hvs.1
      have hrest := items h stack r (last :: done) v vs hvs.2
      have hall := (h.nextItem last done stack (h.begins_text hvs.1 _)).trans (hfirst.trans hrest)
      simpa only [Format.items, List.flatMap_cons, List.append_assoc, List.reverse_cons, List.singleton_append]
        using hall

/-- The fields behind one that is stored are taken off, and the record closes. -/
theorem fields (h : Reads read f p q) (stack : List Container) (r : Text) (done : List (Value × Value))
    (key : Text) (last : Value) :
    (fs : List (Value × Value)) → Value.PlainFields p q fs →
      ((Value.setField (.text key) last done ++ fs).map (·.1)).Nodup →
      Goes read (.store last) (.record done key :: stack)
        ((f.fields fs).flatMap (("," : Text) ++ ·) ++ ("\x7d" ++ r))
        (.store (.record (Value.setField (.text key) last done ++ fs))) stack r
  | [], _, _ => by
      have hclose := h.closeRecord last done key stack r
      rwa [List.append_nil]
  | (k, v) :: fs, hfs, hkeys => by
      obtain ⟨⟨t, rfl, ht⟩, hv, hfs⟩ := hfs
      have hset : Value.setField (.text t) v (Value.setField (.text key) last done) =
          Value.setField (.text key) last done ++ [(.text t, v)] := by
        refine Value.setField_of_new fun hmem => ?_
        rw [List.map_append, List.nodup_append] at hkeys
        exact hkeys.2.2 _ hmem _ (List.mem_cons_self ..) rfl
      have hfirst := value h (.record (Value.setField (.text key) last done) t :: stack) _
        (ends_fields f fs r) v hv
      have hrest := fields h stack r (Value.setField (.text key) last done) t v fs hfs
        (by rwa [hset, List.append_assoc, List.singleton_append])
      rw [hset] at hrest
      have hall := (h.nextField last done key stack ht (h.begins_text hv _)).trans (hfirst.trans hrest)
      simpa only [Format.fields, List.flatMap_cons, List.append_assoc, List.singleton_append]
        using hall

end

end Reads
end Format
end Pausable
