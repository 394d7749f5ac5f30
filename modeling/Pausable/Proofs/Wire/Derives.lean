import Pausable.Proofs.Result
import Pausable.Proofs.Value.Nesting
import Pausable.Proofs.Wire.Scalars

/-!
The reader accepts just what the grammar derives, and gives the derived value (`read_derives`). The grammar
recurses where the reader keeps a stack: what the open containers still ask of the text behind a value is
said by recursion on the stack (`Completes`).
-/
namespace Pausable.Wire

/-- The fields of a record after some more are written. -/
def extend (fields : List (Value × Value)) (fs : List (Text × Value)) : List (Value × Value) :=
  fs.foldl (fun fields f => Value.setField (.text f.1) f.2 fields) fields

theorem extend_settled (fs gs : List (Text × Value)) : extend (settled fs) gs = settled (fs ++ gs) := by
  induction gs generalizing fs with
  | nil => rw [List.append_nil]; rfl
  | cons g gs ih =>
      have hg : Value.setField (.text g.1) g.2 (settled fs) = settled (fs ++ [g]) := (settled_append ..).symm
      rw [extend, List.foldl_cons, hg, ← extend, ih, List.append_assoc, List.singleton_append]

theorem extend_nil (fs : List (Text × Value)) : extend [] fs = settled fs := extend_settled [] fs

theorem Blank.nil : Blank [] := List.forall_mem_nil _

/-! ## What begins -/

theorem begins_derives {t r : Text} {v : Value} (h : Derives t v r) :
    ∃ c u, t = c :: u ∧ c.isBlank = false ∧ c ≠ ']' := by
  cases h with
  | scalar h =>
      obtain ⟨c, u, rfl, hc⟩ := starts_scalar h
      exact ⟨c, u, rfl, hc.not_isBlank, hc.ne_container.2.1⟩
  | emptyList | list => exact ⟨'[', _, rfl, rfl, by decide⟩
  | emptyRecord | record => exact ⟨'\x7b', _, rfl, rfl, by decide⟩

theorem skipBlanks_skipBlanks (c : Cursor) : c.skipBlanks.skipBlanks = c.skipBlanks :=
  Cursor.skipRun_stops (Cursor.takeRun_sound CodePoint.isBlank c).2.2

theorem readKey_skipBlanks (c : Cursor) : readKey c.skipBlanks = readKey c := by
  unfold readKey
  rw [skipBlanks_skipBlanks]

/-! ## Turns of the reader -/

theorem readOpen_seek_nil {stack : List Container} {c : Cursor} (hc : c.skipBlanks.rest = []) :
    readOpen .seek stack c = .error ⟨.unexpectedEnd, c.skipBlanks.position⟩ := by
  rw [readOpen]
  split
  · rfl
  · rename_i hcons
    rw [hc] at hcons
    cases hcons

theorem readOpen_seek_cons {stack : List Container} {c : Cursor} {d : CodePoint} {u : Text}
    (hc : c.skipBlanks.rest = d :: u) :
    readOpen .seek stack c = match readOpening c.skipBlanks with
      | .error e => .error e
      | .ok (o, a) => Format.follow readOpen stack a o := by
  rw [readOpen]
  split
  · rename_i hnil
    rw [hc] at hnil
    cases hnil
  · split
    · rename_i e he
      rw [he]
    · rename_i v a he
      rw [he]
      rfl
    · rename_i k a he
      rw [he]
      rfl

theorem readOpen_store_nil {stack : List Container} {k : Container} {v : Value} {c : Cursor}
    (hc : c.skipBlanks.rest = []) :
    readOpen (.store v) (k :: stack) c = .error ⟨.unterminated (k.add v).shape, c.skipBlanks.position⟩ := by
  rw [readOpen]
  split
  · rfl
  · rename_i hcons
    rw [hc] at hcons
    cases hcons

theorem readOpen_store_cons {stack : List Container} {k : Container} {v : Value} {c : Cursor} {d : CodePoint}
    {u : Text} (hc : c.skipBlanks.rest = d :: u) :
    readOpen (.store v) (k :: stack) c =
      if d = ',' then
        match proceed (c.skipBlanks.skip 1) (k.add v) with
        | .error e => .error e
        | .ok (k', a) => readOpen .seek (k' :: stack) a
      else if d = (k.add v).closer then readOpen (.store (k.add v).close) stack (c.skipBlanks.skip 1)
      else .error ⟨.noSeparator (k.add v).shape c.skipBlanks.position, c.skipBlanks.position⟩ := by
  conv_lhs => rw [readOpen]
  split
  · rename_i hnil
    rw [hc] at hnil
    cases hnil
  · rename_i hcons
    rw [hc] at hcons
    cases hcons
    split
    · split
      · rename_i e he
        rw [he]
      · rename_i k' a he
        rw [he]
    · rfl

/-! ## All derived texts are read -/

section

variable {stack : List Container} {p : Nat} {b t r : Text} {a : Cursor}

theorem readOpen_seek_eq (hb : Blank b) (ht : ∃ c u, t = c :: u ∧ c.isBlank = false) :
    readOpen .seek stack ⟨p, b ++ t⟩ = match readOpening ⟨p + b.length, t⟩ with
      | .error e => .error e
      | .ok (o, a) => Format.follow readOpen stack a o := by
  obtain ⟨c, u, rfl, hc⟩ := ht
  have hskip := skipBlanks_append p hb (t := c :: u) (by rintro _ ⟨⟩; exact hc)
  rw [readOpen_seek_cons (d := c) (u := u) (by rw [hskip]), hskip]

theorem readOpen_seek {o : Opening} (hb : Blank b) (ht : ∃ c u, t = c :: u ∧ c.isBlank = false)
    (h : readOpening ⟨p + b.length, t⟩ = .ok (o, a)) :
    readOpen .seek stack ⟨p, b ++ t⟩ = Format.follow readOpen stack a o := by
  rw [readOpen_seek_eq hb ht, h]

theorem readOpen_comma_eq {k : Container} {v : Value} (hb : Blank b) :
    readOpen (.store v) (k :: stack) ⟨p, b ++ ("," ++ t)⟩ = match proceed ⟨p + b.length + 1, t⟩ (k.add v) with
      | .error e => .error e
      | .ok (k', a) => readOpen .seek (k' :: stack) a := by
  have hskip : (⟨p, b ++ ("," ++ t)⟩ : Cursor).skipBlanks = ⟨p + b.length, "," ++ t⟩ :=
    skipBlanks_append p hb (by rintro _ ⟨⟩; rfl)
  have hnext : (⟨p + b.length, "," ++ t⟩ : Cursor).skip 1 = ⟨p + b.length + 1, t⟩ := rfl
  rw [readOpen_store_cons (d := ',') (u := t) (by rw [hskip]; rfl), if_pos rfl, hskip, hnext]

theorem readOpen_comma {k k' : Container} {v : Value} (hb : Blank b)
    (h : proceed ⟨p + b.length + 1, t⟩ (k.add v) = .ok (k', a)) :
    readOpen (.store v) (k :: stack) ⟨p, b ++ ("," ++ t)⟩ = readOpen .seek (k' :: stack) a := by
  rw [readOpen_comma_eq hb, h]

theorem readOpen_closer {k : Container} {v : Value} (hb : Blank b) :
    readOpen (.store v) (k :: stack) ⟨p, b ++ (k.closer :: t)⟩ =
      readOpen (.store (k.add v).close) stack ⟨p + b.length + 1, t⟩ := by
  have hskip : (⟨p, b ++ (k.closer :: t)⟩ : Cursor).skipBlanks = ⟨p + b.length, k.closer :: t⟩ :=
    skipBlanks_append p hb (by rintro _ ⟨⟩; cases k <;> rfl)
  have hcomma : k.closer ≠ ',' := by
    cases k with
    | list => exact show CodePoint.ofChar ']' ≠ ',' by decide
    | record => exact show CodePoint.ofChar '\x7d' ≠ ',' by decide
  have hcloser : k.closer = (k.add v).closer := by cases k <;> rfl
  rw [readOpen_store_cons (d := k.closer) (u := t) (by rw [hskip]), if_neg hcomma, if_pos hcloser, hskip]
  rfl

theorem readOpening_emptyList (hb : Blank b) :
    ∃ p', readOpening ⟨p, "[" ++ (b ++ ("]" ++ t))⟩ = .ok (.value (.list []), ⟨p', t⟩) := by
  have hinside : ((⟨p, "[" ++ (b ++ ("]" ++ t))⟩ : Cursor).skip 1).skipBlanks = ⟨p + 1 + b.length, "]" ++ t⟩ :=
    skipBlanks_append (p + 1) hb (by rintro _ ⟨⟩; rfl)
  refine ⟨p + 1 + b.length + 1, ?_⟩
  simp only [readOpening, hinside]
  rfl

theorem readOpening_list (hb : Blank b) (ht : ∃ c u, t = c :: u ∧ c.isBlank = false ∧ c ≠ ']') :
    ∃ p', readOpening ⟨p, "[" ++ (b ++ t)⟩ = .ok (.container (.list []), ⟨p', t⟩) := by
  obtain ⟨c, u, rfl, hc, hne⟩ := ht
  have hinside : ((⟨p, "[" ++ (b ++ c :: u)⟩ : Cursor).skip 1).skipBlanks = ⟨p + 1 + b.length, c :: u⟩ :=
    skipBlanks_append (p + 1) hb (by rintro _ ⟨⟩; exact hc)
  have hnext : ¬ (⟨p + 1 + b.length, c :: u⟩ : Cursor).next (· = ']') = true := Cursor.not_next_of_ne hne
  refine ⟨p + 1 + b.length, ?_⟩
  simp only [readOpening, hinside, if_neg hnext]
  rfl

theorem readOpening_emptyRecord (hb : Blank b) :
    ∃ p', readOpening ⟨p, "\x7b" ++ (b ++ ("\x7d" ++ t))⟩ = .ok (.value (.record []), ⟨p', t⟩) := by
  have hinside : ((⟨p, "\x7b" ++ (b ++ ("\x7d" ++ t))⟩ : Cursor).skip 1).skipBlanks =
      ⟨p + 1 + b.length, "\x7d" ++ t⟩ := skipBlanks_append (p + 1) hb (by rintro _ ⟨⟩; rfl)
  refine ⟨p + 1 + b.length + 1, ?_⟩
  simp only [readOpening, hinside]
  rfl

theorem readOpening_record_eq (ht : ∃ b u c s, t = b ++ u ∧ Blank b ∧ u = c :: s ∧ Starts c) :
    readOpening ⟨p, "\x7b" ++ t⟩ = (readKey ⟨p + 1, t⟩).map fun r => (.container (.record [] r.1), r.2) := by
  have hskip : (⟨p, "\x7b" ++ t⟩ : Cursor).skip 1 = ⟨p + 1, t⟩ := rfl
  obtain ⟨b, u, c, s, rfl, hb, rfl, hc⟩ := ht
  have hinside : (⟨p + 1, b ++ c :: s⟩ : Cursor).skipBlanks = ⟨p + 1 + b.length, c :: s⟩ :=
    skipBlanks_append (p + 1) hb (by rintro _ ⟨⟩; exact hc.not_isBlank)
  have hnext : ¬ (⟨p + 1, b ++ c :: s⟩ : Cursor).skipBlanks.next (· = '\x7d') = true := by
    rw [hinside]
    exact Cursor.not_next_of_ne hc.ne_container.2.2.2
  simp only [readOpening, hskip, if_neg hnext, readKey_skipBlanks]
  rfl

theorem readOpening_record {k : Text} (ht : ∃ b u c s, t = b ++ u ∧ Blank b ∧ u = c :: s ∧ Starts c)
    (hk : readKey ⟨p + 1, t⟩ = .ok (k, a)) :
    readOpening ⟨p, "\x7b" ++ t⟩ = .ok (.container (.record [] k), a) := by
  rw [readOpening_record_eq ht, hk]
  rfl

theorem readOpening_scalar {v : Value} (h : Scalar t v r) (p : Nat) :
    ∃ p', readOpening ⟨p, t⟩ = .ok (.value v, ⟨p', r⟩) := by
  obtain ⟨p', hp⟩ := readScalar_complete h p
  obtain ⟨c, u, rfl, hc⟩ := starts_scalar h
  have hlist : ¬ (⟨p, c :: u⟩ : Cursor).next (· = '[') = true := Cursor.not_next_of_ne hc.ne_container.1
  have hrecord : ¬ (⟨p, c :: u⟩ : Cursor).next (· = '\x7b') = true := Cursor.not_next_of_ne hc.ne_container.2.2.1
  refine ⟨p', ?_⟩
  rw [readOpening, if_neg hlist, if_neg hrecord, hp]
  rfl

end

theorem starts_field {t r : Text} {f : Text × Value} (h : Field t f r) :
    ∃ b u c s, t = b ++ u ∧ Blank b ∧ u = c :: s ∧ Starts c := by
  cases h with
  | @mk b b' b'' t u r k v hb hk hb' hb'' hu =>
      obtain ⟨c, s, hcs, hc⟩ := starts_key hk
      exact ⟨b, t, c, s, rfl, hb, hcs, hc⟩

open Format in
mutual

/-- A derived value is taken off, and stored. -/
theorem derives_complete {t r : Text} {v : Value} (stack : List Container) {b : Text} (hb : Blank b) :
    Derives t v r → Goes readOpen .seek stack (b ++ t) (.store v) stack r
  | .scalar h, p => by
      obtain ⟨p', hp⟩ := readOpening_scalar h (p + b.length)
      obtain ⟨c, u, hcu, hc⟩ := starts_scalar h
      exact ⟨p', readOpen_seek hb ⟨c, u, hcu, hc.not_isBlank⟩ hp⟩
  | .emptyList hb', p => by
      obtain ⟨p', hp⟩ := readOpening_emptyList (p := p + b.length) hb'
      exact ⟨p', readOpen_seek hb ⟨'[', _, rfl, rfl⟩ hp⟩
  | .list hb' hv hvs, p => by
      obtain ⟨p₁, h₁⟩ := readOpening_list (p := p + b.length) hb' (begins_derives hv)
      obtain ⟨p₂, h₂⟩ := derives_complete (.list [] :: stack) (b := []) .nil hv p₁
      obtain ⟨p₃, h₃⟩ := items_complete stack [] _ hvs p₂
      exact ⟨p₃, (readOpen_seek hb ⟨'[', _, rfl, rfl⟩ h₁).trans (h₂.trans h₃)⟩
  | .emptyRecord hb', p => by
      obtain ⟨p', hp⟩ := readOpening_emptyRecord (p := p + b.length) hb'
      exact ⟨p', readOpen_seek hb ⟨'\x7b', _, rfl, rfl⟩ hp⟩
  | .record hf hfs, p => by
      obtain ⟨p₁, u, h₁, hseek⟩ := field_complete hf (p + b.length + 1)
      obtain ⟨p₂, h₂⟩ := hseek (.record [] _ :: stack) p₁
      obtain ⟨p₃, h₃⟩ := fields_complete stack [] _ _ hfs p₂
      have hopen := readOpening_record (starts_field hf) h₁
      rw [extend_nil] at h₃
      exact ⟨p₃, (readOpen_seek hb ⟨'\x7b', _, rfl, rfl⟩ hopen).trans (h₂.trans h₃)⟩

/-- The members behind one that is stored are taken off, and the list closes. -/
theorem items_complete {t r : Text} {vs : List Value} (stack : List Container) (done : List Value) (last : Value) :
    Items t vs r →
      Goes readOpen (.store last) (.list done :: stack) t (.store (.list (done.reverse ++ last :: vs))) stack r
  | .close hb, p => by
      rw [← List.reverse_cons]
      exact ⟨_, readOpen_closer (k := .list done) hb⟩
  | .more hb hb' hv hvs, p => by
      obtain ⟨p₁, h₁⟩ := derives_complete (.list (last :: done) :: stack) hb' hv _
      obtain ⟨p₂, h₂⟩ := items_complete stack (last :: done) _ hvs p₁
      rw [List.reverse_cons, List.append_assoc, List.singleton_append] at h₂
      exact ⟨p₂, (readOpen_comma hb rfl).trans (h₁.trans h₂)⟩

/-- A key is read, and the value behind its colon is taken off. -/
theorem field_complete {t r : Text} {f : Text × Value} :
    Field t f r → ∀ p, ∃ p' u, readKey ⟨p, t⟩ = .ok (f.1, ⟨p', u⟩) ∧
      ∀ stack, Goes readOpen .seek stack u (.store f.2) stack r
  | .mk hb hk hb' hb'' hv, p => by
      obtain ⟨p', hp⟩ := readKey_complete p hb hk hb'
      exact ⟨p', _, hp, fun stack => derives_complete stack hb'' hv⟩

/-- The fields behind one that is stored are taken off, and the record closes. -/
theorem fields_complete {t r : Text} {fs : List (Text × Value)} (stack : List Container)
    (done : List (Value × Value)) (key : Text) (last : Value) :
    Fields t fs r →
      Goes readOpen (.store last) (.record done key :: stack) t (.store (.record (extend done ((key, last) :: fs))))
        stack r
  | .close hb, p => ⟨_, readOpen_closer (k := .record done key) hb⟩
  | .more (b := b) (t := w) (f := f) hb hf hfs, p => by
      obtain ⟨p₁, u, h₁, hseek⟩ := field_complete hf (p + b.length + 1)
      obtain ⟨p₂, h₂⟩ := hseek (.record (Value.setField (.text key) last done) f.1 :: stack) p₁
      obtain ⟨p₃, h₃⟩ := fields_complete stack (Value.setField (.text key) last done) f.1 f.2 hfs p₂
      have hproceed : proceed ⟨p + b.length + 1, w⟩ ((Container.record done key).add last) =
          .ok (.record (Value.setField (.text key) last done) f.1, ⟨p₁, u⟩) := by
        rw [Container.add, proceed, h₁]
        rfl
      exact ⟨p₃, (readOpen_comma hb hproceed).trans (h₂.trans h₃)⟩

end

/-! ## Nothing else is read -/

/-- What the open containers, innermost first, ask of the text behind a value that goes into the first one:
that they all close, and that the outermost one is the given value. -/
def Completes : List Container → Value → Text → Value → Text → Prop
  | [], v, t, w, r => w = v ∧ r = t
  | .list items :: below, v, t, w, r =>
    ∃ vs u, Items t vs u ∧ Completes below (.list (items.reverse ++ v :: vs)) u w r
  | .record fields key :: below, v, t, w, r =>
    ∃ fs u, Fields t fs u ∧ Completes below (.record (extend fields ((key, v) :: fs))) u w r

/-- What a task asks of a text: a value behind blanks, and then what the containers ask. -/
def Asks (stack : List Container) (t : Text) (w : Value) (r : Text) : Task → Prop
  | .seek => ∃ b t' v u, t = b ++ t' ∧ Blank b ∧ Derives t' v u ∧ Completes stack v u w r
  | .store v => Completes stack v t w r

/-- What begins at the front of a text: a whole value, or a container up to its first value. -/
inductive Opened : Text → Opening → Text → Prop where
  | value {t r : Text} {v : Value} : Derives t v r → Opened t (.value v) r
  | list {b r : Text} : Blank b → Opened ("[" ++ (b ++ r)) (.container (.list [])) r
  | record {b b' t r k : Text} : Blank b → Key t k (b' ++ (":" ++ r)) → Blank b' →
      Opened ("\x7b" ++ (b ++ t)) (.container (.record [] k)) r

theorem rest_of_next {c : Cursor} {d : CodePoint} (h : c.next (· = d) = true) :
    c.rest = d :: (c.skip 1).rest := by
  cases hc : c.rest with
  | nil => rw [Cursor.next, hc] at h; cases h
  | cons e u =>
      rw [Cursor.next, hc] at h
      rw [Cursor.rest_skip, hc, show e = d from of_decide_eq_true h]
      rfl

theorem readOpening_sound {c a : Cursor} {o : Opening} (h : readOpening c = .ok (o, a)) : Opened c.rest o a.rest := by
  obtain ⟨b, hb, hblank⟩ := skipBlanks_sound (c.skip 1)
  simp only [readOpening] at h
  split at h
  · rename_i hlist
    rw [rest_of_next hlist, hb]
    split at h
    · rename_i hclose
      cases h
      rw [rest_of_next hclose]
      exact .value (.emptyList hblank)
    · cases h
      exact .list hblank
  · split at h
    · rename_i hrecord
      rw [rest_of_next hrecord]
      split at h
      · rename_i hclose
        cases h
        rw [hb, rest_of_next hclose]
        exact .value (.emptyRecord hblank)
      · rw [readKey_skipBlanks] at h
        obtain ⟨⟨k, after⟩, hk, hpair⟩ := ok_of_map h
        cases hpair
        obtain ⟨b', t, b'', hrest, hblank', hkey, hblank''⟩ := readKey_sound hk
        rw [hrest]
        exact .record hblank' hkey hblank''
    · obtain ⟨⟨v, after⟩, hs, hpair⟩ := ok_of_map h
      cases hpair
      exact .value (.scalar (readScalar_sound hs))

theorem derives_of_opened {t r : Text} {v : Value} (h : Opened t (.value v) r) : Derives t v r := by
  cases h with
  | value h => exact h

theorem Blank.append {b b' : Text} (h : Blank b) (h' : Blank b') : Blank (b ++ b') :=
  List.forall_mem_append.2 ⟨h, h'⟩

/-- A container that has opened, and what it asks of the text from its first value on, are a value and what
the containers around it ask. -/
theorem asks_of_opened {stack : List Container} {k : Container} {t u r : Text} {w : Value}
    (h : Opened t (.container k) u) (hasks : Asks (k :: stack) u w r .seek) :
    ∃ v u', Derives t v u' ∧ Completes stack v u' w r := by
  obtain ⟨b, t', v, u', rfl, hb, hv, hcompletes⟩ := hasks
  cases h with
  | @list b' _ hb' =>
      obtain ⟨vs, u'', hvs, hcompletes⟩ := hcompletes
      rw [← List.append_assoc b' b t']
      exact ⟨_, u'', .list (hb'.append hb) hv hvs, hcompletes⟩
  | record hb' hkey hb'' =>
      obtain ⟨fs, u'', hfs, hcompletes⟩ := hcompletes
      rw [extend_nil] at hcompletes
      exact ⟨_, u'', .record (.mk hb' hkey hb'' hb hv) hfs, hcompletes⟩

/-- Behind a comma the first container goes on. -/
theorem completes_of_comma {stack : List Container} {k k' : Container} {c a : Cursor} {b r : Text} {v w : Value}
    (hb : Blank b) (h : proceed c (k.add v) = .ok (k', a)) (hasks : Asks (k' :: stack) a.rest w r .seek) :
    Completes (k :: stack) v (b ++ ("," ++ c.rest)) w r := by
  obtain ⟨b', t', v', u', hrest, hb', hv', hcompletes⟩ := hasks
  cases k with
  | list items =>
      cases h
      obtain ⟨vs, u'', hvs, hcompletes⟩ := hcompletes
      rw [List.reverse_cons, List.append_assoc, List.singleton_append] at hcompletes
      rw [hrest]
      exact ⟨v' :: vs, u'', .more hb hb' hv' hvs, hcompletes⟩
  | record fields key =>
      rw [Container.add, proceed] at h
      obtain ⟨⟨k, after⟩, hk, hpair⟩ := ok_of_map h
      cases hpair
      obtain ⟨b₁, t, b₂, hrest', hb₁, hkey, hb₂⟩ := readKey_sound hk
      obtain ⟨fs, u'', hfs, hcompletes⟩ := hcompletes
      rw [hrest] at hkey
      rw [hrest']
      exact ⟨(k, v') :: fs, u'', .more hb (.mk hb₁ hkey hb₂ hb' hv') hfs, hcompletes⟩

theorem completes_of_closer {stack : List Container} {k : Container} {b t r : Text} {v w : Value} (hb : Blank b)
    (h : Completes stack (k.add v).close t w r) : Completes (k :: stack) v (b ++ ((k.add v).closer :: t)) w r := by
  cases k with
  | list items =>
      refine ⟨[], t, .close hb, ?_⟩
      rw [Container.add, Container.close, List.reverse_cons] at h
      exact h
  | record fields key => exact ⟨[], t, .close hb, h⟩

/-- Whatever the reader takes off meets what its task asks. -/
theorem readOpen_sound {task : Task} {stack : List Container} {c a : Cursor} {w : Value}
    (h : readOpen task stack c = .ok (w, a)) : Asks stack c.rest w a.rest task := by
  fun_induction readOpen task stack c with
  | case1 => cases h
  | case2 => cases h
  | case3 stack c d u hc v after ho ih =>
      obtain ⟨b, hrest, hb⟩ := skipBlanks_sound c
      exact ⟨b, _, v, _, hrest, hb, derives_of_opened (readOpening_sound ho), ih h⟩
  | case4 stack c d u hc k after ho ih =>
      obtain ⟨b, hrest, hb⟩ := skipBlanks_sound c
      obtain ⟨v, u', hv, hcompletes⟩ := asks_of_opened (readOpening_sound ho) (ih h)
      exact ⟨b, _, v, u', hrest, hb, hv, hcompletes⟩
  | case5 c v =>
      cases h
      exact ⟨rfl, rfl⟩
  | case6 => cases h
  | case7 => cases h
  | case8 c v k below added u k' after hp hc ih =>
      obtain ⟨b, hrest, hb⟩ := skipBlanks_sound c
      have hcompletes := completes_of_comma hb hp (ih h)
      rw [Cursor.rest_skip, hc] at hcompletes
      rw [hrest, hc]
      exact hcompletes
  | case9 c v k below added u hc hcomma ih =>
      obtain ⟨b, hrest, hb⟩ := skipBlanks_sound c
      have hcompletes := completes_of_closer hb (ih h)
      rw [Cursor.rest_skip, hc] at hcompletes
      rw [hrest, hc]
      exact hcompletes
  | case10 => cases h

/-! ## The whole text -/

theorem skipBlanks_isEmpty {p : Nat} {t : Text} : (⟨p, t⟩ : Cursor).skipBlanks.rest.isEmpty = true ↔ Blank t := by
  obtain ⟨hrest, hblank, hstops⟩ := Cursor.takeRun_sound CodePoint.isBlank ⟨p, t⟩
  constructor
  · intro h
    have hnil : (⟨p, t⟩ : Cursor).skipBlanks.rest = [] := List.isEmpty_iff.1 h
    rw [show ((⟨p, t⟩ : Cursor).takeRun CodePoint.isBlank).2.rest = [] from hnil, List.append_nil] at hrest
    rw [show t = _ from hrest]
    exact hblank
  · intro h
    have hskip := skipBlanks_append p h (t := []) nofun
    rw [List.append_nil] at hskip
    rw [hskip]
    rfl

/-- What is trimmed begins with no blank. -/
theorem stops_trim (q : CodePoint → Bool) (t : Text) : (t.trim q).Stops q := by
  have hprefix : t.trim q <+: t.dropWhile q := by
    rw [Text.trim, ← List.reverse_suffix, List.reverse_reverse]
    exact List.dropWhile_suffix q
  intro c hc
  obtain ⟨u, hu⟩ := hprefix
  have hhead : (t.dropWhile q).head? = some c := by
    rw [← hu, List.head?_append, hc]
    rfl
  have hnot := List.head?_dropWhile_not q t
  rw [hhead] at hnot
  exact hnot

theorem Blank.eq_nil_of_stops {b t : Text} (hb : Blank b) (h : (b ++ t).Stops CodePoint.isBlank) : b = [] := by
  cases b with
  | nil => rfl
  | cons c b =>
      have hc := h c rfl
      rw [hb c (List.mem_cons_self ..)] at hc
      cases hc

theorem readAll_eq (t : Text) : readAll t =
    if (t.trim CodePoint.isBlank).isEmpty then .error ⟨.empty, 0⟩
    else match readOpen .seek [] ⟨0, t.trim CodePoint.isBlank⟩ with
      | .error e => .error e
      | .ok (v, c) =>
        if c.skipBlanks.rest.isEmpty then .ok (v, c.skipBlanks)
        else .error ⟨.trailing c.skipBlanks.position, c.skipBlanks.position⟩ := rfl

theorem read_complete {t r : Text} {v : Value} (h : Derives (t.trim CodePoint.isBlank) v r) (hr : Blank r) :
    read t = .ok v := by
  obtain ⟨p, hp⟩ := derives_complete [] (b := []) .nil h 0
  have hopen : readOpen .seek [] ⟨0, t.trim CodePoint.isBlank⟩ = .ok (v, ⟨p, r⟩) :=
    hp.trans (by rw [readOpen])
  have hne : ¬ (t.trim CodePoint.isBlank).isEmpty = true := by
    obtain ⟨c, u, hcu, -⟩ := begins_derives h
    rw [hcu]
    exact Bool.false_ne_true
  rw [read, readAll_eq, if_neg hne, hopen]
  simp only [skipBlanks_isEmpty.2 hr, ↓reduceIte]

theorem read_sound {t : Text} {v : Value} (h : read t = .ok v) :
    ∃ r, Derives (t.trim CodePoint.isBlank) v r ∧ Blank r := by
  rw [read, readAll_eq] at h
  split at h
  · rename_i w c hall
    cases h
    split at hall
    · cases hall
    · split at hall
      · cases hall
      · rename_i c' hopen
        split at hall
        · rename_i hempty
          cases hall
          obtain ⟨b, t', v', u, hsplit, hb, hv, hcompletes⟩ := readOpen_sound hopen
          obtain ⟨rfl, rfl⟩ := hcompletes
          have hsplit : t.trim CodePoint.isBlank = b ++ t' := hsplit
          have hstops := stops_trim CodePoint.isBlank t
          rw [hsplit] at hstops
          have hnil : b = [] := hb.eq_nil_of_stops hstops
          rw [hsplit, hnil, List.nil_append]
          exact ⟨_, hv, skipBlanks_isEmpty.1 hempty⟩
        · cases hall
  · cases h

/-- The reader gives a value just where the grammar derives it from the text without the blanks at its ends,
up to blanks; on all other texts it fails. -/
theorem read_derives (t : Text) :
    (∀ v, read t = .ok v ↔ ∃ r, Derives (t.trim CodePoint.isBlank) v r ∧ Blank r) ∧
      ((∃ e, read t = .error e) ↔ ¬ ∃ v r, Derives (t.trim CodePoint.isBlank) v r ∧ Blank r) := by
  refine ⟨fun v => ⟨read_sound, fun ⟨r, hv, hr⟩ => read_complete hv hr⟩, ?_, fun hnone => ?_⟩
  · rintro ⟨e, he⟩ ⟨v, r, hv, hr⟩
    rw [read_complete hv hr] at he
    cases he
  · cases h : read t with
    | error e => exact ⟨e, rfl⟩
    | ok v =>
        obtain ⟨r, hv, hr⟩ := read_sound h
        exact (hnone ⟨v, r, hv, hr⟩).elim

end Pausable.Wire
