import Pausable.Proofs.Wire.Printable

/-!
What comes back of any value that can be written, plain or not (`read_written`): tuples come back as lists,
texts as what the reader joins of them, and of the fields of a record that have the same key by then the last
one is kept. A text that is not legible makes the whole text refused.
-/
namespace Pausable.Wire

mutual

/-- What a written value comes back as; none if its text is refused. -/
def reread : Value → Option Value
  | .null => some .null
  | .bool b => some (.bool b)
  | .number n => some (.number n)
  | .text t => (joined t).map .text
  | .list vs => (rereadItems vs).map .list
  | .tuple vs => (rereadItems vs).map .list
  | .record fs => (rereadFields fs).map fun gs => .record (settled gs)
  | .alien _ => none

def rereadItems : List Value → Option (List Value)
  | [] => some []
  | v :: vs => (reread v).bind fun w => (rereadItems vs).map (w :: ·)

def rereadFields : List (Value × Value) → Option (List (Text × Value))
  | [] => some []
  | (.text k, v) :: fs =>
    (joined k).bind fun s => (reread v).bind fun w => (rereadFields fs).map ((s, w) :: ·)
  | _ :: _ => none

end

/-! ## What the reader finds -/

/-- The reader takes a value off and stores it, or it stops with an error if there is none. -/
def Finds (task : Task) (stack : List Container) (t : Text) (below : List Container) (r : Text) : Option Value → Prop
  | some v => Format.Goes readOpen task stack t (.store v) below r
  | none => ∀ p, ∃ e, readOpen task stack ⟨p, t⟩ = .error e

section

variable {task task' : Task} {stack stack' below : List Container} {t t' u r : Text} {o : Option Value}

theorem Finds.of_goes (h : Format.Goes readOpen task stack t task' stack' t') (h' : Finds task' stack' t' below r o) :
    Finds task stack t below r o := by
  cases o with
  | some v => exact h.trans h'
  | none =>
      intro p
      obtain ⟨p', hp⟩ := h p
      rw [hp]
      exact h' p'

/-- What is behind the first value decides only where there is one. -/
theorem Finds.bind {f : Value → Option Value} (h : Finds task stack t stack' u o)
    (h' : ∀ v, Finds (.store v) stack' u below r (f v)) : Finds task stack t below r (o.bind f) := by
  cases o with
  | some v => exact .of_goes h (h' v)
  | none => exact h

theorem finds_refused (ht : ∃ c u, t = c :: u ∧ c.isBlank = false) (h : ∀ p, ∃ e, readOpening ⟨p, t⟩ = .error e) :
    Finds .seek stack t below r none := by
  intro p
  obtain ⟨e, he⟩ := h p
  have hseek : readOpen .seek stack ⟨p, t⟩ = _ := readOpen_seek_eq (b := []) .nil ht
  exact ⟨e, by rw [hseek, List.length_nil, Nat.add_zero, he]⟩

end

/-! ## Texts and keys -/

theorem finds_quote (stack : List Container) (t : Text) (r : Text) :
    Finds .seek stack (quote t ++ r) stack r ((joined t).map .text) := by
  rw [quote_append]
  cases hs : joined t with
  | some s => exact derives_complete stack (b := []) .nil (.scalar (.text (quoted_joined hs r)))
  | none =>
      refine finds_refused ⟨'"', _, rfl, rfl⟩ fun p => ?_
      obtain ⟨e, he⟩ := readQuoted_illegible hs ("\"" ++ r) (p + 1) []
      have hscalar : readOpening ⟨p, CodePoint.ofChar '"' :: (t.flatMap escaped ++ ("\"" ++ r))⟩ =
          (readScalar ⟨p, CodePoint.ofChar '"' :: (t.flatMap escaped ++ ("\"" ++ r))⟩).map
            fun r => (.value r.1, r.2) := rfl
      exact ⟨e, by rw [hscalar, readScalar_quote, he]; rfl⟩

/-- A key that is not legible is refused. -/
theorem readKey_illegible {k : Text} (h : joined k = none) (p : Nat) (r : Text) :
    ∃ e, readKey ⟨p, keyText k ++ (":" ++ r)⟩ = .error e := by
  have hbare : ¬ isBareKey k = true := fun hbare => by
    rw [joined_of_isBareKey hbare] at h
    cases h
  have htext : keyText k = quote k := if_neg hbare
  rw [htext, quote_append]
  obtain ⟨e, he⟩ := readQuoted_illegible h ("\"" ++ (":" ++ r)) (p + 1) []
  have hskip := skipBlanks_append p .nil (b := [])
    (t := CodePoint.ofChar '"' :: (k.flatMap escaped ++ ("\"" ++ (":" ++ r)))) (by rintro _ ⟨⟩; rfl)
  rw [List.nil_append, List.length_nil, Nat.add_zero] at hskip
  have htext : readText ⟨p, CodePoint.ofChar '"' :: (k.flatMap escaped ++ ("\"" ++ (":" ++ r)))⟩ = .error e := he
  exact ⟨e, by simp only [readKey, hskip, ↓reduceIte, htext]⟩

theorem starts_keyText (k r : Text) : ∃ c u, keyText k ++ r = c :: u ∧ Starts c := by
  by_cases hbare : isBareKey k = true
  · obtain ⟨hne, hname⟩ := isBareKey_cases hbare
    obtain ⟨c, u, rfl⟩ := List.exists_cons_of_ne_nil hne
    have htext : keyText (c :: u) = c :: u := if_pos hbare
    have hword := (hname c (List.mem_cons_self ..)).elim isWordChar_of_isKeyStart isWordChar_of_isAsciiDigit
    exact ⟨c, u ++ r, by rw [htext, List.cons_append], .inr (.inr (.inr hword))⟩
  · have htext : keyText k = quote k := if_neg hbare
    exact ⟨'"', _, by rw [htext, quote_append], .inl rfl⟩

/-- The first key of a record is taken off, or refused. -/
theorem finds_openRecord {k : Text} (stack below : List Container) {t r : Text} {f : Text → Option Value}
    (h : ∀ s, joined k = some s → Finds .seek (.record [] s :: stack) t below r (f s)) :
    Finds .seek stack ("\x7b" ++ (keyText k ++ (":" ++ t))) below r ((joined k).bind f) := by
  cases hs : joined k with
  | some s => exact .of_goes (goes_openRecord stack t hs) (h s hs)
  | none =>
      refine finds_refused ⟨'\x7b', _, rfl, rfl⟩ fun p => ?_
      obtain ⟨e, he⟩ := readKey_illegible hs (p + 1) t
      obtain ⟨c, u, hcu, hc⟩ := starts_keyText k (":" ++ t)
      have hopen : readOpening ⟨p, "\x7b" ++ (keyText k ++ (":" ++ t))⟩ = _ :=
        readOpening_record_eq ⟨[], _, c, u, rfl, .nil, hcu, hc⟩
      exact ⟨e, by rw [hopen, he]; rfl⟩

/-- Each further key as well. -/
theorem finds_nextField {k : Text} (last : Value) (done : List (Value × Value)) (key : Text)
    (stack below : List Container) {t r : Text} {f : Text → Option Value}
    (h : ∀ s, joined k = some s →
      Finds .seek (.record (Value.setField (.text key) last done) s :: stack) t below r (f s)) :
    Finds (.store last) (.record done key :: stack) ("," ++ (keyText k ++ (":" ++ t))) below r
      ((joined k).bind f) := by
  cases hs : joined k with
  | some s => exact .of_goes (goes_nextField stack t last done key hs) (h s hs)
  | none =>
      intro p
      obtain ⟨e, he⟩ := readKey_illegible hs (p + 1) t
      have hcomma : readOpen (.store last) (.record done key :: stack) ⟨p, "," ++ (keyText k ++ (":" ++ t))⟩ = _ :=
        readOpen_comma_eq (b := []) .nil
      have hproceed : proceed ⟨p + 1, keyText k ++ (":" ++ t)⟩ ((Container.record done key).add last) = .error e := by
        rw [Container.add, proceed, he]
        rfl
      exact ⟨e, by rw [hcomma, List.length_nil, Nat.add_zero, hproceed]⟩

/-! ## Values -/

theorem scalarText_number {n : Number} {t : Text} (h : writeNumber n = .ok t) : scalarText (.number n) = t := by
  rw [scalarText, h]
  rfl

theorem finds_scalar {v : Value} (stack : List Container) {r : Text} (hr : r.Ends) (hs : v.IsScalar)
    (hv : v.Plain Number.Short Unjoined) : Finds .seek stack (scalarText v ++ r) stack r (some v) :=
  reads_format.scalar stack hs hv hr

theorem ends_members (ts : List Text) {closer : Text} (r : Text) (hc : closer = "]" ∨ closer = "\x7d") :
    Text.Ends (ts.flatMap (("," : Text) ++ ·) ++ (closer ++ r)) := by
  cases ts with
  | nil =>
      rcases hc with rfl | rfl
      · exact .inr ⟨']', r, rfl, .inr (.inl rfl)⟩
      · exact .inr ⟨'\x7d', r, rfl, .inr (.inr rfl)⟩
  | cons t ts => exact .inr ⟨',', _, rfl, .inl rfl⟩

theorem begins_nested {v : Value} {t : Text} (h : nested v = .ok t) (r : Text) : (t ++ r).Begins := by
  cases v with
  | null => cases h; exact begins_scalarText (v := .null) r trivial trivial
  | bool b => cases h; exact begins_scalarText (v := .bool b) r trivial trivial
  | number n =>
      rw [← scalarText_number h]
      exact begins_scalarText (v := .number n) r trivial (short_of_writeNumber h)
  | text u => cases h; exact ⟨'"', _, rfl, by decide⟩
  | list vs | tuple vs =>
      obtain ⟨ts, -, rfl⟩ := ok_of_map h
      exact ⟨'[', _, rfl, by decide⟩
  | record fs =>
      rw [nested] at h
      split at h
      · cases h
      · obtain ⟨ts, -, rfl⟩ := ok_of_map h
        exact ⟨'\x7b', _, rfl, by decide⟩
  | alien name => cases h

theorem nestedFields_text {k v : Value} {fs : List (Value × Value)} {ts : List Text}
    (h : nestedFields ((k, v) :: fs) = .ok ts) : ∃ l u us, k = .text l ∧ nested v = .ok u ∧
      nestedFields fs = .ok us ∧ ts = (keyText l ++ ":" ++ u) :: us := by
  obtain ⟨key, u, us, hk, hv, hfs, rfl⟩ := nestedFields_cons h
  cases k with
  | text l => cases hk; exact ⟨l, u, us, rfl, hv, hfs, rfl⟩
  | null | bool | number | list | tuple | record | alien => cases hk

mutual

/-- Where a value is written, the reader finds what it comes back as. -/
theorem finds_value (stack : List Container) {r : Text} (hr : r.Ends) :
    (v : Value) → {t : Text} → nested v = .ok t → Finds .seek stack (t ++ r) stack r (reread v)
  | .null, _, h => by cases h; exact finds_scalar (v := .null) stack hr trivial trivial
  | .bool b, _, h => by cases h; exact finds_scalar (v := .bool b) stack hr trivial trivial
  | .number n, _, h => by
      rw [← scalarText_number h]
      exact finds_scalar (v := .number n) stack hr trivial (short_of_writeNumber h)
  | .text u, _, h => by cases h; exact finds_quote stack u r
  | .list vs, _, h => finds_list stack r vs h
  | .tuple vs, _, h => finds_list stack r vs h
  | .record [], _, h => by
      cases h
      exact reads_format.emptyRecord stack r
  | .record ((k, v) :: fs), t, h => by
      rw [nested] at h
      split at h
      · cases h
      obtain ⟨ts, hts, rfl⟩ := ok_of_map h
      obtain ⟨l, u, us, rfl, hu, hus, rfl⟩ := nestedFields_text hts
      have hfirst (s : Text) := (finds_value (.record [] s :: stack) (ends_members us r (.inr rfl)) v hu).bind
        fun w => finds_fields stack r [] s w fs hus
      have hall := finds_openRecord (k := l) stack stack fun s _ => hfirst s
      simp only [extend_nil] at hall
      simp only [reread, rereadFields, Option.map_bind, Function.comp_def, Option.map_map, Text.join_cons, List.append_assoc]
      exact hall
  | .alien _, _, h => by cases h

/-- A list, or a tuple in its place. -/
theorem finds_list (stack : List Container) (r : Text) : (vs : List Value) → {t : Text} →
    ((nestedItems vs).map fun ts => "[" ++ Text.join "," ts ++ "]") = .ok t →
      Finds .seek stack (t ++ r) stack r ((rereadItems vs).map .list)
  | [], _, h => by
      cases h
      exact reads_format.emptyList stack r
  | v :: vs, _, h => by
      obtain ⟨ts, hts, rfl⟩ := ok_of_map h
      obtain ⟨u, us, hu, hus, rfl⟩ := nestedItems_cons hts
      have hfirst := (finds_value (.list [] :: stack) (ends_members us r (.inl rfl)) v hu).bind
        fun w => finds_items stack r [] w vs hus
      have hall := Finds.of_goes (reads_format.openList stack (begins_nested hu _)) hfirst
      simp only [rereadItems, Option.map_bind, Function.comp_def, Option.map_map, Text.join_cons, List.append_assoc]
      exact hall

/-- The members behind one that is stored. -/
theorem finds_items (stack : List Container) (r : Text) (done : List Value) (last : Value) :
    (vs : List Value) → {ts : List Text} → nestedItems vs = .ok ts →
      Finds (.store last) (.list done :: stack) (ts.flatMap (("," : Text) ++ ·) ++ ("]" ++ r)) stack r
        ((rereadItems vs).map fun ws => .list (done.reverse ++ last :: ws))
  | [], _, h => by
      cases h
      have hclose := reads_format.closeList last done stack r
      rw [List.reverse_cons] at hclose
      exact hclose
  | v :: vs, _, h => by
      obtain ⟨u, us, hu, hus, rfl⟩ := nestedItems_cons h
      have hfirst := (finds_value (.list (last :: done) :: stack) (ends_members us r (.inl rfl)) v hu).bind
        fun w => finds_items stack r (last :: done) w vs hus
      have hall := Finds.of_goes (reads_format.nextItem last done stack (begins_nested hu _)) hfirst
      simp only [List.reverse_cons, List.append_assoc, List.singleton_append] at hall
      simp only [rereadItems, Option.map_bind, Function.comp_def, Option.map_map, List.flatMap_cons, List.append_assoc]
      exact hall

/-- The fields behind one that is stored. -/
theorem finds_fields (stack : List Container) (r : Text) (done : List (Value × Value)) (key : Text) (last : Value) :
    (fs : List (Value × Value)) → {ts : List Text} → nestedFields fs = .ok ts →
      Finds (.store last) (.record done key :: stack) (ts.flatMap (("," : Text) ++ ·) ++ ("\x7d" ++ r)) stack r
        ((rereadFields fs).map fun gs => .record (extend done ((key, last) :: gs)))
  | [], _, h => by
      cases h
      exact reads_format.closeRecord last done key stack r
  | (k, v) :: fs, _, h => by
      obtain ⟨l, u, us, rfl, hu, hus, rfl⟩ := nestedFields_text h
      have hfirst (s : Text) :=
        (finds_value (.record (Value.setField (.text key) last done) s :: stack) (ends_members us r (.inr rfl)) v hu).bind
          fun w => finds_fields stack r (Value.setField (.text key) last done) s w fs hus
      have hall := finds_nextField (k := l) last done key stack stack fun s _ => hfirst s
      simp only [rereadFields, Option.map_bind, Function.comp_def, Option.map_map, List.flatMap_cons, List.append_assoc]
      exact hall

end

/-! ## The whole text -/

theorem trim_eq {p : CodePoint → Bool} {t : Text} (hfirst : t.Stops p) (hlast : Text.Stops p t.reverse) :
    t.trim p = t := by
  have hdrop {u : Text} (hu : u.Stops p) : u.dropWhile p = u := by
    cases u with
    | nil => rfl
    | cons c u => exact List.dropWhile_cons_of_neg (by rw [hu c rfl]; exact nofun)
  rw [Text.trim, hdrop hfirst, hdrop hlast, List.reverse_reverse]

theorem stops_reverse_append {q : CodePoint → Bool} {c : CodePoint} (t : Text) (hc : q c = false) :
    Text.Stops q (t ++ [c]).reverse := by
  rw [List.reverse_append]
  rintro _ ⟨⟩
  exact hc

theorem stops_reverse_scalarText {v : Value} (hs : v.IsScalar) (hv : v.Plain Number.Short Unjoined) :
    Text.Stops CodePoint.isBlank (scalarText v).reverse := by
  rcases scalarText_cases hs hv with hword | ⟨t, -, rfl⟩ | ⟨w, n, hw, -, -, ht⟩
  · generalize scalarText v = word at hword
    simp only [constants, List.mem_cons, Prod.mk.injEq, List.not_mem_nil, or_false] at hword
    rcases hword with ⟨rfl, -⟩ | ⟨rfl, -⟩ | ⟨rfl, -⟩ | ⟨rfl, -⟩ | ⟨rfl, -⟩ | ⟨rfl, -⟩ <;>
      (rintro _ ⟨⟩; rfl)
  · exact stops_reverse_append (c := '"') _ rfl
  · intro c hc
    rw [ht] at hc
    have := hw.mem_spell (List.mem_reverse.1 (List.mem_of_head? hc))
    exact isBlank_eq_false (by omega) (by omega)

theorem stops_reverse_nested {v : Value} {t : Text} (h : nested v = .ok t) :
    Text.Stops CodePoint.isBlank t.reverse := by
  cases v with
  | null => cases h; exact stops_reverse_scalarText (v := .null) trivial trivial
  | bool b => cases h; exact stops_reverse_scalarText (v := .bool b) trivial trivial
  | number n =>
      rw [← scalarText_number h]
      exact stops_reverse_scalarText (v := .number n) trivial (short_of_writeNumber h)
  | text u => cases h; exact stops_reverse_append (c := '"') _ rfl
  | list vs | tuple vs =>
      obtain ⟨ts, -, rfl⟩ := ok_of_map h
      exact stops_reverse_append (c := ']') _ rfl
  | record fs =>
      rw [nested] at h
      split at h
      · cases h
      · obtain ⟨ts, -, rfl⟩ := ok_of_map h
        exact stops_reverse_append (c := '\x7d') _ rfl
  | alien name => cases h

theorem ends_write {v : Value} {t : Text} (h : write v = .ok t) :
    t ≠ [] ∧ t.Stops CodePoint.isBlank ∧ Text.Stops CodePoint.isBlank t.reverse := by
  rw [write_eq_nested] at h
  have hbegins := begins_nested h []
  rw [List.append_nil] at hbegins
  refine ⟨?_, stops_isBlank hbegins, stops_reverse_nested h⟩
  rintro rfl
  obtain ⟨c, u, hnil, -⟩ := hbegins
  cases hnil

/-- The reader takes nothing off at the ends of a written text. -/
theorem trim_write {v : Value} {t : Text} (h : write v = .ok t) : t.trim CodePoint.isBlank = t :=
  trim_eq (ends_write h).2.1 (ends_write h).2.2

/-- The text of a value is read as what the value comes back as. -/
theorem read_written {v : Value} {t : Text} (h : write v = .ok t) : (read t).toOption = reread v := by
  have hfinds := finds_value [] (.inl rfl) v ((write_eq_nested v).symm.trans h) (r := [])
  rw [List.append_nil] at hfinds
  have hne : ¬ t.isEmpty = true := fun hempty => (ends_write h).1 (List.isEmpty_iff.1 hempty)
  rw [read, readAll_eq, trim_write h, if_neg hne]
  cases hw : reread v with
  | some w =>
      rw [hw] at hfinds
      obtain ⟨p, hp⟩ := hfinds 0
      rw [hp, readOpen]
      rfl
  | none =>
      rw [hw] at hfinds
      obtain ⟨e, he⟩ := hfinds 0
      rw [he]
      rfl

end Pausable.Wire
