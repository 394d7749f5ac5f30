import Pausable.Proofs.Json.Tokens

/-!
JSON text on one line is read back to the value that was written, if in its texts no second surrogate stands
directly behind a first one (`read_text`).
-/
namespace Pausable.Json

/-- How JSON text on one line writes scalars and names. -/
def format : Format := ⟨scalarText, quote⟩

section

variable {stack : List Container} {p : Nat} {t : Text} {c : Cursor}

theorem stops_isBlank {t : Text} (h : t.Begins) : t.Stops isBlank := by
  obtain ⟨c, u, rfl, hlow, -⟩ := h
  rintro _ ⟨⟩
  simp only [isBlank, Bool.or_eq_false_iff, decide_eq_false_iff_not]
  refine ⟨⟨⟨?_, ?_⟩, ?_⟩, ?_⟩ <;> rintro rfl <;> exact absurd hlow (by decide)

theorem skipBlanks_begins (h : t.Begins) : skipBlanks ⟨p, t⟩ = ⟨p, t⟩ :=
  Cursor.skipRun_stops (stops_isBlank h)

theorem skipBlanks_cons {d : CodePoint} (hd : isBlank d = false) : skipBlanks ⟨p, d :: t⟩ = ⟨p, d :: t⟩ :=
  Cursor.skipRun_stops (by rintro _ ⟨⟩; exact hd)

/-- A name is read up to the value behind its colon. -/
theorem readName_quote (p : Nat) {k r : Text} (hk : k.Unpaired) (hr : r.Begins) :
    ∃ p', readName ⟨p, quote k ++ (":" ++ r)⟩ = .ok (k, ⟨p', r⟩) := by
  obtain ⟨p', hp⟩ := readString_quote hk p (":" ++ r)
  have hnext : (⟨p, quote k ++ (":" ++ r)⟩ : Cursor).next (· = '"') = true := rfl
  have hcolon : skipBlanks ⟨p', ":" ++ r⟩ = ⟨p', ":" ++ r⟩ := skipBlanks_cons rfl
  have hafter : skipBlanks ((⟨p', ":" ++ r⟩ : Cursor).skip 1) = ⟨p' + 1, r⟩ := skipBlanks_begins hr
  refine ⟨p' + 1, ?_⟩
  rw [readName, if_pos hnext, hp]
  simp only [hcolon, hafter]
  rfl

theorem readOpen_seek {o : Opening} (h : readOpening ⟨p, t⟩ = .ok (o, c)) :
    readOpen .seek stack ⟨p, t⟩ = Format.follow readOpen stack c o := by
  rw [readOpen]
  split
  · rename_i e he
    rw [h] at he
    cases he
  · rename_i v a he
    rw [h] at he
    cases he
    rfl
  · rename_i k a he
    rw [h] at he
    cases he
    rfl

theorem readOpen_comma {k k' : Container} {v : Value} (ht : t.Begins)
    (h : proceed ⟨p + 1, t⟩ (k.add v) = .ok (k', c)) :
    readOpen (.store v) (k :: stack) ⟨p, "," ++ t⟩ = readOpen .seek (k' :: stack) c := by
  have hskip : skipBlanks ⟨p, "," ++ t⟩ = ⟨p, "," ++ t⟩ := skipBlanks_cons rfl
  have hnext : skipBlanks ((⟨p, "," ++ t⟩ : Cursor).skip 1) = ⟨p + 1, t⟩ := skipBlanks_begins ht
  have hcloser : (k.add v).closer ≠ ',' := by
    cases k with
    | list => exact show CodePoint.ofChar ']' ≠ ',' by decide
    | record => exact show CodePoint.ofChar '\x7d' ≠ ',' by decide
  conv_lhs => rw [readOpen]
  split
  · rename_i hc
    rw [hskip] at hc
    cases hc
  · rename_i d u hc
    rw [hskip] at hc
    have hd : d = ',' := (List.cons.inj hc).1.symm
    rw [if_neg (hd ▸ hcloser.symm), if_pos hd]
    split
    · rename_i e he
      rw [hskip, hnext, h] at he
      cases he
    · rename_i k'' a he
      rw [hskip, hnext, h] at he
      cases he
      rfl

theorem readOpen_closer {k : Container} {v : Value} :
    readOpen (.store v) (k :: stack) ⟨p, k.closer :: t⟩ =
      readOpen (.store (k.add v).close) stack ⟨p + 1, t⟩ := by
  have hskip : skipBlanks ⟨p, k.closer :: t⟩ = ⟨p, k.closer :: t⟩ :=
    skipBlanks_cons (by cases k <;> rfl)
  have hcloser : k.closer = (k.add v).closer := by cases k <;> rfl
  conv_lhs => rw [readOpen]
  split
  · rename_i hc
    rw [hskip] at hc
    cases hc
  · rename_i d u hc
    rw [hskip] at hc
    cases hc
    rw [if_pos hcloser, hskip]
    rfl

theorem readOpening_brackets : readOpening ⟨p, "[]" ++ t⟩ = .ok (.value (.list []), ⟨p + 2, t⟩) := by
  have hinside : skipBlanks ((⟨p, "[]" ++ t⟩ : Cursor).skip 1) = ⟨p + 1, "]" ++ t⟩ := skipBlanks_cons rfl
  simp only [readOpening, hinside]
  rfl

theorem readOpening_list (ht : t.Begins) :
    readOpening ⟨p, "[" ++ t⟩ = .ok (.container (.list []), ⟨p + 1, t⟩) := by
  have hinside : skipBlanks ((⟨p, "[" ++ t⟩ : Cursor).skip 1) = ⟨p + 1, t⟩ := skipBlanks_begins ht
  obtain ⟨d, u, rfl, -, -, hlist, -⟩ := ht
  have hnext : ¬ (⟨p + 1, d :: u⟩ : Cursor).next (· = ']') = true := Cursor.not_next_of_ne hlist
  simp only [readOpening, hinside, if_neg hnext]
  rfl

theorem readOpening_braces :
    readOpening ⟨p, "\x7b\x7d" ++ t⟩ = .ok (.value (.record []), ⟨p + 2, t⟩) := by
  have hinside : skipBlanks ((⟨p, "\x7b\x7d" ++ t⟩ : Cursor).skip 1) = ⟨p + 1, "\x7d" ++ t⟩ :=
    skipBlanks_cons rfl
  simp only [readOpening, hinside]
  rfl

theorem readOpening_record (p : Nat) {k r : Text} (hk : k.Unpaired) (hr : r.Begins) :
    ∃ p', readOpening ⟨p, "\x7b" ++ (quote k ++ (":" ++ r))⟩ = .ok (.container (.record [] k), ⟨p', r⟩) := by
  have hinside : skipBlanks ((⟨p, "\x7b" ++ (quote k ++ (":" ++ r))⟩ : Cursor).skip 1) =
      ⟨p + 1, quote k ++ (":" ++ r)⟩ := skipBlanks_begins ⟨'"', _, rfl, by decide⟩
  obtain ⟨p', hp⟩ := readName_quote (p + 1) hk hr
  have hnext : ¬ (⟨p + 1, quote k ++ (":" ++ r)⟩ : Cursor).next (· = '\x7d') = true := by
    exact nofun
  refine ⟨p', ?_⟩
  simp only [readOpening, hinside, if_neg hnext, hp]
  rfl

theorem readOpening_scalarText (p : Nat) {v : Value} {r : Text} (hs : v.IsScalar)
    (hv : v.Plain Number.Short Text.Unpaired) (hr : r.Ends) :
    ∃ p', readOpening ⟨p, scalarText v ++ r⟩ = .ok (.value v, ⟨p', r⟩) := by
  obtain ⟨p', hp⟩ := readScalar_scalarText p hs hv hr
  obtain ⟨c, u, hcu, -, hlist, hrecord⟩ := head_scalarText r hs hv
  rw [hcu] at hp ⊢
  have hlist : ¬ (⟨p, c :: u⟩ : Cursor).next (· = '[') = true := Cursor.not_next_of_ne hlist
  have hrecord : ¬ (⟨p, c :: u⟩ : Cursor).next (· = '\x7b') = true := Cursor.not_next_of_ne hrecord
  refine ⟨p', ?_⟩
  rw [readOpening, if_neg hlist, if_neg hrecord, hp]
  rfl

end

/-- The reader takes off every token of the format. -/
theorem reads_format : Format.Reads readOpen format Number.Short Text.Unpaired where
  begins := begins_scalarText
  scalar {v r} stack hs hv hr p := by
    obtain ⟨p', hp⟩ := readOpening_scalarText p hs hv hr
    exact ⟨p', readOpen_seek hp⟩
  emptyList stack r p := ⟨p + 2, readOpen_seek readOpening_brackets⟩
  openList stack hr p := ⟨p + 1, readOpen_seek (readOpening_list hr)⟩
  nextItem v vs stack hr p := ⟨p + 1, readOpen_comma hr rfl⟩
  closeList v vs stack r p := ⟨p + 1, readOpen_closer (k := .list vs)⟩
  emptyRecord stack r p := ⟨p + 2, readOpen_seek readOpening_braces⟩
  openRecord {k r} stack hk hr p := by
    obtain ⟨p', hp⟩ := readOpening_record p hk hr
    exact ⟨p', readOpen_seek hp⟩
  nextField {k r} v fs key stack hk hr p := by
    obtain ⟨p', hp⟩ := readName_quote (p + 1) hk hr
    refine ⟨p', readOpen_comma (k := .record fs key) ⟨'"', _, rfl, by decide⟩ ?_⟩
    simp only [proceed, Container.add, format, hp]
    rfl
  closeRecord v fs key stack r p := ⟨p + 1, readOpen_closer (k := .record fs key)⟩

theorem enclose_compact (depth : Nat) (opening closing : Text) (ts : List Text) :
    Layout.compact.enclose depth opening closing ts = opening ++ Text.join "," ts ++ closing := by
  have hbefore : (fun t : Text => Layout.compact.before depth ++ t) = id := rfl
  unfold Layout.enclose
  split
  · rename_i h
    rw [List.isEmpty_iff.1 h, Text.join, List.append_nil]
  · rw [hbefore, List.map_id]
    simp only [Layout.compact, List.append_nil]

section

variable {q : Text → Prop}

mutual

/-- A plain value is written as the format has it, at every depth. -/
theorem writeAt_plain (depth : Nat) : (v : Value) → v.Plain Number.Short q →
    writeAt .compact depth v = .ok (format.text v)
  | .null, _ => rfl
  | .bool _, _ => rfl
  | .text _, _ => rfl
  | .number n, hv => by
      obtain ⟨t, ht, -⟩ := writeNumber_short hv
      have htext : format.text (.number n) = (writeNumber n).toOption.getD [] := rfl
      rw [writeAt, htext, ht]
      rfl
  | .list vs, hv => by
      rw [writeAt, writeItems_plain (depth + 1) vs hv, Except.map, enclose_compact]
      rfl
  | .record fs, hv => by
      rw [writeAt, writeFields_plain (depth + 1) fs hv.2, Except.map, enclose_compact]
      rfl
  | .tuple _, hv => hv.elim
  | .alien _, hv => hv.elim

theorem writeItems_plain (depth : Nat) : (vs : List Value) → Value.PlainItems Number.Short q vs →
    writeItems .compact depth vs = .ok (format.items vs)
  | [], _ => rfl
  | v :: vs, hvs => by
      rw [writeItems, writeAt_plain depth v hvs.1, writeItems_plain depth vs hvs.2]
      rfl

theorem writeFields_plain (depth : Nat) : (fs : List (Value × Value)) →
    Value.PlainFields Number.Short q fs → writeFields .compact depth fs = .ok (format.fields fs)
  | [], _ => rfl
  | (k, v) :: fs, hfs => by
      obtain ⟨⟨t, rfl, -⟩, hv, hfs⟩ := hfs
      rw [writeFields, nameOf, writeAt_plain depth v hv, writeFields_plain depth fs hfs]
      rfl

end

end

theorem write_plain {q : Text → Prop} {v : Value} (h : v.Plain Number.Short q) :
    write .compact v = .ok (format.text v) := writeAt_plain 0 v h

/-- The compact text of a plain value without pairs of surrogates is read back to the value. -/
theorem read_text {v : Value} (h : v.Plain Number.Short Text.Unpaired) : read (format.text v) = .ok v := by
  have hbegins := reads_format.begins_text h []
  obtain ⟨p', hp⟩ := reads_format.value [] [] (.inl rfl) v h 0
  rw [List.append_nil] at hbegins hp
  have hmark : ¬ (format.text v).head? = some '\uFEFF' := by
    obtain ⟨c, u, hcu, -, hhigh, -⟩ := hbegins
    rw [hcu]
    intro h
    rw [show c = CodePoint.ofChar '\uFEFF' from Option.some.inj h] at hhigh
    exact absurd hhigh (by decide)
  have hskip : skipBlanks (Cursor.start (format.text v)) = ⟨0, format.text v⟩ := skipBlanks_begins hbegins
  have hstore : readOpen .seek [] ⟨0, format.text v⟩ = .ok (v, ⟨p', []⟩) := by
    rw [hp, readOpen]
  rw [read, readAll, if_neg hmark, hskip, hstore]
  rfl

end Pausable.Json
