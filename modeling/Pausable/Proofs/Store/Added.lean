import Mathlib.Data.List.Nodup
import Pausable.Proofs.Wire.Reread
import Pausable.Proofs.Wire.Spaces
import Pausable.Store.Snapshots

/-!
What can come of an addition (`addRecord_adds`). The object is kept before the index is asked, so where the
index takes no row a new object stays behind; nothing else is left by an addition that fails (`add_failed`).
The text of an object is printable ASCII, so that only the label can be what an encoding refuses
(`ascii_of_write`).
-/
namespace Pausable

namespace Store

/-! ## Objects -/

theorem object?_removeObject (s : Store) (h k : Handle) :
    (s.removeObject h).object? k = if k = h then none else s.object? k := by
  rw [object?, object?, removeObject, List.find?_filter]
  split
  · rename_i hk
    rw [List.find?_eq_none.2, Option.map_none]
    intro o _
    simp [hk]
  · rename_i hk
    congr 2
    funext o
    by_cases ho : o.1 = k
    · simp [ho, hk]
    · simp [ho]

theorem object?_writeObject (s : Store) (h k : Handle) (bytes : Bytes) :
    (s.writeObject h bytes).object? k = if k = h then some bytes else s.object? k := by
  rw [object?, writeObject, List.find?_cons]
  by_cases hk : k = h
  · simp [hk]
  · have hne : ¬ h = k := Ne.symm hk
    simp only [hne, decide_false, if_neg hk]
    exact (object?_removeObject s h k).trans (if_neg hk)

theorem nodup_removeObject {s : Store} (hs : (s.objects.map (·.1)).Nodup) (h : Handle) :
    ((s.removeObject h).objects.map (·.1)).Nodup := hs.sublist (List.filter_sublist.map _)

theorem nodup_writeObject {s : Store} (hs : (s.objects.map (·.1)).Nodup) (h : Handle) (bytes : Bytes) :
    ((s.writeObject h bytes).objects.map (·.1)).Nodup := by
  refine List.nodup_cons.2 ⟨fun hmem => ?_, nodup_removeObject hs h⟩
  obtain ⟨o, ho, hoh⟩ := List.mem_map.1 hmem
  have hne := (List.mem_filter.1 ho).2
  simp [hoh] at hne

theorem object?_of_mem {s : Store} (hs : (s.objects.map (·.1)).Nodup) {o : Handle × Bytes} (ho : o ∈ s.objects) :
    s.object? o.1 = some o.2 := by
  have hsome : (s.objects.find? fun p => p.1 = o.1).isSome = true := by
    rw [List.find?_isSome]
    exact ⟨o, ho, decide_eq_true rfl⟩
  obtain ⟨p, hp⟩ := Option.isSome_iff_exists.1 hsome
  have heq : p = o := List.inj_on_of_nodup_map hs (List.mem_of_find?_eq_some hp) ho (by simpa using List.find?_some hp)
  rw [object?, hp, heq, Option.map_some]

theorem exists?_iff (s : Store) (h : Handle) : s.exists? h = true ↔ h ∈ s.objects.map (·.1) := by
  rw [exists?, object?, Option.isSome_map, List.find?_isSome]
  simp

/-! ## Adding -/

theorem exists?_of_object {s : Store} {h : Handle} {bytes : Bytes} (ho : s.object? h = some bytes) :
    s.exists? h = true := by
  rw [exists?, ho]
  rfl

theorem objectText_of_write {v : Value} {t : Text} {bytes : Bytes} (h : Wire.write v = .ok t)
    (hbytes : t.toAscii = .ok bytes) : objectText bytes = .ok t := by
  have hprintable := Wire.printable_write h
  rw [hprintable.toAscii] at hbytes
  cases hbytes
  simp only [objectText, hprintable.decodeAscii, hprintable.unifyLineEnds]

theorem keepObject_ok {s s' : Store} {h : Handle} {t : Text} {bytes : Bytes} {known : Bool}
    (hk : s.keepObject h t bytes = .ok (known, s')) :
    (s.object? h = none ∧ s' = s.writeObject h bytes) ∨
      ∃ old, s.object? h = some old ∧ objectText old = .ok t ∧ s' = s := by
  unfold keepObject at hk
  split at hk
  · rename_i hnone
    cases hk
    exact .inl ⟨hnone, rfl⟩
  · rename_i old hold
    split at hk
    · cases hk
    · rename_i u hu
      split at hk
      · rename_i hut
        cases hk
        exact .inr ⟨old, hold, hut ▸ hu, rfl⟩
      · cases hk

theorem keepObject_error {s : Store} {h : Handle} {t : Text} {bytes : Bytes} {e : StoreError}
    (hk : s.keepObject h t bytes = .error e) : s.exists? h = true := by
  unfold keepObject at hk
  split at hk
  · cases hk
  · rename_i old hold
    rw [exists?, hold]
    rfl

/-- The index takes no row: it cannot keep the tags or the label, or it is closed. -/
inductive Unindexed (s : Store) (label : Option Text) (tags : Value) : StoreError → Prop where
  | tags {e : StoreError} : recallTags tags = .error e → Unindexed s label tags e
  | closed : s.isOpen = false → Unindexed s label tags .closed
  | label {e : StoreError} : checkLabel label = .error e → Unindexed s label tags e

/-- What comes of an addition of a record: it is not written, its object is not kept, the index takes no row,
or all is done. -/
inductive Adds (hash : Bytes → Handle) (clock : Nat) (s : Store) (fs : List (Value × Value)) (label : Option Text)
    (tags : Value) : Added → Prop where
  | unwritten {e : Wire.WriteError} : Wire.write (.record fs) = .error e →
      Adds hash clock s fs label tags ⟨.error (.write e), s, clock, none⟩
  | unkept {t : Text} {bytes : Bytes} {e : StoreError} : Wire.write (.record fs) = .ok t → t.toAscii = .ok bytes →
      s.keepObject (hash bytes) t bytes = .error e → Adds hash clock s fs label tags ⟨.error e, s, clock, none⟩
  | unindexed {t : Text} {bytes : Bytes} {known : Bool} {s' : Store} {e : StoreError} :
      Wire.write (.record fs) = .ok t → t.toAscii = .ok bytes →
      s.keepObject (hash bytes) t bytes = .ok (known, s') → Unindexed s label tags e →
      Adds hash clock s fs label tags ⟨.error e, s', clock + 1, if known then some (hash bytes) else none⟩
  | indexed {t : Text} {bytes : Bytes} {known : Bool} {s' : Store} {w : Value} :
      Wire.write (.record fs) = .ok t → t.toAscii = .ok bytes →
      s.keepObject (hash bytes) t bytes = .ok (known, s') → recallTags tags = .ok w → s.isOpen = true →
      checkLabel label = .ok () →
      Adds hash clock s fs label tags
        ⟨.ok (hash bytes), s'.writeRow ⟨hash bytes, label, (measures fs).1, (measures fs).2, t.length, clock + 1, w⟩,
          clock + 1, if known then some (hash bytes) else none⟩

theorem addRecord_adds (hash : Bytes → Handle) (clock : Nat) (s : Store) (fs : List (Value × Value))
    (label : Option Text) (tags : Value) :
    Adds hash clock s fs label tags (addRecord hash clock s fs label tags) := by
  cases hwrite : Wire.write (.record fs) with
  | error e =>
      simp only [addRecord, hwrite]
      exact .unwritten hwrite
  | ok t =>
      have hbytes := (Wire.printable_write hwrite).toAscii
      simp only [addRecord, hwrite, hbytes]
      cases hkeep : s.keepObject (hash _) t _ with
      | error e => exact .unkept hwrite hbytes hkeep
      | ok kept =>
          obtain ⟨known, s'⟩ := kept
          have hopen : s'.isOpen = s.isOpen := by
            rcases keepObject_ok hkeep with ⟨-, rfl⟩ | ⟨-, -, -, rfl⟩ <;> rfl
          cases htags : recallTags tags with
          | error e => exact .unindexed hwrite hbytes hkeep (.tags htags)
          | ok w =>
              cases hs : s.isOpen with
              | false =>
                  simp only [hopen, hs]
                  exact .unindexed hwrite hbytes hkeep (.closed hs)
              | true =>
                  simp only [hopen, hs]
                  cases hlabel : checkLabel label with
                  | error e => exact .unindexed hwrite hbytes hkeep (.label hlabel)
                  | ok _ => exact .indexed hwrite hbytes hkeep htags hs hlabel

/-! ## What can be encoded -/

theorem keepObject_ne_encode {s : Store} {h : Handle} {t : Text} {bytes : Bytes} {e : EncodeError} :
    s.keepObject h t bytes ≠ .error (.encode e) := by
  have hread (old : Bytes) : objectText old ≠ .error (.encode e) := by
    unfold objectText
    split <;> nofun
  unfold keepObject
  split
  · nofun
  · rename_i old _
    cases hold : objectText old with
    | error err =>
        intro hk
        cases hk
        exact hread old hold
    | ok u =>
        simp only
        split <;> nofun

theorem Unindexed.encode {s : Store} {label : Option Text} {tags : Value} {e : EncodeError}
    (h : Unindexed s label tags (.encode e)) : checkLabel label = .error (.encode e) := by
  cases h with
  | tags htags =>
      unfold recallTags at htags
      generalize Json.readBack _ = back at htags
      cases back <;> cases htags
  | label hlabel => exact hlabel

/-- Where an addition is refused by an encoding, its label is. -/
theorem Adds.encode {hash : Bytes → Handle} {clock : Nat} {s : Store} {fs : List (Value × Value)}
    {label : Option Text} {tags : Value} {a : Added} {e : EncodeError} (h : Adds hash clock s fs label tags a)
    (hresult : a.result = .error (.encode e)) : checkLabel label = .error (.encode e) := by
  cases h with
  | unwritten | indexed => cases hresult
  | unkept _ _ hkeep =>
      cases hresult
      exact absurd hkeep keepObject_ne_encode
  | unindexed _ _ _ hwhy =>
      cases hresult
      exact hwhy.encode

/-! ## What is added -/

/-- What can be added: a machine, or a value that a machine can be restored from. -/
inductive Deposit (α : Type) where
  | machine (m : Machine α)
  | value (v : Value)

namespace Deposit

variable {α : Type} [Strange α]

def add (hash : Bytes → Handle) (clock : Nat) (s : Store) (label : Option Text) (tags : Value) : Deposit α → Added
  | machine m => s.addMachine hash clock m label tags
  | value v => s.addValue hash clock v label tags

/-- The record that is to be kept. -/
def record? : Deposit α → Option (List (Value × Value))
  | machine m => match m.toValue with
    | .ok (.record fs) => some fs
    | _ => none
  | value v => match (Machine.ofValue v : Except RestoreError (Machine Empty)) with
    | .error _ => none
    | .ok _ => match v with
      | .record fs => some fs
      | _ => none

/-- The text of the record. -/
def text? (e : Deposit α) : Option Text := e.record?.bind fun fs => (Wire.write (.record fs)).toOption

/-- The object that is to be kept. -/
def bytes? (e : Deposit α) : Option Bytes := e.text?.bind fun t => t.toAscii.toOption

variable {hash : Bytes → Handle} {clock : Nat} {s : Store} {label : Option Text} {tags : Value} {e : Deposit α}

theorem text?_iff {e : Deposit α} {t : Text} :
    e.text? = some t ↔ ∃ fs, e.record? = some fs ∧ Wire.write (.record fs) = .ok t := by
  rw [text?, Option.bind_eq_some_iff]
  refine exists_congr fun fs => and_congr_right fun _ => ?_
  cases Wire.write (.record fs) <;> simp [Except.toOption]

theorem record?_value {v : Value} {fs : List (Value × Value)} (h : (value v : Deposit α).record? = some fs) :
    v = .record fs ∧ ∃ m : Machine Empty, Machine.ofValue v = .ok m := by
  simp only [record?] at h
  cases hm : (Machine.ofValue v : Except RestoreError (Machine Empty)) with
  | error err => rw [hm] at h; cases h
  | ok m =>
      rw [hm] at h
      cases v with
      | record fs => cases h; exact ⟨rfl, m, rfl⟩
      | null | bool | number | text | list | tuple | alien => cases h

/-- An entry without a record is refused, and the record of another one is added. -/
theorem add_cases (hash : Bytes → Handle) (clock : Nat) (s : Store) (label : Option Text) (tags : Value)
    (e : Deposit α) :
    (e.record? = none ∧ ∃ err, e.add hash clock s label tags = ⟨.error err, s, clock, none⟩) ∨
      ∃ fs, e.record? = some fs ∧ Adds hash clock s fs label tags (e.add hash clock s label tags) := by
  cases e with
  | machine m =>
      simp only [add, addMachine, record?]
      cases m.toValue with
      | error err => exact .inl ⟨rfl, _, rfl⟩
      | ok v =>
          cases v with
          | record fs => exact .inr ⟨fs, rfl, addRecord_adds ..⟩
          | null | bool | number | text | list | tuple | alien => exact .inl ⟨rfl, _, rfl⟩
  | value v =>
      simp only [add, addValue, record?]
      cases (Machine.ofValue v : Except RestoreError (Machine Empty)) with
      | error err => exact .inl ⟨rfl, _, rfl⟩
      | ok m =>
          cases v with
          | record fs => exact .inr ⟨fs, rfl, addRecord_adds ..⟩
          | null | bool | number | text | list | tuple | alien => exact .inl ⟨rfl, _, rfl⟩

/-- An addition that gives a handle has kept the object, and written a row for it. -/
theorem add_ok {hash : Bytes → Handle} {clock : Nat} {s : Store} {label : Option Text} {tags : Value} {e : Deposit α}
    {h : Handle} (hok : (e.add hash clock s label tags).result = .ok h) :
    ∃ t bytes known s' row, e.text? = some t ∧ e.bytes? = some bytes ∧ objectText bytes = .ok t ∧ hash bytes = h ∧
      s.keepObject h t bytes = .ok (known, s') ∧ (e.add hash clock s label tags).store = s'.writeRow row ∧
      s.isOpen = true := by
  rcases e.add_cases hash clock s label tags with ⟨-, err, hadd⟩ | ⟨fs, hfs, hadds⟩
  · rw [hadd] at hok
    cases hok
  · generalize e.add hash clock s label tags = a at *
    cases hadds with
    | unwritten | unkept | unindexed => cases hok
    | @indexed t bytes known s' w hwrite hascii hkeep htags hopen hlabel =>
        cases hok
        have htext : e.text? = some t := text?_iff.2 ⟨fs, hfs, hwrite⟩
        have hbytes : e.bytes? = some bytes := by
          rw [bytes?, htext, Option.bind_some, hascii]
          rfl
        exact ⟨t, bytes, known, s', _, htext, hbytes, objectText_of_write hwrite hascii, rfl, hkeep, rfl, hopen⟩

theorem bytes?_of_record {e : Deposit α} {fs : List (Value × Value)} (h : e.record? = some fs) :
    e.bytes? = (Wire.write (.record fs)).toOption.bind fun t => t.toAscii.toOption := by
  rw [bytes?, text?, h, Option.bind_some]

end Deposit

/-- The entry is to be kept in a new object. -/
def Deposit.New {α : Type} [Strange α] (e : Deposit α) (hash : Bytes → Handle) (s : Store) (bytes : Bytes) : Prop :=
  e.bytes? = some bytes ∧ s.exists? (hash bytes) = false

theorem writeObject_new {s : Store} {h : Handle} (hnone : s.object? h = none) (bytes : Bytes) :
    s.writeObject h bytes = { s with objects := (h, bytes) :: s.objects } := by
  have hfilter : (s.objects.filter fun o => o.1 ≠ h) = s.objects := by
    refine List.filter_eq_self.2 fun o ho => ?_
    rw [object?, Option.map_eq_none_iff, List.find?_eq_none] at hnone
    simpa using hnone o ho
  rw [writeObject, removeObject, hfilter]

section

variable {α : Type} [Strange α] {hash : Bytes → Handle} {clock : Nat} {s : Store} {label : Option Text}
  {tags : Value} {e : Deposit α} {err : StoreError}

theorem add_failed_cases (h : (e.add hash clock s label tags).result = .error err) :
    let left := (e.add hash clock s label tags).store
    left = s ∧ (¬ ∃ bytes, e.New hash s bytes) ∨
      ∃ bytes, e.New hash s bytes ∧ left = { s with objects := (hash bytes, bytes) :: s.objects } ∧
        Unindexed s label tags err := by
  intro left
  rcases e.add_cases hash clock s label tags with ⟨hnone, err', hadd⟩ | ⟨fs, hfs, hadds⟩
  · refine .inl ⟨congrArg Added.store hadd, ?_⟩
    rintro ⟨bytes, hbytes, -⟩
    rw [Deposit.bytes?, Deposit.text?, hnone] at hbytes
    cases hbytes
  · have hbytes := Deposit.bytes?_of_record hfs
    have hstore : left = (e.add hash clock s label tags).store := rfl
    generalize e.add hash clock s label tags = a at *
    cases hadds with
    | unwritten hwrite =>
        rw [hwrite] at hbytes
        refine .inl ⟨hstore, ?_⟩
        rintro ⟨bytes, hsome, -⟩
        rw [hbytes] at hsome
        cases hsome
    | unkept hwrite hascii hkeep =>
        simp only [hwrite, Except.toOption, Option.bind_some, hascii] at hbytes
        refine .inl ⟨hstore, ?_⟩
        rintro ⟨bytes, hsome, hnew⟩
        cases hbytes.symm.trans hsome
        rw [keepObject_error hkeep] at hnew
        cases hnew
    | @unindexed t bytes known s' err' hwrite hascii hkeep hwhy =>
        simp only [hwrite, Except.toOption, Option.bind_some, hascii] at hbytes
        cases h
        rcases keepObject_ok hkeep with ⟨hnone, rfl⟩ | ⟨old, hold, -, rfl⟩
        · exact .inr ⟨bytes, ⟨hbytes, by rw [exists?, hnone]; rfl⟩, hstore.trans (writeObject_new hnone bytes), hwhy⟩
        · refine .inl ⟨hstore, ?_⟩
          rintro ⟨bytes', hsome, hnew⟩
          cases hbytes.symm.trans hsome
          rw [exists?, hold] at hnew
          cases hnew
    | indexed => cases h

theorem store_of_failed_known (h : (e.add hash clock s label tags).result = .error err)
    (hnone : ¬ ∃ bytes, e.New hash s bytes) : (e.add hash clock s label tags).store = s := by
  rcases add_failed_cases h with ⟨hsame, -⟩ | ⟨bytes, hnew, -⟩
  · exact hsame
  · exact absurd ⟨bytes, hnew⟩ hnone

theorem store_of_failed_new {bytes : Bytes} (h : (e.add hash clock s label tags).result = .error err)
    (hnew : e.New hash s bytes) :
    (e.add hash clock s label tags).store = { s with objects := (hash bytes, bytes) :: s.objects } ∧
      Unindexed s label tags err := by
  rcases add_failed_cases h with ⟨-, hnone⟩ | ⟨bytes', hnew', hleft, hwhy⟩
  · exact absurd ⟨bytes, hnew⟩ hnone
  · cases hnew.1.symm.trans hnew'.1
    exact ⟨hleft, hwhy⟩

/-- An addition that fails leaves the store as it is, just if there is no new object to keep. Else that object
is left, and nothing else is changed: the reason is that the index took no row for it. -/
theorem add_failed (h : (e.add hash clock s label tags).result = .error err) :
    let left := (e.add hash clock s label tags).store
    (left = s ↔ ¬ ∃ bytes, e.New hash s bytes) ∧
      ∀ bytes, e.New hash s bytes →
        left = { s with objects := (hash bytes, bytes) :: s.objects } ∧ Unindexed s label tags err := by
  intro left
  refine ⟨⟨fun hsame => ?_, store_of_failed_known h⟩, fun bytes hnew => store_of_failed_new h hnew⟩
  rintro ⟨bytes, hnew⟩
  have hobjects := congrArg Store.objects ((store_of_failed_new h hnew).1.symm.trans hsame)
  exact absurd hobjects (List.cons_ne_self _ _)

end

/-- A tree that a store can hold. -/
def one : Deposit Empty := .machine (.ofRoot (.literal (.int 1)))

theorem add_failed_label :
    let added := one.add Handle.ofBytes 0 .empty (some [.ofNat 0xD800]) .null
    ∃ err bytes, added.result = .error err ∧ added.store = ⟨[(Handle.ofBytes bytes, bytes)], [], true⟩ := by
  have herr : (one.add Handle.ofBytes 0 .empty (some [.ofNat 0xD800]) .null).result =
      .error (.encode ⟨"utf-8", "surrogates not allowed", .ofNat 0xD800, 0, 1⟩) := by
    decide +kernel
  have hsome : one.bytes?.isSome = true := by decide +kernel
  obtain ⟨bytes, hbytes⟩ := Option.isSome_iff_exists.1 hsome
  exact ⟨_, bytes, herr, ((add_failed herr).2 bytes ⟨hbytes, rfl⟩).1⟩

/-- Tags that cannot be written are found out when the object is there. -/
theorem tags_leave_object :
    let added := one.add Handle.ofBytes 0 .empty none (.list [.alien "bytes"])
    added.result = .error (.tags (.unknownType "bytes")) ∧ added.store.objects.length = 1 ∧
      Store.empty.objects.length = 0 := by
  decide +kernel

/-! ## The text of an entry -/

section

variable {α : Type} [Strange α]

theorem Deposit.encode_of_text {e : Deposit α} {t : Text} (ht : e.text? = some t) {hash : Bytes → Handle} {clock : Nat}
    {s : Store} {label : Option Text} {tags : Value} {err : EncodeError}
    (h : (e.add hash clock s label tags).result = .error (.encode err)) : checkLabel label = .error (.encode err) := by
  obtain ⟨fs, hfs, -⟩ := text?_iff.1 ht
  rcases e.add_cases hash clock s label tags with ⟨hnone, -⟩ | ⟨fs', -, hadds⟩
  · cases hnone.symm.trans hfs
  · exact hadds.encode h

/-- A written text is printable ASCII. Spaces stand in quotes only, and there is no blank at either end that the reader
would take off. So it has a handle, its object reads as it does, and where an addition of it meets something that cannot
be encoded, that is the label. -/
theorem ascii_of_write {v : Value} {t : Text} (h : Wire.write v = .ok t) :
    (t.Printable ∧ Wire.regionAfter t = .outside ∧
        ∀ before after : Text, t = before ++ " " ++ after → Wire.regionAfter before = .quoted) ∧
      (t ≠ [] ∧ (∀ c, t.head? = some c ∨ t.getLast? = some c → c.isBlank = false) ∧ t.trim CodePoint.isBlank = t) ∧
      (∃ bytes, t.toAscii = .ok bytes ∧ Handle.ofSnapshot t = .ok (Handle.ofBytes bytes) ∧ objectText bytes = .ok t) ∧
      ∀ (e : Deposit α) hash clock s label tags err, e.text? = some t →
        (e.add hash clock s label tags).result = .error (.encode err) → checkLabel label = .error (.encode err) := by
  have hbytes := (Wire.printable_write h).toAscii
  obtain ⟨hne, hfirst, hlast⟩ := Wire.ends_write h
  refine ⟨⟨Wire.printable_write h, Wire.regionAfter_write h, fun _ _ => Wire.quoted_of_space h⟩,
    ⟨hne, fun c hc => ?_, Wire.trim_write h⟩, ⟨_, hbytes, ?_, objectText_of_write h hbytes⟩,
    fun e _ _ _ _ _ _ ht => e.encode_of_text ht⟩
  · rcases hc with hc | hc
    · exact hfirst c hc
    · exact hlast c (List.head?_reverse.trans hc)
  · rw [Handle.ofSnapshot, hbytes]
    rfl

/-- Neither the key nor the text of this field can stand as it is. -/
theorem ascii_of_write_accents :
    let v : Value := .record [(.text "a b", .text [.ofNat 0xE9, .ofNat 0x7F, .ofNat 0x1F600, ' '])]
    let t : Text := "\x7b\"a b\":\"\\u00e9\\u007f\\ud83d\\ude00 \"\x7d"
    Wire.write v = .ok t ∧ t.Printable ∧ Wire.regionAfter "\x7b\"a" = .quoted := by
  have hwrite : Wire.write (.record [(.text "a b", .text [.ofNat 0xE9, .ofNat 0x7F, .ofNat 0x1F600, ' '])]) =
      .ok "\x7b\"a b\":\"\\u00e9\\u007f\\ud83d\\ude00 \"\x7d" := by
    decide +kernel
  obtain ⟨⟨hprintable, -, hspace⟩, -⟩ := ascii_of_write (α := Empty) hwrite
  exact ⟨hwrite, hprintable, hspace "\x7b\"a" _ rfl⟩

end

end Store
end Pausable
