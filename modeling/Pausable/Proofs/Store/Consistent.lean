import Mathlib.Algebra.BigOperators.Group.List.Basic
import Pausable.Proofs.Json.RoundTrip
import Pausable.Proofs.Machine.Restored
import Pausable.Proofs.Machine.Saved
import Pausable.Proofs.Store.Added

/-!
The objects and the rows of a store stay in step: each call that fails leaves both as they are, and every
other one changes them under the same handle (`performAll_consistent`).
-/
namespace Pausable

/-- The row tells the number of frames, the flag and the length of the text of a state. -/
structure Row.Describes (r : Row) (t : Text) : Prop where
  textSize : r.textSize = t.length
  state : ∃ fs vs, Wire.write (.record fs) = .ok t ∧ Value.field? Wire.stackField fs = some (.list vs) ∧
    vs.length = r.depth ∧ Value.field? "halted" fs = some (.bool r.halted)

namespace Store

/-- An open store with one object and one row for each of the same handles. -/
structure Consistent (hash : Bytes → Handle) (s : Store) : Prop where
  isOpen : s.isOpen = true
  objects : (s.objects.map (·.1)).Nodup
  rows : (s.rows.map (·.handle)).Nodup
  handles : ∀ h, s.exists? h = true ↔ h ∈ s.rows.map (·.handle)
  texts : ∀ h bytes, s.object? h = some bytes → ∃ t, objectText bytes = .ok t ∧ t.toAscii = .ok bytes ∧ hash bytes = h
  described : ∀ r ∈ s.rows, ∀ bytes t, s.object? r.handle = some bytes → objectText bytes = .ok t → r.Describes t

/-! ## Adding -/

theorem mem_handles_filter (rows : List Row) (h k : Handle) :
    k ∈ (rows.filter fun r => r.handle ≠ h).map (·.handle) ↔ k ∈ rows.map (·.handle) ∧ k ≠ h := by
  simp only [List.mem_map, List.mem_filter, decide_eq_true_eq]
  constructor
  · rintro ⟨r, ⟨hr, hne⟩, rfl⟩
    exact ⟨⟨r, hr, rfl⟩, hne⟩
  · rintro ⟨⟨r, hr, rfl⟩, hne⟩
    exact ⟨r, ⟨hr, hne⟩, rfl⟩

namespace Consistent

variable {hash : Bytes → Handle} {s s' : Store}

theorem object_of_row (hs : s.Consistent hash) {r : Row} (hr : r ∈ s.rows) : ∃ bytes, s.object? r.handle = some bytes :=
  Option.isSome_iff_exists.1 ((hs.handles r.handle).2 (List.mem_map_of_mem hr))

/-- An object with the text of a state, new or known, and the row for it. -/
theorem writeRow (hs : s.Consistent hash) {row : Row} {t : Text} {bytes : Bytes} (hkept : objectText bytes = .ok t)
    (hbytes : t.toAscii = .ok bytes) (hhash : hash bytes = row.handle) (hrow : row.Describes t)
    (hobject : ∀ k, s'.object? k = if k = row.handle then some bytes else s.object? k)
    (hobjects : (s'.objects.map (·.1)).Nodup) (hrows : s'.rows = s.rows) (hopen : s'.isOpen = true) :
    (s'.writeRow row).Consistent hash := by
  have hsame (k : Handle) : (s'.writeRow row).object? k = s'.object? k := rfl
  have hmem (r : Row) : r ∈ (s'.writeRow row).rows ↔ r ∈ s.rows ∧ r.handle ≠ row.handle ∨ r = row := by
    rw [Store.writeRow, hrows, List.mem_append, List.mem_filter, List.mem_singleton, decide_eq_true_eq]
  have hhandles : (s'.writeRow row).rows.map (·.handle) =
      (s.rows.filter fun r => r.handle ≠ row.handle).map (·.handle) ++ [row.handle] := by
    rw [Store.writeRow, hrows, List.map_append, List.map_singleton]
  refine ⟨hopen, hobjects, ?_, fun h => ?_, fun h b hb => ?_, fun r hr b u hb hu => ?_⟩
  · rw [hhandles, List.nodup_append]
    refine ⟨hs.rows.sublist (List.filter_sublist.map _), List.pairwise_singleton .., fun h hh k hk => ?_⟩
    rw [List.mem_singleton.1 hk]
    exact ((mem_handles_filter ..).1 hh).2
  · rw [Store.exists?, hsame, hobject, hhandles, List.mem_append, mem_handles_filter, List.mem_singleton]
    by_cases hh : h = row.handle
    · simp [hh]
    · rw [if_neg hh, ← Store.exists?, hs.handles h]
      exact ⟨fun hmem => .inl ⟨hmem, hh⟩, fun hmem => hmem.elim (·.1) fun heq => (hh heq).elim⟩
  · rw [hsame, hobject] at hb
    split at hb
    · rename_i hh
      cases hb
      exact ⟨t, hkept, hbytes, hhash.trans hh.symm⟩
    · exact hs.texts h b hb
  · rw [hsame, hobject] at hb
    rcases (hmem r).1 hr with ⟨hr, hne⟩ | rfl
    · rw [if_neg hne] at hb
      exact hs.described r hr b u hb hu
    · rw [if_pos rfl] at hb
      cases hb
      rw [hkept] at hu
      cases hu
      exact hrow

theorem addRecord (hs : s.Consistent hash) (clock : Nat) {fs : List (Value × Value)} {vs : List Value}
    {halted : Bool} {label : Option Text} {tags w : Value} (hstack : Value.field? Wire.stackField fs = some (.list vs))
    (hhalted : Value.field? "halted" fs = some (.bool halted)) (hlabel : checkLabel label = .ok ())
    (htags : recallTags tags = .ok w) : (addRecord hash clock s fs label tags).store.Consistent hash := by
  have hadds := addRecord_adds hash clock s fs label tags
  generalize Store.addRecord hash clock s fs label tags = added at *
  cases hadds with
  | unwritten => exact hs
  | unkept => exact hs
  | unindexed _ _ _ hwhy =>
      cases hwhy with
      | tags h => cases htags.symm.trans h
      | closed h => cases hs.isOpen.symm.trans h
      | label h => cases hlabel.symm.trans h
  | @indexed t bytes known s' w hwrite hbytes hkeep =>
      have hkept := objectText_of_write hwrite hbytes
      have hmeasures : measures fs = (vs.length, halted) := by rw [measures, hstack, hhalted]
      have hrow : Row.Describes ⟨hash bytes, label, (measures fs).1, (measures fs).2, t.length, clock + 1, w⟩ t := by
        rw [hmeasures]
        exact ⟨rfl, fs, vs, hwrite, hstack, rfl, hhalted⟩
      rcases keepObject_ok hkeep with ⟨-, rfl⟩ | ⟨old, hold, htext, rfl⟩
      · exact hs.writeRow hkept hbytes rfl hrow (fun k => object?_writeObject s _ k bytes)
          (nodup_writeObject hs.objects _ _) rfl hs.isOpen
      · -- the object that was there has the same text, so the same bytes
        obtain ⟨u, hu, hubytes, -⟩ := hs.texts _ old hold
        rw [htext] at hu
        cases hu
        rw [hbytes] at hubytes
        cases hubytes
        refine hs.writeRow hkept hbytes rfl hrow (fun k => ?_) hs.objects rfl hs.isOpen
        split
        · rename_i hk
          rw [hk]
          exact hold
        · rfl

theorem addMachine {α : Type} [Strange α] (hs : s.Consistent hash) (clock : Nat) (m : Machine α)
    {label : Option Text} {tags w : Value} (hlabel : checkLabel label = .ok ()) (htags : recallTags tags = .ok w) :
    (addMachine hash clock s m label tags).store.Consistent hash := by
  unfold Store.addMachine
  cases hv : m.toValue with
  | error e => exact hs
  | ok v =>
      obtain ⟨vs, -, rfl⟩ := Machine.toValue_ok hv
      have hstack : Value.field? Wire.stackField
          [(.text Wire.stackField, .list vs), Value.named "halted" (.bool m.halted)] = some (.list vs) := rfl
      have hhalted : Value.field? "halted"
          [(.text Wire.stackField, .list vs), Value.named "halted" (.bool m.halted)] = some (.bool m.halted) := rfl
      exact hs.addRecord clock hstack hhalted hlabel htags

theorem addValue (hs : s.Consistent hash) (clock : Nat) (v : Value) {label : Option Text} {tags w : Value}
    (hlabel : checkLabel label = .ok ()) (htags : recallTags tags = .ok w) :
    (addValue hash clock s v label tags).store.Consistent hash := by
  unfold Store.addValue
  cases hm : (Machine.ofValue v : Except RestoreError (Machine Empty)) with
  | error e => exact hs
  | ok m =>
      obtain ⟨fs, u, us, rfl, hstack, hhalted, -⟩ := Machine.ofValue_fields hm
      exact hs.addRecord clock hstack hhalted hlabel htags

theorem delete (hs : s.Consistent hash) (h : Handle) : (s.delete h).2.Consistent hash := by
  have hobject (k : Handle) : (s.delete h).2.object? k = if k = h then none else s.object? k := by
    rw [Store.delete, if_pos hs.isOpen]
    exact object?_removeObject s h k
  have hrows : (s.delete h).2.rows = s.rows.filter fun r => r.handle ≠ h := by rw [Store.delete, if_pos hs.isOpen]
  refine ⟨?_, ?_, ?_, fun k => ?_, fun k b hb => ?_, fun r hr b u hb hu => ?_⟩
  · rw [Store.delete, if_pos hs.isOpen]
    exact hs.isOpen
  · rw [Store.delete, if_pos hs.isOpen]
    exact nodup_removeObject hs.objects h
  · rw [hrows]
    exact hs.rows.sublist (List.filter_sublist.map _)
  · rw [Store.exists?, hobject, hrows, mem_handles_filter]
    by_cases hk : k = h
    · simp [hk]
    · rw [if_neg hk, ← Store.exists?, hs.handles k]
      exact ⟨fun hmem => ⟨hmem, hk⟩, fun hmem => hmem.1⟩
  · rw [hobject] at hb
    split at hb
    · cases hb
    · exact hs.texts k b hb
  · rw [hrows, List.mem_filter, decide_eq_true_eq] at hr
    rw [hobject, if_neg hr.2] at hb
    exact hs.described r hr.1 b u hb hu

theorem empty : Store.empty.Consistent hash := ⟨rfl, .nil, .nil, fun _ => ⟨nofun, nofun⟩, nofun, nofun⟩

theorem reopen (hs : s.Consistent hash) : s.close.reopen.Consistent hash := by
  have hsame : s.close.reopen = s := by
    obtain ⟨objects, rows, isOpen⟩ := s
    cases hs.isOpen
    rfl
  rw [hsame]
  exact hs

end Consistent

/-! ## What a consistent store tells -/

/-- The text under a handle; nothing if there is no object. -/
def textAt (s : Store) (h : Handle) : Text :=
  match s.object? h with
  | none => []
  | some bytes => (objectText bytes).toOption.getD []

theorem boundLimit_eq_ok {limit : Int} : boundLimit limit = .ok limit ↔ -(2 ^ 63) ≤ limit ∧ limit < 2 ^ 63 := by
  have hbound : (integerBound : Int) = 2 ^ 63 := rfl
  rw [boundLimit, hbound]
  split
  · rename_i h
    exact iff_of_true rfl h
  · rename_i h
    exact iff_of_false nofun h

theorem boundLimit_eq_error {limit : Int} :
    boundLimit limit = .error .limitTooLarge ↔ limit < -(2 ^ 63) ∨ 2 ^ 63 ≤ limit := by
  have hbound : (integerBound : Int) = 2 ^ 63 := rfl
  rw [boundLimit, hbound]
  split
  · exact iff_of_false nofun (by omega)
  · exact iff_of_true rfl (by omega)

theorem total_eq_sum {β : Type} (f : β → Nat) (bs : List β) : total f bs = (bs.map f).sum := by
  induction bs with
  | nil => rfl
  | cons b bs ih => rw [total_cons, ih, List.map_cons, List.sum_cons]

namespace Consistent

variable {hash : Bytes → Handle} {s : Store}

theorem perm (hs : s.Consistent hash) : (s.rows.map (·.handle)).Perm (s.objects.map (·.1)) := by
  refine (List.perm_ext_iff_of_nodup hs.rows hs.objects).2 fun h => ?_
  rw [← hs.handles h, exists?_iff]

theorem textAt_object (hs : s.Consistent hash) {o : Handle × Bytes} (ho : o ∈ s.objects) :
    objectText o.2 = .ok (s.textAt o.1) := by
  have hobject := object?_of_mem hs.objects ho
  obtain ⟨t, ht, -⟩ := hs.texts _ _ hobject
  simp only [textAt, hobject, ht]
  rfl

theorem textAt_row (hs : s.Consistent hash) {r : Row} (hr : r ∈ s.rows) : r.textSize = (s.textAt r.handle).length := by
  obtain ⟨bytes, hbytes⟩ := hs.object_of_row hr
  obtain ⟨t, ht, -⟩ := hs.texts _ _ hbytes
  have htext : s.textAt r.handle = t := by
    simp only [textAt, hbytes, ht]
    rfl
  rw [htext]
  exact (hs.described r hr bytes t hbytes ht).textSize

/-- With a limit that the index takes and the rows do not pass, the handles that are listed are just those of the
objects. -/
theorem listAll (hs : s.Consistent hash) {limit : Int} (hbound : boundLimit limit = .ok limit)
    (hlimit : limit < 0 ∨ s.rows.length ≤ limit) :
    ∃ hs, s.listAll limit = .ok hs ∧ hs.Nodup ∧ ∀ h, s.exists? h = true ↔ h ∈ hs := by
  let sorted := (s.rows.map (·.handle)).mergeSort fun a b => textLe a.toText b.toText
  have hperm : sorted.Perm (s.rows.map (·.handle)) := List.mergeSort_perm ..
  have hall : limited limit sorted = sorted := by
    unfold limited
    split
    · rfl
    · refine List.take_of_length_le ?_
      rw [hperm.length_eq, List.length_map]
      omega
  refine ⟨sorted, ?_, hperm.nodup_iff.2 hs.rows, fun h => ?_⟩
  · rw [Store.listAll, hs.isOpen, hbound, ← hall]
    rfl
  · rw [hs.handles h, hperm.mem_iff]

/-- A limit of more than 64 bits is refused, however few rows there are. -/
theorem listAll_tooLarge (hs : s.Consistent hash) {limit : Int} (hbound : boundLimit limit = .error .limitTooLarge) :
    s.listAll limit = .error .limitTooLarge := by
  rw [Store.listAll, hs.isOpen, hbound]
  rfl

/-- The rows count the objects and add up the lengths of their texts. -/
theorem stats (hs : s.Consistent hash) : ∃ ts : List Text, s.objects.map (fun o => objectText o.2) = ts.map .ok ∧
    s.stats = .ok (s.objects.length, total List.length ts) := by
  refine ⟨s.objects.map fun o => s.textAt o.1, ?_, ?_⟩
  · rw [List.map_map]
    exact List.map_congr_left fun o ho => hs.textAt_object ho
  · have hlength : s.rows.length = s.objects.length := by
      rw [← List.length_map (fun r : Row => r.handle), hs.perm.length_eq, List.length_map]
    have hsizes : s.rows.map Row.textSize = (s.rows.map (·.handle)).map fun h => (s.textAt h).length := by
      rw [List.map_map]
      exact List.map_congr_left fun r hr => hs.textAt_row hr
    have htotal : total Row.textSize s.rows = total List.length (s.objects.map fun o => s.textAt o.1) := by
      rw [total_eq_sum, hsizes, (hs.perm.map _).sum_eq, List.map_map, total_eq_sum, List.map_map]
      rfl
    rw [Store.stats, hs.isOpen, hlength, htotal]
    rfl

end Consistent

/-! ## Calls -/

/-- Tags as a caller gives them: texts, or none at all. -/
def tagsValue : Option (List Text) → Value
  | none => .null
  | some ts => .list (ts.map .text)

/-- The calls that a store answers. Handles come as texts. -/
inductive Call (α : Type) where
  | addMachine (m : Machine α) (label : Option Text) (tags : Option (List Text))
  | addValue (v : Value) (label : Option Text) (tags : Option (List Text))
  | get (handle : Text)
  | load (handle : Text)
  | contains (handle : Text)
  | delete (handle : Text)
  | query (label : Option Text) (halted : Option Bool) (limit : Int)
  | list (limit : Int)
  | stats
  | reopen

/-- A store and the last time that its clock told. -/
structure Session where
  store : Store
  clock : Nat

def Session.ofAdded (a : Added) : Session := ⟨a.store, a.clock⟩

variable {α : Type}

/-- What a call leaves behind. The calls that only look leave all as it is. -/
def Call.perform [Strange α] (hash : Bytes → Handle) (s : Session) : Call α → Session
  | addMachine m label tags => .ofAdded (s.store.addMachine hash s.clock m label (tagsValue tags))
  | addValue v label tags => .ofAdded (s.store.addValue hash s.clock v label (tagsValue tags))
  | delete handle =>
    match handleOf handle with
    | .ok h => { s with store := (s.store.delete h).2 }
    | .error _ => s
  | reopen => { s with store := s.store.close.reopen }
  | get _ | load _ | contains _ | query .. | list _ | stats => s

def performAll [Strange α] (hash : Bytes → Handle) (calls : List (Call α)) (s : Session) : Session :=
  calls.foldl (Call.perform hash) s

/-- A label holds no surrogates. -/
def Call.Proper : Call α → Prop
  | addMachine _ label _ | addValue _ label _ => ∀ t ∈ label, Json.Scalar t
  | get _ | load _ | contains _ | delete _ | query .. | list _ | stats | reopen => True

theorem checkLabel_scalar {label : Option Text} (h : ∀ t ∈ label, Json.Scalar t) : checkLabel label = .ok () := by
  cases label with
  | none => rfl
  | some t => rw [checkLabel, Text.toUtf8_of_scalar (h t rfl)]; rfl

theorem plainItems_texts (ts : List Text) : Value.PlainItems Number.Short (fun _ => True) (ts.map .text) := by
  induction ts with
  | nil => trivial
  | cons t ts ih => exact ⟨trivial, ih⟩

/-- Texts come back from the index in some way. -/
theorem recallTags_texts (tags : Option (List Text)) : ∃ w, recallTags (tagsValue tags) = .ok w := by
  have hplain : ∃ ts : List Text, (if noTags (tagsValue tags) then .list [] else tagsValue tags) = .list (ts.map .text) := by
    cases tags with
    | none => exact ⟨[], rfl⟩
    | some ts =>
        cases ts with
        | nil => exact ⟨[], rfl⟩
        | cons t ts => exact ⟨t :: ts, rfl⟩
  obtain ⟨ts, hts⟩ := hplain
  have hwrite := Json.write_plain (v := .list (ts.map .text)) (plainItems_texts ts)
  refine ⟨(Json.read (Json.format.text (.list (ts.map .text)))).toOption.getD .null, ?_⟩
  rw [recallTags, hts, Json.readBack, hwrite]
  rfl

theorem Call.perform_consistent [Strange α] {hash : Bytes → Handle} {s : Session} {c : Call α} (hc : c.Proper)
    (hs : s.store.Consistent hash) : (c.perform hash s).store.Consistent hash := by
  cases c with
  | addMachine m label tags =>
      obtain ⟨w, hw⟩ := recallTags_texts tags
      exact hs.addMachine s.clock m (checkLabel_scalar hc) hw
  | addValue v label tags =>
      obtain ⟨w, hw⟩ := recallTags_texts tags
      exact hs.addValue s.clock v (checkLabel_scalar hc) hw
  | delete handle =>
      rw [perform]
      split
      · exact hs.delete _
      · exact hs
  | reopen => exact hs.reopen
  | get | load | contains | query | list | stats => exact hs

theorem consistent_performAll [Strange α] {hash : Bytes → Handle} {calls : List (Call α)} (h : ∀ c ∈ calls, c.Proper)
    {s : Session} (hs : s.store.Consistent hash) : (performAll hash calls s).store.Consistent hash := by
  induction calls generalizing s with
  | nil => exact hs
  | cons c calls ih =>
      obtain ⟨hc, hcalls⟩ := List.forall_mem_cons.1 h
      exact ih hcalls (Call.perform_consistent hc hs)

/-- Whatever is done with an empty store, it has afterwards one object and one row for each of the same
handles: the object's text hashes to the handle, and the row tells of it. So what is listed is what exists,
if the limit is one of 64 bits that leaves no row out, and the statistics are those of the objects. -/
theorem performAll_consistent [Strange α] (hash : Bytes → Handle) (calls : List (Call α)) (h : ∀ c ∈ calls, c.Proper)
    (clock : Nat) :
    let s := (performAll hash calls ⟨.empty, clock⟩).store
    s.Consistent hash ∧
      (∀ limit : Int, -(2 ^ 63) ≤ limit → limit < 2 ^ 63 → limit < 0 ∨ s.rows.length ≤ limit →
        ∃ hs, s.listAll limit = .ok hs ∧ hs.Nodup ∧ ∀ h, s.exists? h = true ↔ h ∈ hs) ∧
      (∀ limit : Int, limit < -(2 ^ 63) ∨ 2 ^ 63 ≤ limit → s.listAll limit = .error .limitTooLarge) ∧
      ∃ ts : List Text, s.objects.map (fun o => objectText o.2) = ts.map .ok ∧
        s.stats = .ok (s.objects.length, total List.length ts) := by
  intro s
  have hs : s.Consistent hash := consistent_performAll h .empty
  refine ⟨hs, fun limit hlow hhigh hlimit => hs.listAll (boundLimit_eq_ok.2 ⟨hlow, hhigh⟩) hlimit,
    fun limit hlimit => hs.listAll_tooLarge (boundLimit_eq_error.2 ?_), hs.stats⟩
  omega

def sampleHash (bytes : Bytes) : Handle := ⟨Vector.replicate 32 bytes.length.toUInt8⟩

/-- The second text has the length of the first one, and so its handle: it is refused. -/
def sampleCalls : List (Call Empty) :=
  [.addMachine (.ofRoot (.literal (.int 1))) (some "first") (some ["new"]),
    .addMachine (.ofRoot (.literal (.int 2))) none none, .reopen,
    .addMachine (.ofRoot (.literal (.int 1))) (some "again") none]

theorem performAll_consistent_sample :
    let s := (performAll sampleHash sampleCalls ⟨.empty, 0⟩).store
    (∀ c ∈ sampleCalls, c.Proper) ∧ s.rows.map (·.label) = [some ("again" : Text)] ∧ s.Consistent sampleHash ∧
      (∃ hs, s.listAll 100 = .ok hs ∧ ∀ h, s.exists? h = true ↔ h ∈ hs) ∧
      s.listAll (2 ^ 63) = .error .limitTooLarge := by
  intro s
  have hproper : ∀ c ∈ sampleCalls, c.Proper := by
    have hlabel (l : String) : ∀ t ∈ some (l : Text), Json.Scalar t := by
      rintro _ ⟨⟩
      exact Json.scalar_ofString l
    simp only [sampleCalls, List.forall_mem_cons]
    exact ⟨hlabel "first", nofun, trivial, hlabel "again", nofun⟩
  have hrows : s.rows.map (·.label) = [some ("again" : Text)] := by decide +kernel
  have hlength : s.rows.length = 1 := by rw [← List.length_map (·.label), hrows, List.length_singleton]
  obtain ⟨hs, hlist, htooLarge, -⟩ := performAll_consistent sampleHash sampleCalls hproper 0
  obtain ⟨handles, hlisted, -, hmem⟩ := hlist 100 (by decide) (by decide) (.inr (by rw [hlength]; decide))
  exact ⟨hproper, hrows, hs, ⟨handles, hlisted, hmem⟩, htooLarge (2 ^ 63) (.inr le_rfl)⟩

end Store
end Pausable
