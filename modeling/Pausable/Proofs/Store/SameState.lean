import Pausable.Proofs.Store.Recalled

/-!
One state added twice (`add_same_state`). Machines in one state have one record, so they are kept once. A value is
kept as it is given, so it shares the object of a machine just if it is the record that the machine is saved as,
with the same fields in the same order.
-/
namespace Pausable

variable {α : Type}

/-! ## States -/

/-- What a frame does and what is in its slot. -/
def Frame.content (f : Frame α) : Activity α × Option Number := (f.activity, f.slot)

/-- The frames, whatever their places and however many steps it took to come to them, and the flag. -/
def Machine.content (m : Machine α) : List (Activity α × Option Number) × Bool :=
  (m.stack.map Frame.content, m.halted)

theorem Frame.toRecord_content {f g : Frame α} (h : f.content = g.content) (v : Value) :
    f.toRecord v = g.toRecord v := by
  obtain ⟨ha, hs⟩ := Prod.mk.inj h
  rw [toRecord, toRecord, ha, hs]

theorem Frame.toChildRecord_content {below below' f f' : Frame α} {position : Nat} {v v' : Value}
    (hbelow : below.content = below'.content) (hf : f.content = f'.content)
    (h : below.toChildRecord position f = .ok v) (h' : below'.toChildRecord position f' = .ok v') : v = v' := by
  have hchild : below.activity.child? = below'.activity.child? := congrArg (fun c => c.1.child?) hbelow
  rw [toChildRecord] at h h'
  rw [hchild] at h
  split at h
  · split at h'
    · cases hc : below'.activity.child? with
      | none =>
          rw [hc] at h
          cases h
      | some c =>
          rw [hc] at h h'
          cases h
          cases h'
          exact Frame.toRecord_content hf _
    · cases h'
  · cases h

namespace Machine

theorem recordsAbove_content {fs gs : List (Frame α)} {below below' : Frame α} {position : Nat} {vs ws : List Value}
    (hbelow : below.content = below'.content) (hfs : fs.map Frame.content = gs.map Frame.content)
    (h : recordsAbove below position fs = .ok vs) (h' : recordsAbove below' position gs = .ok ws) : vs = ws := by
  induction fs generalizing gs below below' position vs ws with
  | nil =>
      cases gs with
      | nil =>
          cases h
          cases h'
          rfl
      | cons g gs => cases hfs
  | cons f fs ih =>
      cases gs with
      | nil => cases hfs
      | cons g gs =>
          obtain ⟨hfg, hrest⟩ := List.cons.inj hfs
          rw [recordsAbove] at h h'
          split at h
          · cases h
          · rename_i v hv
            split at h'
            · cases h'
            · rename_i w hw
              obtain ⟨vs', hvs, rfl⟩ := ok_of_map h
              obtain ⟨ws', hws, rfl⟩ := ok_of_map h'
              rw [Frame.toChildRecord_content hbelow hfg hv hw, ih hfg hrest hvs hws]

theorem records_content [Strange α] {fs gs : List (Frame α)} {vs ws : List Value}
    (hfs : fs.map Frame.content = gs.map Frame.content) (h : records fs = .ok vs) (h' : records gs = .ok ws) :
    vs = ws := by
  cases fs with
  | nil =>
      cases gs with
      | nil =>
          cases h
          cases h'
          rfl
      | cons g gs => cases hfs
  | cons f fs =>
      cases gs with
      | nil => cases hfs
      | cons g gs =>
          obtain ⟨hfg, hrest⟩ := List.cons.inj hfs
          have hnode : f.node = g.node := congrArg (fun c => c.1.node) hfg
          rw [records, hnode] at h
          rw [records] at h'
          cases hroot : g.node.toValue with
          | error e =>
              rw [hroot] at h
              cases h
          | ok root =>
              rw [hroot] at h h'
              obtain ⟨vs', hvs, rfl⟩ := ok_of_map h
              obtain ⟨ws', hws, rfl⟩ := ok_of_map h'
              rw [Frame.toRecord_content hfg, recordsAbove_content hfg hrest hvs hws]

/-- Machines in one state that can be saved have the same record. -/
theorem toValue_content [Strange α] {m n : Machine α} {v w : Value} (h : m.content = n.content)
    (hv : m.toValue = .ok v) (hw : n.toValue = .ok w) : v = w := by
  obtain ⟨hstack, hhalted⟩ := Prod.mk.inj h
  obtain ⟨vs, hvs, rfl⟩ := toValue_ok hv
  obtain ⟨ws, hws, rfl⟩ := toValue_ok hw
  have hreverse : m.stack.reverse.map Frame.content = n.stack.reverse.map Frame.content := by
    rw [List.map_reverse, List.map_reverse, hstack]
  rw [records_content hreverse hvs hws, hhalted]

end Machine

namespace Store

variable [Strange α] {hash : Bytes → Handle} {clock : Nat} {s : Store} {label : Option Text}
  {tags : Option (List Text)} {e : Deposit α}

/-- The state that an entry stands for. -/
def Deposit.content? : Deposit α → Option (List (Activity α × Option Number) × Bool)
  | machine m => some m.content
  | value v => (Machine.ofValue v : Except RestoreError (Machine α)).toOption.map Machine.content

/-! ## Additions that succeed -/

theorem Consistent.add (hs : s.Consistent hash) (hlabel : ∀ t ∈ label, Json.Scalar t) :
    (e.add hash clock s label (tagsValue tags)).store.Consistent hash := by
  obtain ⟨w, hw⟩ := recallTags_texts tags
  cases e with
  | machine m => exact hs.addMachine clock m (checkLabel_scalar hlabel) hw
  | value v => exact hs.addValue clock v (checkLabel_scalar hlabel) hw

/-- The object under the handle of these bytes, if there is one, has these bytes. -/
def Free (hash : Bytes → Handle) (s : Store) (bytes : Bytes) : Prop :=
  ∀ old, s.object? (hash bytes) = some old → old = bytes

theorem keepObject_free {bytes : Bytes} {t : Text} (hkept : objectText bytes = .ok t) (hfree : s.Free hash bytes) :
    ∃ known s', s.keepObject (hash bytes) t bytes = .ok (known, s') := by
  rw [keepObject]
  cases hobject : s.object? (hash bytes) with
  | none => exact ⟨_, _, rfl⟩
  | some old =>
      simp only [hfree old hobject, hkept]
      exact ⟨true, s, rfl⟩

/-- An entry that can be written is added, where no other object is in its place. -/
theorem add_free (hopen : s.isOpen = true) (hlabel : ∀ t ∈ label, Json.Scalar t) {bytes : Bytes}
    (hbytes : e.bytes? = some bytes) (hfree : s.Free hash bytes) :
    (e.add hash clock s label (tagsValue tags)).result = .ok (hash bytes) := by
  rcases e.add_cases hash clock s label (tagsValue tags) with ⟨hnone, -⟩ | ⟨fs, hfs, hadds⟩
  · rw [Deposit.bytes?, Deposit.text?, hnone] at hbytes
    cases hbytes
  · rw [Deposit.bytes?_of_record hfs] at hbytes
    generalize e.add hash clock s label (tagsValue tags) = a at *
    cases hadds with
    | unwritten hwrite =>
        rw [hwrite] at hbytes
        cases hbytes
    | unkept hwrite hascii hkeep =>
        simp only [hwrite, Except.toOption, Option.bind_some, hascii] at hbytes
        cases hbytes
        obtain ⟨known, s', hok⟩ := keepObject_free (objectText_of_write hwrite hascii) hfree
        cases hkeep.symm.trans hok
    | unindexed _ _ _ hwhy =>
        obtain ⟨w, hw⟩ := recallTags_texts tags
        cases hwhy with
        | tags htags => cases hw.symm.trans htags
        | closed hclosed => cases hopen.symm.trans hclosed
        | label herror => cases (checkLabel_scalar hlabel).symm.trans herror
    | indexed hwrite hascii =>
        simp only [hwrite, Except.toOption, Option.bind_some, hascii] at hbytes
        cases hbytes
        rfl

theorem free_add {bytes : Bytes} {tagsGiven : Value} (hfree : s.Free hash bytes)
    (happart : ∀ new, e.bytes? = some new → hash new = hash bytes → new = bytes) :
    (e.add hash clock s label tagsGiven).store.Free hash bytes := by
  intro old hold
  by_cases hnew : ∃ new, e.New hash s new
  · obtain ⟨new, hnew⟩ := hnew
    rw [object?_add_new hnew] at hold
    split at hold
    · rename_i hhash
      cases hold
      exact happart _ hnew.1 hhash.symm
    · exact hfree old hold
  · rw [object?_add_known hnew] at hold
    exact hfree old hold

/-! ## One state, added twice -/

theorem count_handle (hs : s.Consistent hash) {h : Handle} (hexists : s.exists? h = true) :
    (s.objects.map (·.1)).count h = 1 ∧ (s.rows.map (·.handle)).count h = 1 :=
  ⟨List.count_eq_one_of_mem hs.objects ((exists?_iff s h).1 hexists),
    List.count_eq_one_of_mem hs.rows ((hs.handles h).1 hexists)⟩

theorem Deposit.record?_machine {m : Machine α} {fs : List (Value × Value)}
    (h : (machine m).record? = some fs) : m.toValue = .ok (.record fs) := by
  rw [record?] at h
  split at h
  · rename_i hvalue
    cases h
    exact hvalue
  · cases h

theorem Deposit.record?_content {m n : Machine α} {fs gs : List (Value × Value)} (h : m.content = n.content)
    (hfs : (machine m).record? = some fs) (hgs : (machine n).record? = some gs) : fs = gs :=
  Value.record.inj (Machine.toValue_content h (record?_machine hfs) (record?_machine hgs))

/-- The record of which these are the bytes. -/
theorem Deposit.record?_of_bytes {bytes : Bytes} (h : e.bytes? = some bytes) :
    ∃ fs t, e.record? = some fs ∧ Wire.write (.record fs) = .ok t ∧ objectText bytes = .ok t := by
  obtain ⟨t, ht, hascii⟩ := Option.bind_eq_some_iff.1 h
  obtain ⟨fs, hfs, hwrite⟩ := text?_iff.1 ht
  cases hbytes : t.toAscii with
  | error err => rw [hbytes] at hascii; cases hascii
  | ok b =>
      rw [hbytes] at hascii
      cases hascii
      exact ⟨fs, t, hfs, hwrite, objectText_of_write hwrite hbytes⟩

/-- Records that are written alike are the same, if their texts have no halves of code points side by side. -/
theorem record_of_write {fs gs : List (Value × Value)} {t : Text}
    (hfs : (Value.record fs).Plain (fun _ => True) Wire.Unjoined)
    (hgs : (Value.record gs).Plain (fun _ => True) Wire.Unjoined) (h : Wire.write (.record fs) = .ok t)
    (h' : Wire.write (.record gs) = .ok t) : fs = gs := by
  have hread := Wire.read_of_write hfs h
  rw [Wire.read_of_write hgs h'] at hread
  cases hread
  rfl

/-- Two entries that stand for one state are both added. Their handles are the same just if their records are, and
so for two machines; there is one object and one row for each handle. -/
theorem add_same_state (hs : s.Consistent hash) {a b : Deposit α} (hsame : a.content? = b.content?) {x y : Bytes}
    (hx : a.bytes? = some x) (hy : b.bytes? = some y) (hxfree : s.Free hash x) (hyfree : s.Free hash y)
    (happart : hash x = hash y → x = y) (clock : Nat) (label label' : Option Text) (hlabel : ∀ t ∈ label, Json.Scalar t)
    (hlabel' : ∀ t ∈ label', Json.Scalar t) (tags tags' : Option (List Text)) :
    let first := a.add hash clock s label (tagsValue tags)
    let second := b.add hash first.clock first.store label' (tagsValue tags')
    let left := second.store
    first.result = .ok (hash x) ∧ second.result = .ok (hash y) ∧
      (∀ h ∈ [hash x, hash y],
        (left.objects.map (·.1)).count h = 1 ∧ (left.rows.map (·.handle)).count h = 1) ∧
      ((∃ m n, a = .machine m ∧ b = .machine n) → hash x = hash y) ∧
      ∀ fs gs, a.record? = some fs → b.record? = some gs → (Value.record fs).Plain (fun _ => True) Wire.Unjoined →
        (Value.record gs).Plain (fun _ => True) Wire.Unjoined → (hash x = hash y ↔ fs = gs) := by
  intro first second left
  obtain ⟨fs, t, hfs, hwrite, htext⟩ := Deposit.record?_of_bytes hx
  obtain ⟨gs, u, hgs, hwrite', htext'⟩ := Deposit.record?_of_bytes hy
  have hfirst : first.result = .ok (hash x) := add_free hs.isOpen hlabel hx hxfree
  have hbetween : first.store.Consistent hash := hs.add hlabel
  have hyfree' : first.store.Free hash y := free_add hyfree fun new hnew => by
    cases hx.symm.trans hnew
    exact happart
  have hsecond : second.result = .ok (hash y) := add_free hbetween.isOpen hlabel' hy hyfree'
  have hleft : left.Consistent hash := hbetween.add hlabel'
  have hbytes (hrecords : fs = gs) : x = y := by
    rw [Deposit.bytes?_of_record hfs, hrecords, ← Deposit.bytes?_of_record hgs, hy] at hx
    exact (Option.some.inj hx).symm
  refine ⟨hfirst, hsecond, ?_, ?_, ?_⟩
  · obtain ⟨_, _, -, hobject, -⟩ := heldAt_add hfirst
    obtain ⟨_, _, -, hobject', -⟩ := heldAt_add hsecond
    simp only [List.forall_mem_cons]
    exact ⟨count_handle hleft (exists?_of_object (object?_add_keeps hobject)),
      count_handle hleft (exists?_of_object hobject'), nofun⟩
  · rintro ⟨m, n, rfl, rfl⟩
    exact congrArg hash (hbytes (Deposit.record?_content (Option.some.inj hsame) hfs hgs))
  · intro fs' gs' hfs' hgs' hplain hplain'
    cases hfs.symm.trans hfs'
    cases hgs.symm.trans hgs'
    refine ⟨fun hhash => ?_, fun hrecords => congrArg hash (hbytes hrecords)⟩
    rw [happart hhash, htext'] at htext
    cases htext
    exact record_of_write hplain hplain' hwrite hwrite'

/-- The stack of a machine for the literal 1. -/
def literalStack : Value × Value :=
  Value.named "stateStack" (.list [.record [
    Value.named "node" (.record [Value.named "kind" (.text "literal"), Value.named "value" (.int 1)]),
    Value.named "ctx" (.record [])]])

/-- The record of the machine as it is saved. -/
def saved : Deposit Empty := .value (.record [literalStack, Value.named "halted" (.bool false)])

/-- The same record with the flag before the stack. -/
def swapped : Deposit Empty := .value (.record [Value.named "halted" (.bool false), literalStack])

theorem add_same_state_swapped :
    let first := one.add Handle.ofBytes 0 .empty none (tagsValue none)
    let second := swapped.add Handle.ofBytes first.clock first.store none (tagsValue none)
    ∃ h k, first.result = .ok h ∧ second.result = .ok k ∧ (second.store.rows.map (·.handle)).count h = 1 ∧
      (second.store.rows.map (·.handle)).count k = 1 := by
  have hempty : Store.empty.Consistent Handle.ofBytes := .empty
  have hsame : one.content? = swapped.content? := by decide +kernel
  have hx : one.bytes?.isSome = true := by decide +kernel
  have hy : swapped.bytes?.isSome = true := by decide +kernel
  have happart : ∀ x ∈ one.bytes?, ∀ y ∈ swapped.bytes?, Handle.ofBytes x = Handle.ofBytes y → x = y := by
    decide +kernel
  obtain ⟨x, hx⟩ := Option.isSome_iff_exists.1 hx
  obtain ⟨y, hy⟩ := Option.isSome_iff_exists.1 hy
  obtain ⟨hfirst, hsecond, hcounts, -⟩ :=
    add_same_state hempty hsame hx hy nofun nofun (happart x hx y hy) 0 none none nofun nofun none none
  exact ⟨_, _, hfirst, hsecond, (hcounts _ (List.mem_cons_self ..)).2,
    (hcounts _ (List.mem_cons_of_mem _ (List.mem_singleton_self _))).2⟩

/-- Two records that stand for one state get two handles, with an object and a row for each. -/
theorem swapped_kept_twice :
    let first := saved.add Handle.ofBytes 0 .empty none .null
    let second := swapped.add Handle.ofBytes first.clock first.store none .null
    saved.content? = swapped.content? ∧ swapped.content?.isSome = true ∧ first.result.isOk = true ∧
      second.result.isOk = true ∧ first.result ≠ second.result ∧ second.store.objects.length = 2 ∧
      second.store.rows.length = 2 := by
  decide +kernel

end Store
end Pausable
