import Pausable.Proofs.Command.Does
import Pausable.Proofs.Store.SameState
import Pausable.Proofs.Value.Shown
import Pausable.Proofs.Workspace

/-!
What commands store and find again. A machine that steps make of a tree is stored if its integers are short and no
other text has its handle (`Storable.added`); it is found under the handle when the store is opened again
(`machineAt_holding`).
-/
namespace Pausable

open Store (Deposit)

namespace Machine

variable {α : Type} [Strange α] {m : Machine α} {n : Node Empty}

/-- The value of a machine is in its record. -/
theorem mem_numbers_value {v : Value} (hv : m.toValue = .ok v) {x : Number} (hx : x ∈ m.value) : x ∈ v.numbers := by
  obtain ⟨root, hroot, hslot⟩ := Option.bind_eq_some_iff.1 hx
  obtain ⟨vs, hvs, rfl⟩ := toValue_ok hv
  rw [← List.head?_reverse] at hroot
  cases hstack : m.stack.reverse with
  | nil => rw [hstack] at hroot; cases hroot
  | cons f above =>
      rw [hstack] at hroot hvs
      cases hroot
      rw [records] at hvs
      split at hvs
      · cases hvs
      · rename_i w hw
        obtain ⟨ws, -, rfl⟩ := ok_of_map hvs
        have hmem : x ∈ (root.toRecord w).numbers := by
          rw [Frame.toRecord, hslot]
          simp [Value.numbers, Value.numbersOfFields, Value.named]
        have hitem := Value.numbers_item (List.mem_cons_self (a := root.toRecord w) (l := ws)) hmem
        exact List.mem_append_left _ (List.mem_append_right _ hitem)

/-- The machine is one that steps make of the tree. -/
structure Stems (n : Node Empty) (m : Machine Empty) : Prop where
  reached : m.Reached
  root : m.root? = some n

end Machine

namespace Store

variable {α : Type} [Strange α] {hash : Bytes → Handle} {clock : Nat} {s : Store} {label : Option Text} {tags : Value}

theorem within_add (e : Deposit α) : s.Within (e.add hash clock s label tags).store := by
  intro o ho
  have hexists : s.exists? o.1 = true := (exists?_iff s o.1).2 (List.mem_map_of_mem ho)
  obtain ⟨bytes, hbytes⟩ := Option.isSome_iff_exists.1 hexists
  have hkept : (e.add hash clock s label tags).store.exists? o.1 = true := exists?_of_object (object?_add_keeps hbytes)
  exact List.mem_map.1 ((exists?_iff _ _).1 hkept)

theorem isOpen_add {e : Deposit α} {h : Handle} (hok : (e.add hash clock s label tags).result = .ok h) :
    (e.add hash clock s label tags).store.isOpen = true := by
  obtain ⟨t, bytes, known, s', row, -, -, -, -, hkeep, hstore, hopen⟩ := Deposit.add_ok hok
  rw [hstore, writeRow]
  rcases keepObject_ok hkeep with ⟨-, rfl⟩ | ⟨-, -, -, rfl⟩ <;> exact hopen

end Store

namespace Command

open Machine (Stems)

variable {program : Node Empty} {m : Machine Empty}

theorem stems_evaluated (program : Node Empty) (n : Nat) :
    Stems program (evaluated (some n) (.ofRoot program)).machine where
  reached := Machine.advance_keeps (P := Machine.Reached) (fun h => h.step _ _)
    (.initial (.new (Machine.start_ofRoot program)))
  root := Machine.advance_keeps (P := fun m => m.root? = some program) (fun h => by rw [Machine.root?_step, h])
    (by rw [Machine.root?]; simp [Machine.ofRoot, Frame.node])

theorem valueLine_short (hm : Stems program m) (hs : m.Short) : ∃ t, valueLine m.value = .ok t := by
  obtain ⟨v, hv, -⟩ := hm.reached.linked.reload
  cases hx : m.value with
  | none => exact ⟨_, rfl⟩
  | some x =>
      obtain ⟨t, ht⟩ := Option.isSome_iff_exists.1
        (x.isSome_print?.2 (hs v hv x (Machine.mem_numbers_value hv hx)))
      rw [valueLine, ht]
      exact ⟨_, rfl⟩

theorem bytes?_short (hm : Stems program m) (hsymbols : ∀ t ∈ program.symbols, Json.Scalar t) (hs : m.Short) :
    ∃ bytes, (Deposit.machine m).bytes? = some bytes := by
  obtain ⟨v, hv, -⟩ := hm.reached.linked.reload
  have hscalar := Machine.scalar_toValue hm.root hsymbols hv
  have hwrite := Wire.write_plain (Value.Plain.imp (fun _ => id) v hscalar (hs v hv))
  have hascii := (Wire.printable_write hwrite).toAscii
  obtain ⟨vs, -, rfl⟩ := Machine.toValue_ok hv
  have hrecord : (Deposit.machine m).record? = some [(.text Wire.stackField, .list vs),
      Value.named "halted" (.bool m.halted)] := by rw [Deposit.record?, hv]
  rw [Deposit.bytes?_of_record hrecord, hwrite, Except.toOption, Option.bind_some, hascii]
  exact ⟨_, rfl⟩

/-- A machine with short integers can be stored under a label: the path leads to a store, and no other text is there
under the handle. -/
structure Storable (w : Workspace) (folder label : Text) (m : Machine Empty) : Prop where
  opens : ∃ p, (w.openStore folder).1 = .ok p
  label : Json.Scalar label
  short : m.Short
  free : ∀ p, (w.openStore folder).1 = .ok p → ∀ bytes ∈ (Deposit.machine m).bytes?,
    (w.store p).Free Handle.ofBytes bytes

section

variable {w : Workspace} {folder label : Text} {p : Place}

theorem added_eq (w : Workspace) (p : Place) (m : Machine Empty) (label : Text) : added w p m label =
    (Deposit.machine m).add Handle.ofBytes w.clock (w.store p) (some label) (Store.tagsValue none) := rfl

theorem Storable.added (h : Storable w folder label m) (hw : w.Sound) (hm : Stems program m)
    (hsymbols : ∀ t ∈ program.symbols, Json.Scalar t) : ∃ p bytes, (w.openStore folder).1 = .ok p ∧
      (Deposit.machine m).bytes? = some bytes ∧
      (added (w.openStore folder).2 p m label).result = .ok (Handle.ofBytes bytes) := by
  obtain ⟨p, hp⟩ := h.opens
  obtain ⟨bytes, hbytes⟩ := bytes?_short hm hsymbols h.short
  refine ⟨p, bytes, hp, hbytes, ?_⟩
  have hfree := h.free p hp bytes hbytes
  rw [← w.store_openStore folder] at hfree
  have hlabel : ∀ t ∈ some label, Json.Scalar t := by
    rintro t ⟨⟩
    exact h.label
  rw [added_eq]
  exact Store.add_free ((hw.openStore folder).store_isOpen p) hlabel hbytes hfree

/-- The workspace behind an addition to the store that a path leads to. -/
def holding (w : Workspace) (folder : Text) (p : Place) (m : Machine Empty) (label : Text) : Workspace :=
  keeping (w.openStore folder).2 p (Command.added (w.openStore folder).2 p m label)

theorem store_holding (w : Workspace) (folder : Text) (p : Place) (m : Machine Empty) (label : Text) :
    (holding w folder p m label).store p = (Command.added (w.openStore folder).2 p m label).store :=
  (Workspace.store_setStore _ p p _).trans (if_pos rfl)

theorem openStore_holding (m : Machine Empty) (label : Text) (hw : w.Sound) (hp : (w.openStore folder).1 = .ok p) :
    ((holding w folder p m label).openStore folder).1 = .ok p := by
  refine Workspace.openStore_again hw hp ?_ _
  rw [← w.store_openStore folder, added_eq]
  exact Store.within_add _

theorem machineAt_holding (hm : Stems program m) (hsymbols : ∀ t ∈ program.symbols, Json.Scalar t) {h : Handle}
    (hadded : (Command.added (w.openStore folder).2 p m label).result = .ok h) :
    machineAt ((holding w folder p m label).openStore folder).2 p h.toText = .ok m.recounted := by
  have hsymbols' : ∀ n, m.root? = some n → ∀ t ∈ n.symbols, Json.Scalar t := by
    intro n hn
    cases hm.root.symm.trans hn
    exact hsymbols
  rw [added_eq] at hadded
  obtain ⟨fs, -, -, hload, -⟩ := Store.recalled_of_heldAt _ (Store.heldAt_add hadded) hm.reached hsymbols'
  rw [← added_eq, ← store_holding, ← Workspace.store_openStore _ folder] at hload
  rw [machineAt, Store.handleOf, Handle.ofText?_toText]
  exact congrArg (Except.mapError Failure.store) hload

theorem sound_holding (hw : w.Sound) {h : Handle}
    (hadded : (Command.added (w.openStore folder).2 p m label).result = .ok h) :
    (holding w folder p m label).Sound := by
  rw [added_eq] at hadded
  exact ((hw.openStore folder).setStore (p := p) (Store.isOpen_add hadded)).of_stores rfl

/-- Machines with different texts have different handles. -/
def Apart (m m' : Machine Empty) : Prop :=
  ∀ x ∈ (Deposit.machine m).bytes?, ∀ y ∈ (Deposit.machine m').bytes?, Handle.ofBytes x = Handle.ofBytes y → x = y

theorem Storable.holding {label' : Text} {m' : Machine Empty} (h : Storable w folder label' m') (hw : w.Sound)
    (hapart : Apart m m') (hp : (w.openStore folder).1 = .ok p) :
    Storable (holding w folder p m label) folder label' m' := by
  have hagain := openStore_holding m label hw hp
  refine ⟨⟨p, hagain⟩, h.label, h.short, fun q hq bytes hbytes => ?_⟩
  cases hagain.symm.trans hq
  have hfree := h.free p hp bytes hbytes
  rw [← w.store_openStore folder] at hfree
  rw [store_holding, added_eq]
  exact Store.free_add hfree fun x hx => hapart x hx bytes hbytes

end

end Command
end Pausable
