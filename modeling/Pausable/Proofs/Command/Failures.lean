import Pausable.Proofs.Command.Does
import Pausable.Proofs.Store.Added
import Pausable.Proofs.Workspace

/-!
The failures of the parts of a command (`Usual`). Each is reported in a line, but for sums and products of a float and
an integer too large for one, and for an index that cannot be used. No store of a sound workspace is closed, so that no
part fails with that.
-/
namespace Pausable.Command

variable {β γ ε : Type}

/-- The failures of which nothing is told: a float meets an integer too large for one, or the index of a store
cannot be used. -/
inductive Failure.Silent : Failure → Prop where
  | integerTooLarge : Silent (.fault .integerTooLarge)
  | noIndex : Silent (.opening .noIndex)
  | notIndex : Silent (.opening .notIndex)

theorem Failure.Silent.not_isReported {f : Failure} (h : f.Silent) : ¬ f.isReported = true := by
  cases h <;> exact Bool.false_ne_true

/-- The failure is reported in a line, or it is one of these few. -/
def Failure.Usual (f : Failure) : Prop := f.isReported = true ∨ f.Silent

/-- If the computation fails, then as usual. -/
def Usual (r : Except Failure β) : Prop := ∀ f, r = .error f → f.Usual

namespace Usual

/-! ### Rules -/

theorem ok (b : β) : Usual (.ok b) := nofun

theorem error {f : Failure} (h : f.Usual) : Usual (.error f : Except Failure β) := by
  rintro _ ⟨⟩
  exact h

theorem reported {f : Failure} (h : f.isReported = true) : Usual (.error f : Except Failure β) := error (.inl h)

theorem bind {r : Except Failure β} {g : β → Except Failure γ} (h : Usual r) (hg : ∀ b, Usual (g b)) :
    Usual (r >>= g) := by
  cases r with
  | error e => exact error (h e rfl)
  | ok b => exact hg b

theorem map {r : Except Failure β} (h : Usual r) (g : β → γ) : Usual (r.map g) :=
  fun f hf => h f (error_of_map hf)

theorem mapError {r : Except ε β} {failure : ε → Failure} (h : ∀ e, (failure e).Usual) :
    Usual (r.mapError failure) := by
  cases r with
  | error e => exact error (h e)
  | ok b => exact ok b

theorem of_error {r : Except ε β} {failure : ε → Failure} {e : ε} (h : Usual (r.mapError failure))
    (he : r = .error e) : (failure e).Usual := h _ (by rw [he]; rfl)

/-! ### Parts of commands -/

theorem counted (n : Int) : Usual (counted n) := by
  rw [Command.counted]
  split
  · exact reported rfl
  · exact ok _

theorem programAt (w : Workspace) (path : Text) : Usual (programAt w path) :=
  (mapError fun _ => .inl rfl).bind fun _ => (mapError fun _ => .inl rfl).bind fun _ =>
    (mapError fun _ => .inl rfl).bind fun _ => mapError fun _ => .inl rfl

theorem fault (e : Fault Console.PrintError) : (Failure.fault e).Usual := by
  cases e with
  | integerTooLarge => exact .inr .integerTooLarge
  | emptyStack | unknownKind | unsupportedOperator | valuelessOperand | host => exact .inl rfl

theorem opening (e : OpenError) : (Failure.opening e).Usual := by
  cases e with
  | path => exact .inl rfl
  | noIndex => exact .inr .noIndex
  | notIndex => exact .inr .notIndex

theorem progress (o : Outcome Empty (List Number) Console.PrintError) : Usual (progress o) := (mapError fault).map _

theorem objectText (bytes : Bytes) : Usual ((Store.objectText bytes).mapError .store) := by
  rw [Store.objectText]
  cases bytes.decodeAscii with
  | error e => exact reported rfl
  | ok t => exact ok _

theorem load (s : Store) (h : Handle) : Usual ((s.load h : Except StoreError (Machine Empty)).mapError .store) := by
  rw [Store.load, Store.get]
  cases s.object? h with
  | none => exact reported rfl
  | some bytes =>
      simp only
      cases htext : Store.objectText bytes with
      | error e => exact error ((objectText bytes).of_error htext)
      | ok t =>
          simp only
          cases Wire.readState t with
          | error e => exact reported rfl
          | ok fs =>
              simp only [Except.mapError]
              cases (Machine.ofValue (.record fs) : Except RestoreError (Machine Empty)) with
              | error e => exact reported rfl
              | ok m => exact ok m

theorem machineAt (w : Workspace) (p : Place) (handle : Text) : Usual (machineAt w p handle) := by
  refine bind ?_ fun h => load _ h
  rw [Store.handleOf]
  cases Handle.ofText? handle with
  | none => exact reported rfl
  | some h => exact ok h

theorem keepObject (s : Store) (h : Handle) (t : Text) (bytes : Bytes) :
    Usual ((s.keepObject h t bytes).mapError .store) := by
  rw [Store.keepObject]
  cases s.object? h with
  | none => exact ok _
  | some old =>
      simp only
      cases htext : Store.objectText old with
      | error e => exact error ((objectText old).of_error htext)
      | ok u =>
          simp only
          split
          · exact ok _
          · exact reported rfl

theorem unindexed {s : Store} (hs : s.isOpen = true) {label : Option Text} {tags : Value} {e : StoreError}
    (h : Store.Unindexed s label tags e) : (Failure.store e).Usual := by
  cases h with
  | tags htags =>
      obtain ⟨e', -, rfl⟩ := error_of_mapError htags
      exact .inl rfl
  | closed hclosed => cases hs.symm.trans hclosed
  | label hlabel =>
      cases label with
      | none => cases hlabel
      | some t =>
          obtain ⟨e', -, rfl⟩ := error_of_mapError hlabel
          exact .inl rfl

theorem added {w : Workspace} (hw : w.Sound) (p : Place) (m : Machine Empty) (label : Text) :
    Usual ((added w p m label).result.mapError .store) := by
  rw [Command.added, Store.addMachine]
  cases m.toValue with
  | error e => exact reported rfl
  | ok v =>
      cases v with
      | null | bool | number | text | list | tuple | alien => exact reported rfl
      | record fs =>
          have hadds := Store.addRecord_adds Handle.ofBytes w.clock (w.store p) fs (some label) .null
          simp only
          generalize Store.addRecord Handle.ofBytes w.clock (w.store p) fs (some label) .null = a at hadds ⊢
          cases hadds with
          | unwritten => exact reported rfl
          | unkept _ _ hkeep => exact error ((keepObject _ _ _ _).of_error hkeep)
          | unindexed _ _ _ hwhy => exact error (unindexed (hw.store_isOpen p) hwhy)
          | indexed => exact ok _

end Usual
end Pausable.Command
