import Pausable.Proofs.Machine.Paused
import Pausable.Proofs.Machine.Work
import Pausable.Proofs.Store.Consistent

/-!
What a store gives back (`recalled`). An object stays until its handle is deleted, whatever is done under other
handles. So what an addition has returned a handle for is found under it; but an addition to a closed store
also leaves its object, though no handle is returned.
-/
namespace Pausable

namespace Machine

/-- A machine that is given, and what steps make of it, whether they fail or not. -/
inductive Reached : Machine Empty → Prop where
  | initial {m : Machine Empty} : m.Initial → Reached m
  | step {σ ε : Type} {m : Machine Empty} (host : Host σ ε) (s : σ) : Reached m → Reached (m.step host s).machine

theorem Reached.linked {m : Machine Empty} (h : m.Reached) : m.Linked := by
  induction h with
  | initial h => exact h.linked
  | step host s _ ih => exact ih.step

end Machine

namespace Store

variable {α : Type} {hash : Bytes → Handle}

/-! ## Objects after one addition -/

theorem object?_delete (s : Store) (h k : Handle) : (s.delete h).2.object? k = if k = h then none else s.object? k := by
  rw [delete]
  split <;> exact object?_removeObject s h k

section

variable [Strange α] {clock : Nat} {s : Store} {label : Option Text} {tags : Value} {e : Deposit α}

/-- A new object is there behind the addition, and all others are as they were. -/
theorem object?_add_new {bytes : Bytes} (h : e.New hash s bytes) (k : Handle) :
    (e.add hash clock s label tags).store.object? k = if k = hash bytes then some bytes else s.object? k := by
  have hnone : s.object? (hash bytes) = none := by
    apply Option.not_isSome_iff_eq_none.1
    rw [← exists?, h.2]
    exact Bool.false_ne_true
  have hwrite := object?_writeObject s (hash bytes) k bytes
  cases hresult : (e.add hash clock s label tags).result with
  | error err =>
      rw [(store_of_failed_new hresult h).1, ← writeObject_new hnone]
      exact hwrite
  | ok handle =>
      obtain ⟨t, bytes', known, s', row, -, hbytes, -, rfl, hkeep, hstore, -⟩ := Deposit.add_ok hresult
      cases h.1.symm.trans hbytes
      rcases keepObject_ok hkeep with ⟨-, rfl⟩ | ⟨old, hold, -⟩
      · rw [hstore]
        exact hwrite
      · cases hnone.symm.trans hold

/-- Where there is no new object, all are as they were. -/
theorem object?_add_known (h : ¬ ∃ bytes, e.New hash s bytes) (k : Handle) :
    (e.add hash clock s label tags).store.object? k = s.object? k := by
  cases hresult : (e.add hash clock s label tags).result with
  | error err => rw [store_of_failed_known hresult h]
  | ok handle =>
      obtain ⟨t, bytes, known, s', row, -, hbytes, -, rfl, hkeep, hstore, -⟩ := Deposit.add_ok hresult
      rcases keepObject_ok hkeep with ⟨hnone, -⟩ | ⟨-, -, -, rfl⟩
      · exact absurd ⟨bytes, hbytes, by rw [exists?, hnone]; rfl⟩ h
      · rw [hstore]
        rfl

/-- An addition keeps what is there. -/
theorem object?_add_keeps {k : Handle} {bytes : Bytes} (ho : s.object? k = some bytes) :
    (e.add hash clock s label tags).store.object? k = some bytes := by
  by_cases hnew : ∃ bytes, e.New hash s bytes
  · obtain ⟨new, hnew⟩ := hnew
    have hne : k ≠ hash new := by
      rintro rfl
      cases (exists?_of_object ho).symm.trans hnew.2
    rw [object?_add_new hnew, if_neg hne, ho]
  · rw [object?_add_known hnew, ho]

/-- The text of the entry is under the handle. -/
def Deposit.HeldAt (e : Deposit α) (s : Store) (h : Handle) : Prop :=
  ∃ t bytes, e.text? = some t ∧ s.object? h = some bytes ∧ objectText bytes = .ok t

/-- An addition that returns a handle has put the text there. -/
theorem heldAt_add {h : Handle} (hok : (e.add hash clock s label tags).result = .ok h) :
    e.HeldAt (e.add hash clock s label tags).store h := by
  obtain ⟨t, bytes, known, s', row, htext, -, hkept, rfl, hkeep, hstore, -⟩ := Deposit.add_ok hok
  rw [hstore]
  rcases keepObject_ok hkeep with ⟨-, rfl⟩ | ⟨old, hold, hkept', rfl⟩
  · have hobject := object?_writeObject s (hash bytes) (hash bytes) bytes
    rw [if_pos rfl] at hobject
    exact ⟨t, bytes, htext, hobject, hkept⟩
  · exact ⟨t, old, htext, hold, hkept'⟩

end

/-! ## Uses -/

/-- The uses of a store: a call, or closing it. -/
inductive Use (α : Type) where
  | call (c : Call α)
  | close

namespace Use

/-- The entry that is added, with its label and its tags. -/
def addition? : Use α → Option (Deposit α × Option Text × Option (List Text))
  | call (.addMachine m label tags) => some (.machine m, label, tags)
  | call (.addValue v label tags) => some (.value v, label, tags)
  | _ => none

/-- The handle that is deleted. -/
def deleted? : Use α → Option Handle
  | call (.delete handle) => Handle.ofText? handle
  | _ => none

/-- A label that is given holds no surrogates. -/
def Proper : Use α → Prop
  | call c => c.Proper
  | close => True

theorem checkLabel_proper {u : Use α} {e : Deposit α} {label : Option Text} {tags : Option (List Text)}
    (hproper : u.Proper) (hu : u.addition? = some (e, label, tags)) : checkLabel label = .ok () := by
  cases u with
  | call c =>
      cases c with
      | addMachine | addValue => cases hu; exact checkLabel_scalar hproper
      | get | load | contains | delete | query | list | stats | reopen => cases hu
  | close => cases hu

theorem deleted?_of_addition {u : Use α} (hu : u.addition?.isSome = true) : u.deleted? = none := by
  cases u with
  | call c =>
      cases c with
      | addMachine | addValue => rfl
      | get | load | contains | delete | query | list | stats | reopen => cases hu
  | close => rfl

variable [Strange α]

def perform (hash : Bytes → Handle) (s : Session) : Use α → Session
  | call c => c.perform hash s
  | close => { s with store := s.store.close }

/-- An addition of the entry, which gives the handle. -/
def Returns (hash : Bytes → Handle) (e : Deposit α) (h : Handle) (s : Session) (u : Use α) : Prop :=
  ∃ label tags, u.addition? = some (e, label, tags) ∧
    (e.add hash s.clock s.store label (tagsValue tags)).result = .ok h

/-- An addition to a closed store of an entry with a new object, which fails. -/
def Strays (hash : Bytes → Handle) (h : Handle) (s : Session) (u : Use α) : Prop :=
  ∃ e label tags bytes, u.addition? = some (e, label, tags) ∧ s.store.isOpen = false ∧ e.New hash s.store bytes ∧
    hash bytes = h ∧ (e.add hash s.clock s.store label (tagsValue tags)).result = .error .closed

theorem perform_add {s : Session} {u : Use α} {e : Deposit α} {label : Option Text} {tags : Option (List Text)}
    (hu : u.addition? = some (e, label, tags)) :
    u.perform hash s = .ofAdded (e.add hash s.clock s.store label (tagsValue tags)) := by
  cases u with
  | call c =>
      cases c with
      | addMachine | addValue => cases hu; rfl
      | get | load | contains | delete | query | list | stats | reopen => cases hu
  | close => cases hu

/-- A use that adds nothing keeps the objects, but for the one whose handle is deleted. -/
theorem object?_perform {u : Use α} (hu : u.addition? = none) (s : Session) (k : Handle) :
    (u.perform hash s).store.object? k = if u.deleted? = some k then none else s.store.object? k := by
  cases u with
  | call c =>
      cases c with
      | addMachine | addValue => cases hu
      | delete handle =>
          rw [perform, Call.perform, handleOf, deleted?]
          cases hh : Handle.ofText? handle with
          | none => rfl
          | some h =>
              simp only [object?_delete, Option.some.injEq]
              exact if_congr eq_comm rfl rfl
      | get | load | contains | query | list | stats | reopen => rfl
  | close => rfl

/-- An object stays as it is until its handle is deleted. -/
theorem object?_keeps {u : Use α} {s : Session} {k : Handle} {bytes : Bytes} (ho : s.store.object? k = some bytes)
    (hu : u.deleted? ≠ some k) : (u.perform hash s).store.object? k = some bytes := by
  cases hadd : u.addition? with
  | none => rw [object?_perform hadd, if_neg hu, ho]
  | some addition =>
      obtain ⟨e, label, tags⟩ := addition
      have hstore : (u.perform hash s).store = (e.add hash s.clock s.store label (tagsValue tags)).store :=
        congrArg Session.store (perform_add hadd)
      rw [hstore]
      exact object?_add_keeps ho

/-- What is under a handle behind a use has been put there by it, or it was there and is not deleted. -/
theorem exists?_perform {u : Use α} (hproper : u.Proper) (s : Session) (h : Handle) :
    (u.perform hash s).store.exists? h = true ↔
      ((∃ e, u.Returns hash e h s) ∨ u.Strays hash h s) ∨ s.store.exists? h = true ∧ u.deleted? ≠ some h := by
  constructor
  · intro hexists
    cases hadd : u.addition? with
    | none =>
        rw [exists?, object?_perform hadd] at hexists
        split at hexists
        · cases hexists
        · rename_i hne
          exact .inr ⟨hexists, hne⟩
    | some addition =>
        obtain ⟨e, label, tags⟩ := addition
        have hdeleted : u.deleted? ≠ some h := by
          rw [deleted?_of_addition (by rw [hadd]; rfl)]
          exact (Option.some_ne_none h).symm
        by_cases hold : s.store.exists? h = true
        · exact .inr ⟨hold, hdeleted⟩
        refine .inl ?_
        rw [perform_add hadd, Session.ofAdded] at hexists
        by_cases hnew : ∃ bytes, e.New hash s.store bytes
        · obtain ⟨bytes, hnew⟩ := hnew
          rw [exists?, object?_add_new hnew] at hexists
          split at hexists
          · rename_i hhash
            cases hresult : (e.add hash s.clock s.store label (tagsValue tags)).result with
            | ok handle =>
                obtain ⟨t, bytes', known, s', row, -, hbytes, -, rfl, -⟩ := Deposit.add_ok hresult
                cases hnew.1.symm.trans hbytes
                exact .inl ⟨e, label, tags, hadd, hhash ▸ hresult⟩
            | error err =>
                obtain ⟨w, hw⟩ := recallTags_texts tags
                cases (store_of_failed_new hresult hnew).2 with
                | tags htags => cases hw.symm.trans htags
                | closed hclosed => exact .inr ⟨e, label, tags, bytes, hadd, hclosed, hnew, hhash.symm, hresult⟩
                | label hlabel => cases (checkLabel_proper hproper hadd).symm.trans hlabel
          · exact absurd hexists hold
        · rw [exists?, object?_add_known hnew] at hexists
          exact absurd hexists hold
  · rintro ((⟨e, label, tags, hadd, hok⟩ | ⟨e, label, tags, bytes, hadd, -, hnew, rfl, -⟩) | ⟨hold, hne⟩)
    · obtain ⟨t, bytes, -, hobject, -⟩ := heldAt_add hok
      rw [perform_add hadd]
      exact exists?_of_object hobject
    · rw [perform_add hadd]
      exact exists?_of_object ((object?_add_new hnew _).trans (if_pos rfl))
    · obtain ⟨bytes, hbytes⟩ := Option.isSome_iff_exists.1 hold
      exact exists?_of_object (object?_keeps hbytes hne)

theorem heldAt_keeps {u : Use α} {s : Session} {e : Deposit α} {h : Handle} (held : e.HeldAt s.store h)
    (hu : u.deleted? ≠ some h) : e.HeldAt (u.perform hash s).store h := by
  obtain ⟨t, bytes, ht, ho, hkept⟩ := held
  exact ⟨t, bytes, ht, object?_keeps ho hu, hkept⟩

end Use

/-! ## Runs -/

section

variable [Strange α]

def useAll (hash : Bytes → Handle) (uses : List (Use α)) (s : Session) : Session := uses.foldl (Use.perform hash) s

theorem useAll_concat (uses : List (Use α)) (u : Use α) (s : Session) :
    useAll hash (uses ++ [u]) s = u.perform hash (useAll hash uses s) := List.foldl_concat ..

/-- One of the uses is as `P` says, and behind it the handle is not deleted. -/
def Since (hash : Bytes → Handle) (h : Handle) (P : Session → Use α → Prop) (uses : List (Use α)) (s : Session) :
    Prop :=
  ∃ before u after, uses = before ++ u :: after ∧ P (useAll hash before s) u ∧ ∀ w ∈ after, w.deleted? ≠ some h

theorem since_concat {h : Handle} {P : Session → Use α → Prop} {uses : List (Use α)} {u : Use α} {s : Session} :
    Since hash h P (uses ++ [u]) s ↔ P (useAll hash uses s) u ∨ Since hash h P uses s ∧ u.deleted? ≠ some h := by
  constructor
  · rintro ⟨before, w, after, huses, hw, hafter⟩
    rcases List.eq_nil_or_concat after with rfl | ⟨after, last, rfl⟩
    · obtain ⟨rfl, hlast⟩ := List.append_inj' huses rfl
      cases hlast
      exact .inl hw
    · rw [List.concat_eq_append, ← List.cons_append, ← List.append_assoc] at huses
      obtain ⟨rfl, hlast⟩ := List.append_inj' huses rfl
      cases hlast
      rw [List.concat_eq_append, List.forall_mem_append] at hafter
      exact .inr ⟨⟨before, w, after, rfl, hw, hafter.1⟩, hafter.2 _ (List.mem_singleton_self _)⟩
  · rintro (hu | ⟨⟨before, w, after, rfl, hw, hafter⟩, hne⟩)
    · exact ⟨uses, u, [], rfl, hu, nofun⟩
    · refine ⟨before, w, after ++ [u], by simp, hw, List.forall_mem_append.2 ⟨hafter, ?_⟩⟩
      exact List.forall_mem_singleton.2 hne

theorem heldAt_since {uses : List (Use α)} {s : Session} {e : Deposit α} {h : Handle}
    (hsince : Since hash h (Use.Returns hash e h) uses s) : e.HeldAt (useAll hash uses s).store h := by
  induction uses using List.reverseRecOn with
  | nil =>
      obtain ⟨before, u, after, hnil, -⟩ := hsince
      cases before <;> cases hnil
  | append_singleton uses u ih =>
      rw [useAll_concat]
      rcases since_concat.1 hsince with ⟨label, tags, hadd, hok⟩ | ⟨hsince, hne⟩
      · rw [Use.perform_add hadd]
        exact heldAt_add hok
      · exact Use.heldAt_keeps (ih hsince) hne

/-- What exists has been put there, and is not deleted since. -/
theorem exists?_useAll {uses : List (Use α)} (hproper : ∀ u ∈ uses, u.Proper) {s : Session}
    (hempty : s.store.objects = []) (h : Handle) :
    (useAll hash uses s).store.exists? h = true ↔
      Since hash h (fun s u => (∃ e, u.Returns hash e h s) ∨ u.Strays hash h s) uses s := by
  induction uses using List.reverseRecOn with
  | nil =>
      have hnone : s.store.exists? h = false := by rw [exists?, object?, hempty]; rfl
      refine ⟨fun hexists => ?_, ?_⟩
      · cases hnone.symm.trans hexists
      · rintro ⟨before, u, after, hnil, -⟩
        cases before <;> cases hnil
  | append_singleton uses u ih =>
      obtain ⟨huses, hu⟩ := List.forall_mem_append.1 hproper
      rw [useAll_concat, Use.exists?_perform (hu u (List.mem_singleton_self u)), ih huses, since_concat]

theorem since_or {h : Handle} {P Q : Session → Use α → Prop} {uses : List (Use α)} {s : Session} :
    Since hash h (fun s u => P s u ∨ Q s u) uses s ↔ Since hash h P uses s ∨ Since hash h Q uses s := by
  constructor
  · rintro ⟨before, u, after, huses, hu | hu, hafter⟩
    · exact .inl ⟨before, u, after, huses, hu, hafter⟩
    · exact .inr ⟨before, u, after, huses, hu, hafter⟩
  · rintro (⟨before, u, after, huses, hu, hafter⟩ | ⟨before, u, after, huses, hu, hafter⟩)
    · exact ⟨before, u, after, huses, .inl hu, hafter⟩
    · exact ⟨before, u, after, huses, .inr hu, hafter⟩

end

/-! ## What is recalled -/

/-- The store gives the record under the handle, and the machine that it tells of. A machine comes back with the
same frames, values and flag, so it goes on in the same way. -/
def Deposit.Recalled (s : Store) (h : Handle) : Deposit Empty → Prop
  | machine m => m.Reached → (∀ n, m.root? = some n → ∀ t ∈ n.symbols, Json.Scalar t) →
      ∃ fs, m.toValue = .ok (.record fs) ∧ s.get h = .ok fs ∧ s.load h = .ok m.recounted ∧
        ∀ (σ : Type) (sink : Number → σ → σ) (w : σ),
          m.run (.ofSink sink) w = (m.recounted.run (.ofSink sink) w).counted m.steps
  | value v => v.Scalar → ∃ fs, ∃ m : Machine Empty, v = .record fs ∧ Machine.ofValue v = .ok m ∧ s.get h = .ok fs ∧
      s.load h = .ok m

theorem load_held {s : Store} {h : Handle} {fs : List (Value × Value)} {m : Machine Empty} {t : Text} {bytes : Bytes}
    (hwrite : Wire.write (.record fs) = .ok t) (ho : s.object? h = some bytes) (hkept : objectText bytes = .ok t)
    (hscalar : (Value.record fs).Scalar) (hm : Machine.ofValue (.record fs) = .ok m) :
    s.get h = .ok fs ∧ s.load h = .ok m := by
  have hunjoined : (Value.record fs).Plain (fun _ => True) Wire.Unjoined :=
    Value.Plain.imp (fun _ => Machine.unjoined_of_scalar) _ hscalar fun _ _ => trivial
  have hread := Wire.read_of_write hunjoined hwrite
  obtain ⟨fs', w, ws, hfs, hstack, -⟩ := Machine.ofValue_fields hm
  cases hfs
  have hget : s.get h = .ok fs := by
    simp only [get, ho, hkept, Wire.readState, hread, hstack, Option.isSome_some, ↓reduceIte]
    rfl
  refine ⟨hget, ?_⟩
  simp only [load, hget, hm]
  rfl

theorem recalled_of_heldAt {s : Store} {h : Handle} : (e : Deposit Empty) → e.HeldAt s h → e.Recalled s h
  | .machine m, ⟨t, bytes, ht, ho, hkept⟩ => by
      intro hreached hsymbols
      obtain ⟨fs, hfs, hwrite⟩ := Deposit.text?_iff.1 ht
      obtain ⟨v, hv, hback⟩ := hreached.linked.reload
      obtain ⟨n, hn⟩ := hreached.linked.root?
      have hscalar := Machine.scalar_toValue hn (hsymbols n hn) hv
      obtain ⟨vs, -, rfl⟩ := Machine.toValue_ok hv
      rw [Deposit.record?, hv] at hfs
      cases hfs
      obtain ⟨hget, hload⟩ := load_held hwrite ho hkept hscalar hback
      refine ⟨_, hv, hget, hload, fun σ sink w => ?_⟩
      rw [← Machine.run_counted, Machine.counted_recounted]
  | .value v, ⟨t, bytes, ht, ho, hkept⟩ => by
      intro hscalar
      obtain ⟨fs, hfs, hwrite⟩ := Deposit.text?_iff.1 ht
      obtain ⟨rfl, m, hm⟩ := Deposit.record?_value hfs
      obtain ⟨hget, hload⟩ := load_held hwrite ho hkept hscalar hm
      exact ⟨fs, m, rfl, hm, hget, hload⟩

/-- Whatever is done with an empty store: what an addition has returned a handle for is there until the handle is
deleted, and comes back as it was. Under another handle there is something just if it strayed: an addition to the
closed store has failed and left it. -/
theorem recalled (hash : Bytes → Handle) (uses : List (Use Empty)) (hproper : ∀ u ∈ uses, u.Proper) (clock : Nat)
    (h : Handle) :
    let start : Session := ⟨.empty, clock⟩
    let s := (useAll hash uses start).store
    (∀ e, Since hash h (Use.Returns hash e h) uses start → s.exists? h = true ∧ e.Recalled s h) ∧
      ((¬ ∃ e, Since hash h (Use.Returns hash e h) uses start) →
        (s.exists? h = true ↔ Since hash h (Use.Strays hash h) uses start) ∧
          (¬ Since hash h (Use.Strays hash h) uses start →
            s.get h = .error (.notFound h) ∧ (s.load h : Except StoreError (Machine Empty)) = .error (.notFound h))) := by
  intro start s
  refine ⟨fun e hsince => ?_, fun hnone => ?_⟩
  · have held := heldAt_since hsince
    refine ⟨?_, recalled_of_heldAt e held⟩
    obtain ⟨t, bytes, -, ho, -⟩ := held
    exact exists?_of_object ho
  · have hexists : s.exists? h = true ↔ Since hash h (Use.Strays hash h) uses start := by
      rw [exists?_useAll hproper rfl, since_or]
      refine ⟨fun hput => hput.resolve_left ?_, .inr⟩
      rintro ⟨before, u, after, huses, ⟨e, hu⟩, hafter⟩
      exact hnone ⟨e, before, u, after, huses, hu, hafter⟩
    refine ⟨hexists, fun hstray => ?_⟩
    have hobject : s.object? h = none := Option.not_isSome_iff_eq_none.1 fun hsome => hstray (hexists.1 hsome)
    have hget : s.get h = .error (.notFound h) := by simp only [get, hobject]
    exact ⟨hget, by simp only [load, hget]⟩

/-- A tree is added, and another one when the store is closed. -/
def sampleUses : List (Use Empty) :=
  [.call (.addMachine (.ofRoot (.literal (.int 1))) none none), .close,
    .call (.addMachine (.ofRoot (.literal (.int 12))) none none), .call .reopen]

theorem recalled_sample :
    let s := (useAll sampleHash sampleUses ⟨.empty, 0⟩).store
    let first := sampleHash (one.bytes?.getD [])
    let other := sampleHash []
    (∀ u ∈ sampleUses, u.Proper) ∧ s.load first = .ok (.ofRoot (.literal (.int 1)) : Machine Empty) ∧
      s.get other = .error (.notFound other) := by
  intro s first other
  have hproper : ∀ u ∈ sampleUses, u.Proper := by
    simp only [sampleUses, List.forall_mem_cons]
    exact ⟨nofun, trivial, nofun, trivial, nofun⟩
  have hresult : (one.add sampleHash 0 .empty none (tagsValue none)).result = .ok first := by decide +kernel
  have hsince : Since sampleHash first (Use.Returns sampleHash one first) sampleUses ⟨.empty, 0⟩ := by
    refine ⟨[], _, sampleUses.tail, rfl, ⟨none, none, rfl, hresult⟩, ?_⟩
    simp only [sampleUses, List.tail_cons, List.forall_mem_cons]
    exact ⟨nofun, nofun, nofun, nofun⟩
  have hmachine : (Machine.ofRoot (.literal (.int 1)) : Machine Empty).Reached :=
    .initial (.new (Machine.start_ofRoot _))
  obtain ⟨fs, -, -, hload, -⟩ := ((recalled sampleHash sampleUses hproper 0 first).1 one hsince).2 hmachine
    (by rintro _ ⟨⟩; exact nofun)
  have hmissing : s.exists? other = false := by decide +kernel
  have hnever : ¬ ∃ e, Since sampleHash other (Use.Returns sampleHash e other) sampleUses ⟨.empty, 0⟩ := by
    rintro ⟨e, he⟩
    cases hmissing.symm.trans ((recalled sampleHash sampleUses hproper 0 other).1 e he).1
  obtain ⟨hexists, hget⟩ := (recalled sampleHash sampleUses hproper 0 other).2 hnever
  exact ⟨hproper, hload, (hget fun hstray => by cases hmissing.symm.trans (hexists.2 hstray)).1⟩

/-- An addition to a closed store gives no handle, and yet there is an object under one. -/
theorem stray_exists :
    let uses : List (Use Empty) := [.close, .call (.addMachine (.ofRoot (.literal (.int 1))) none none)]
    let s := (useAll Handle.ofBytes uses ⟨.empty, 0⟩).store
    (one.add Handle.ofBytes 0 Store.empty.close none (tagsValue none)).result = .error .closed ∧
      s.exists? (Handle.ofBytes (one.bytes?.getD [])) = true := by
  decide +kernel

end Store
end Pausable
