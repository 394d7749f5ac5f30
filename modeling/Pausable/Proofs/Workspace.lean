import Mathlib.Data.List.Nodup
import Pausable.Proofs.Store.Handle
import Pausable.Workspace

/-!
Stores that are opened again. To open a store makes folders and leaves what is in the stores
(`store_openStore`); a store that was opened is opened again at the same place, whatever objects were added to it
(`openStore_again`).
-/
namespace Pausable

namespace Store

/-- The objects of the first store are there in the second one, perhaps with other bytes. -/
def Within (s s' : Store) : Prop := ∀ o ∈ s.objects, ∃ o' ∈ s'.objects, o'.1 = o.1

theorem entry?_eq_folder {s : Store} {p : Place} (h : s.entry? p = some .folder) :
    ∃ o ∈ s.objects, p = [objectsName, o.1.folder] := by
  unfold entry? at h
  split at h
  · split at h <;> cases h
  · rename_i name folder
    split at h
    · rename_i hfolder
      obtain ⟨hname, hany⟩ := Bool.and_eq_true_iff.1 hfolder
      obtain ⟨o, ho, hof⟩ := List.any_eq_true.1 hany
      rw [of_decide_eq_true hname, ← of_decide_eq_true hof]
      exact ⟨o, ho, rfl⟩
    · cases h
  · split at h
    · cases ho : s.objects.find? _ with
      | none => rw [ho] at h; cases h
      | some o => rw [ho] at h; cases h
    · cases h
  · cases h

theorem entry?_folder {s : Store} {o : Handle × Bytes} (ho : o ∈ s.objects) :
    s.entry? [objectsName, o.1.folder] = some .folder := by
  rw [Store.entry?, if_pos]
  simp only [decide_true, Bool.true_and, List.any_eq_true, decide_eq_true_eq]
  exact ⟨o, ho, rfl⟩

/-- The last name of a file in a store is longer than that of a folder. -/
theorem entry?_eq_file {s : Store} {p : Place} {bytes : Bytes} (h : s.entry? p = some (.file bytes)) :
    ∃ q name, p = q ++ [name] ∧ 2 < name.length := by
  unfold entry? at h
  split at h
  · rename_i name
    split at h
    · rename_i hname
      exact ⟨[], name, rfl, by rw [hname]; decide⟩
    · cases h
  · split at h <;> cases h
  · rename_i name folder file
    split at h
    · obtain ⟨o, ho, -⟩ := Option.map_eq_some_iff.1 h
      have hfile := List.find?_some ho
      simp only [Bool.and_eq_true, decide_eq_true_eq] at hfile
      refine ⟨[name, folder], file, rfl, ?_⟩
      rw [← hfile.2, Handle.length_file]
      decide
    · cases h
  · cases h

end Store

namespace Workspace

variable {w w' u : Workspace} {p q r : Place}

/-! ## Entries -/

theorem stored?_eq_some {e : Entry} (h : w.stored? r = some e) :
    ∃ q s rest, (q, s) ∈ w.stores ∧ r = q ++ rest ∧ s.entry? rest = some e := by
  obtain ⟨⟨q, s⟩, hmem, hs⟩ := List.exists_of_findSome?_eq_some h
  simp only at hs
  split at hs
  · rename_i hprefix
    obtain ⟨rest, rfl⟩ := List.isPrefixOf_iff_prefix.1 hprefix
    rw [List.drop_left] at hs
    exact ⟨q, s, rest, hmem, rfl, hs⟩
  · cases hs

/-- A folder of one store is no file of another one. -/
theorem stored?_folder {s : Store} {o : Handle × Bytes} (hs : (q, s) ∈ w.stores) (ho : o ∈ s.objects) :
    w.stored? (q ++ [Store.objectsName, o.1.folder]) = some .folder := by
  cases hstored : w.stored? (q ++ [Store.objectsName, o.1.folder]) with
  | none =>
      have hnone := List.findSome?_eq_none_iff.1 hstored (q, s) hs
      simp only [List.isPrefixOf_iff_prefix, List.prefix_append, ↓reduceIte, List.drop_left,
        Store.entry?_folder ho] at hnone
      cases hnone
  | some e =>
      cases e with
      | folder => rfl
      | file bytes =>
          obtain ⟨q', s', rest, -, hr, hfile⟩ := stored?_eq_some hstored
          obtain ⟨lead, name, rfl, hname⟩ := Store.entry?_eq_file hfile
          have hlast : o.1.folder = name := by
            have hlasts := congrArg List.getLast? hr
            rw [← List.append_assoc, List.getLast?_concat] at hlasts
            simpa using hlasts
          rw [← hlast, Handle.length_folder] at hname
          exact absurd hname (Nat.lt_irrefl 2)

/-- Where the entries are the same, what lies at a place is the same, or it lies in a store. -/
theorem entry?_eq_or {v : Workspace} (h : v.entries = w.entries) (r : Place) :
    v.entry? r = w.entry? r ∨ v.entry? r = v.stored? r ∧ w.entry? r = w.stored? r := by
  unfold entry?
  rw [h]
  split
  · exact .inl rfl
  · split
    · exact .inl rfl
    · exact .inr ⟨rfl, rfl⟩

theorem entry?_added (w : Workspace) (p r : Place) :
    Workspace.entry? { w with entries := (p, .folder) :: w.entries } r =
      if p = r then some .folder else w.entry? r := by
  unfold entry?
  by_cases hroot : (r = Place.root || r.all (· = Place.above)) = true
  · simp only [hroot, ↓reduceIte, ite_self]
  · rw [if_neg hroot, if_neg hroot, List.find?_cons]
    by_cases hp : p = r
    · simp only [hp, decide_true, ↓reduceIte]
    · simp only [hp, decide_false, ↓reduceIte]
      rfl

/-- What is a folder in the first workspace is one in the second. -/
def Folders (w v : Workspace) : Prop := ∀ r, w.entry? r = some .folder → v.entry? r = some .folder

theorem folders_added (w : Workspace) (p : Place) : w.Folders { w with entries := (p, .folder) :: w.entries } := by
  intro r hr
  rw [entry?_added, hr, ite_self]

/-! ## Folders that are made -/

/-- The first name is made a folder, if it is none, and then the others are. -/
theorem makeFolders_cons {name : Text} {names : List Text} (h : w.makeFolders p (name :: names) = .ok (q, w')) :
    ¬ Place.maxName < Place.size name ∧ ∃ v, (v = w ∨ v = { w with entries := (p.enter name, .folder) :: w.entries }) ∧
      v.entry? (p.enter name) = some .folder ∧ v.makeFolders (p.enter name) names = .ok (q, w') := by
  rw [makeFolders] at h
  split at h
  · cases h
  · rename_i hsize
    refine ⟨hsize, ?_⟩
    split at h
    · rename_i hfolder
      exact ⟨w, .inl rfl, hfolder, h⟩
    · cases h
    · exact ⟨_, .inr rfl, by rw [entry?_added, if_pos rfl], h⟩

/-- To make folders leaves the folders that are there. -/
theorem folders_makeFolders {names : List Text} (h : w.makeFolders p names = .ok (q, w')) : w.Folders w' := by
  induction names generalizing w p with
  | nil =>
      cases h
      exact fun _ => id
  | cons name names ih =>
      obtain ⟨-, v, rfl | rfl, -, hrest⟩ := makeFolders_cons h
      · exact ih hrest
      · exact fun r hr => ih hrest r (folders_added _ _ r hr)

/-- Folders that were made are made again without a change, wherever they are still there. -/
theorem makeFolders_again {names : List Text} {v : Workspace} (h : w.makeFolders p names = .ok (q, w'))
    (hv : w'.Folders v) : v.makeFolders p names = .ok (q, v) := by
  induction names generalizing w p with
  | nil =>
      cases h
      rfl
  | cons name names ih =>
      obtain ⟨hsize, u, -, hfolder, hrest⟩ := makeFolders_cons h
      rw [makeFolders, if_neg hsize, hv _ (folders_makeFolders hrest _ hfolder)]
      exact ih hrest

theorem stores_makeFolders {names : List Text} (h : w.makeFolders p names = .ok (q, w')) :
    w'.stores = w.stores ∧ ∀ r, w'.objectsUnder r = w.objectsUnder r := by
  induction names generalizing w p with
  | nil =>
      cases h
      exact ⟨rfl, fun _ => rfl⟩
  | cons name names ih =>
      obtain ⟨-, v, rfl | rfl, -, hrest⟩ := makeFolders_cons h
      · exact ih hrest
      · have hsame := ih hrest
        exact hsame

/-! ## Stores -/

theorem store_makeFolders {names : List Text} (h : w.makeFolders p names = .ok (q, w')) (r : Place) :
    w'.store r = w.store r := by
  obtain ⟨hstores, hobjects⟩ := stores_makeFolders h
  rw [store, store, hstores, hobjects]

theorem store_setStore (w : Workspace) (p r : Place) (s : Store) :
    (w.setStore p s).store r = if r = p then s else w.store r := by
  rw [store, store, setStore, List.find?_cons]
  by_cases hr : r = p
  · simp [hr]
  · have hp : ¬ p = r := Ne.symm hr
    have hfind : (w.stores.filter fun t => t.1 ≠ p).find? (fun t => t.1 = r) = w.stores.find? fun t => t.1 = r := by
      rw [List.find?_filter]
      congr 1
      funext t
      by_cases ht : t.1 = r
      · simp [ht, hr]
      · simp [ht]
    simp only [hp, hr, decide_false, ↓reduceIte, hfind]
    rfl

/-- What comes of opening a store: its path leads nowhere, its index cannot be used, or it is opened. -/
inductive Opens (w : Workspace) (path : Text) : Except OpenError Place × Workspace → Prop where
  | astray (e : PathError) : Opens w path (.error (.path (objectsPath path) e), w)
  | unusable {objects : Place} {u : Workspace} {e : OpenError} :
      w.makeFolders (Place.start (objectsPath path)) (Place.names (objectsPath path)) = .ok (objects, u) →
      u.checkIndex objects.up = .error e → Opens w path (.error e, u)
  | opened {objects : Place} {u : Workspace} : Place.check (objectsPath path) = .ok () →
      w.makeFolders (Place.start (objectsPath path)) (Place.names (objectsPath path)) = .ok (objects, u) →
      u.checkIndex objects.up = .ok () →
      Opens w path (.ok objects.up, u.setStore objects.up (u.store objects.up))

theorem openStore_opens (w : Workspace) (path : Text) : w.Opens path (w.openStore path) := by
  rw [openStore]
  cases hcheck : Place.check (objectsPath path) with
  | error e => exact .astray e
  | ok _ =>
      cases hmake : w.makeFolders (Place.start (objectsPath path)) (Place.names (objectsPath path)) with
      | error e => exact .astray e
      | ok r =>
          obtain ⟨objects, u⟩ := r
          simp only
          cases hindex : u.checkIndex objects.up with
          | error e => exact .unusable hmake hindex
          | ok _ => exact .opened hcheck hmake hindex

/-- To open a store changes none. -/
theorem store_openStore (w : Workspace) (path : Text) (r : Place) : (w.openStore path).2.store r = w.store r := by
  have hopens := w.openStore_opens path
  generalize w.openStore path = o at hopens ⊢
  cases hopens with
  | astray => rfl
  | unusable hmake => exact store_makeFolders hmake r
  | opened _ hmake =>
      rw [store_setStore, ← store_makeFolders hmake]
      split
      · rename_i hr
        rw [hr]
      · rfl

/-! ## Stores that are opened again -/

/-- No place has two stores, and no store is closed. -/
structure Sound (w : Workspace) : Prop where
  places : (w.stores.map (·.1)).Nodup
  isOpen : ∀ s ∈ w.stores, s.2.isOpen = true

theorem Sound.store_isOpen (h : w.Sound) (p : Place) : (w.store p).isOpen = true := by
  rw [store]
  split
  · rename_i hs
    exact h.isOpen _ (List.mem_of_find?_eq_some hs)
  · rfl

theorem Sound.store_of_mem (h : w.Sound) {s : Store} (hs : (p, s) ∈ w.stores) : w.store p = s := by
  have hsome : (w.stores.find? fun t => t.1 = p).isSome = true := by
    rw [List.find?_isSome]
    exact ⟨_, hs, decide_eq_true rfl⟩
  obtain ⟨t, ht⟩ := Option.isSome_iff_exists.1 hsome
  have hsame : t = (p, s) :=
    List.inj_on_of_nodup_map h.places (List.mem_of_find?_eq_some ht) hs (by simpa using List.find?_some ht)
  rw [store, ht, hsame]

theorem Sound.of_stores (h : w.Sound) {v : Workspace} (hv : v.stores = w.stores) : v.Sound :=
  ⟨hv ▸ h.places, hv ▸ h.isOpen⟩

theorem Sound.setStore (h : w.Sound) {s : Store} (hs : s.isOpen = true) : (w.setStore p s).Sound := by
  refine ⟨?_, ?_⟩
  · rw [Workspace.setStore, List.map_cons, List.nodup_cons]
    refine ⟨fun hmem => ?_, h.places.sublist (List.filter_sublist.map _)⟩
    obtain ⟨t, ht, htp⟩ := List.mem_map.1 hmem
    exact of_decide_eq_true (List.mem_filter.1 ht).2 htp
  · exact List.forall_mem_cons.2 ⟨hs, fun t ht => h.isOpen t (List.mem_filter.1 ht).1⟩

theorem Sound.openStore (h : w.Sound) (path : Text) : (w.openStore path).2.Sound := by
  have hopens := w.openStore_opens path
  generalize w.openStore path = o at hopens ⊢
  cases hopens with
  | astray => exact h
  | unusable hmake => exact h.of_stores (stores_makeFolders hmake).1
  | opened _ hmake =>
      have hu := h.of_stores (stores_makeFolders hmake).1
      exact hu.setStore (hu.store_isOpen _)

/-- Folders stay where a store takes the place of one with no other objects. -/
theorem Sound.folders_setStore (h : w.Sound) {s : Store} (hs : (w.store p).Within s) : w.Folders (w.setStore p s) := by
  intro r hr
  have hentries : (w.setStore p s).entries = w.entries := rfl
  rcases entry?_eq_or hentries r with hsame | ⟨hstored, hbefore⟩
  · rw [hsame, hr]
  · rw [hbefore] at hr
    rw [hstored]
    obtain ⟨q, t, rest, hmem, rfl, hfolder⟩ := stored?_eq_some hr
    obtain ⟨o, ho, rfl⟩ := Store.entry?_eq_folder hfolder
    by_cases hq : q = p
    · rw [hq] at hmem ⊢
      rw [h.store_of_mem hmem] at hs
      obtain ⟨o', ho', hsame⟩ := hs o ho
      rw [← hsame]
      exact stored?_folder (List.mem_cons_self ..) ho'
    · refine stored?_folder (s := t) (List.mem_cons_of_mem _ ?_) ho
      exact List.mem_filter.2 ⟨hmem, by simpa using hq⟩

theorem setStore_setStore (w : Workspace) (p : Place) (s t : Store) :
    (w.setStore p s).setStore p t = w.setStore p t := by
  simp only [setStore, ne_eq, not_true_eq_false, decide_false, Bool.false_eq_true, not_false_eq_true,
    List.filter_cons_of_neg, List.filter_filter, Bool.and_self]

/-- An index that a store keeps can be opened. -/
theorem checkIndex_setStore (h : w.checkIndex p = .ok ()) (s : Store) : (w.setStore p s).checkIndex p = .ok () := by
  have hstored : (w.setStore p s).stored? (p ++ [Store.indexName]) = some (.file []) := by
    rw [stored?, setStore, List.findSome?_cons]
    simp [Store.entry?]
  have hentries : (w.setStore p s).entries = w.entries := rfl
  rcases entry?_eq_or hentries (p ++ [Store.indexName]) with hsame | ⟨hafter, -⟩
  · rw [checkIndex, hsame]
    exact h
  · rw [checkIndex, hafter, hstored]

/-- A store that was opened is opened again at the same place, though it has been replaced by one that keeps its
objects. -/
theorem openStore_again {path : Text} (hw : w.Sound) (h : (w.openStore path).1 = .ok p) {s : Store}
    (hs : (w.store p).Within s) (clock : Nat) :
    (Workspace.openStore { (w.openStore path).2.setStore p s with clock } path).1 = .ok p := by
  have hopens := w.openStore_opens path
  generalize w.openStore path = o at hopens h ⊢
  cases hopens with
  | astray | unusable => cases h
  | @opened objects u hcheck hmake hindex =>
      cases h
      rw [setStore_setStore]
      have hu := hw.of_stores (stores_makeFolders hmake).1
      rw [← store_makeFolders hmake] at hs
      have hfolders : u.Folders { u.setStore objects.up s with clock } := hu.folders_setStore hs
      have hindex' : checkIndex { u.setStore objects.up s with clock } objects.up = .ok () :=
        checkIndex_setStore hindex s
      rw [openStore]
      simp only [hcheck, makeFolders_again hmake hfolders, hindex']

end Workspace
end Pausable
