import Mathlib.Data.List.Sort
import Pausable.Proofs.Store.Label
import Pausable.Proofs.Store.Recalled

/-!
What a query gives (`query_rows`). Each row tells of the last addition under its handle, and the rows stand in the
order of their times; a query goes through them and keeps those that are asked for.
-/
namespace Pausable

/-- The row is asked for: its label contains the filter, and its flag is as it should be. -/
structure Row.Meets (filter : Option Text) (halted : Option Bool) (r : Row) : Prop where
  label : ∀ t ∈ filter, t ≠ [] → ∃ l, r.label = some l ∧ Label.Contains l t
  halted : ∀ b ∈ halted, r.halted = b

namespace Store

variable {α : Type} [Strange α] {hash : Bytes → Handle}

/-- The row tells the number of the frames of the entry, its flag and the length of its text. -/
def Deposit.Measured (e : Deposit α) (r : Row) : Prop :=
  ∃ fs vs t, e.record? = some fs ∧ Value.field? Wire.stackField fs = some (.list vs) ∧ vs.length = r.depth ∧
    Value.field? "halted" fs = some (.bool r.halted) ∧ e.text? = some t ∧ t.length = r.textSize

/-- The tags that come back for those that are given. -/
def keptTags (tags : Option (List Text)) : Value := .list ((tags.getD []).map .text)

/-! ## One addition -/

theorem recallTags_scalar {tags : Option (List Text)} (h : ∀ ts ∈ tags, ∀ t ∈ ts, Json.Scalar t) :
    recallTags (tagsValue tags) = .ok (keptTags tags) := by
  have hgiven : (if noTags (tagsValue tags) then .list [] else tagsValue tags) = keptTags tags := by
    rcases tags with _ | _ | ⟨t, ts⟩ <;> rfl
  have hplain : (keptTags tags).Plain Number.Short Text.Unpaired := by
    refine Value.plainItems_iff.2 fun v hv => ?_
    obtain ⟨t, ht, rfl⟩ := List.mem_map.1 hv
    cases tags with
    | none => cases ht
    | some ts => exact (h ts rfl t ht).unpaired
  simp only [recallTags, hgiven, Json.readBack, Json.write_plain hplain, Json.read_text hplain]
  rfl

namespace Deposit

variable {clock : Nat} {s : Store} {label : Option Text} {e : Deposit α}

theorem record?_fields {fs : List (Value × Value)} (h : e.record? = some fs) :
    ∃ vs halted, Value.field? Wire.stackField fs = some (.list vs) ∧ Value.field? "halted" fs = some (.bool halted) := by
  cases e with
  | machine m =>
      cases hv : m.toValue with
      | error err => simp only [record?, hv] at h; cases h
      | ok v =>
          obtain ⟨vs, -, rfl⟩ := Machine.toValue_ok hv
          simp only [record?, hv, Option.some.injEq] at h
          subst h
          exact ⟨vs, m.halted, rfl, rfl⟩
  | value v =>
      obtain ⟨rfl, m, hm⟩ := record?_value h
      obtain ⟨_, w, ws, hfs, hstack, hhalted, -⟩ := Machine.ofValue_fields hm
      cases hfs
      exact ⟨w :: ws, m.halted, hstack, hhalted⟩

/-- An addition that fails writes no row, and the clock does not go back. -/
theorem rows_failed {tags : Value} {err : StoreError} (h : (e.add hash clock s label tags).result = .error err) :
    (e.add hash clock s label tags).store.rows = s.rows := by
  rcases add_failed_cases h with ⟨hstore, -⟩ | ⟨bytes, -, hstore, -⟩ <;> rw [hstore]

theorem clock_le (tags : Value) : clock ≤ (e.add hash clock s label tags).clock := by
  rcases e.add_cases hash clock s label tags with ⟨-, err, hadd⟩ | ⟨fs, -, hadds⟩
  · rw [hadd]
  · generalize e.add hash clock s label tags = a at *
    cases hadds with
    | unwritten | unkept => exact Nat.le_refl _
    | unindexed | indexed => exact Nat.le_succ _

/-- An addition that is done writes one row, in the place of an old one. -/
theorem rows_added {tags : Option (List Text)} (htags : ∀ ts ∈ tags, ∀ t ∈ ts, Json.Scalar t) {h : Handle}
    (hok : (e.add hash clock s label (tagsValue tags)).result = .ok h) :
    (e.add hash clock s label (tagsValue tags)).clock = clock + 1 ∧
      ∃ row : Row, (e.add hash clock s label (tagsValue tags)).store.rows =
          (s.rows.filter fun r => r.handle ≠ h) ++ [row] ∧
        row.handle = h ∧ row.label = label ∧ e.Measured row ∧ row.tags = keptTags tags ∧ row.created = clock + 1 := by
  rcases e.add_cases hash clock s label (tagsValue tags) with ⟨-, err, hadd⟩ | ⟨fs, hfs, hadds⟩
  · rw [hadd] at hok
    cases hok
  · generalize e.add hash clock s label (tagsValue tags) = a at *
    cases hadds with
    | unwritten | unkept | unindexed => cases hok
    | @indexed t bytes known s' w hwrite hascii hkeep hrecall hopen hlabel =>
        cases hok
        have hrows : s'.rows = s.rows := by
          rcases keepObject_ok hkeep with ⟨-, rfl⟩ | ⟨-, -, -, rfl⟩ <;> rfl
        obtain ⟨vs, halted, hstack, hhalted⟩ := record?_fields hfs
        have hmeasures : measures fs = (vs.length, halted) := by rw [measures, hstack, hhalted]
        have htext : e.text? = some t := text?_iff.2 ⟨fs, hfs, hwrite⟩
        refine ⟨rfl, _, by rw [writeRow, hrows], rfl, rfl, ?_, ?_, rfl⟩
        · exact ⟨fs, vs, t, hfs, hstack, by rw [hmeasures], by rw [hmeasures]; exact hhalted, htext, rfl⟩
        · exact Except.ok.inj (hrecall.symm.trans (recallTags_scalar htags))

/-- Rows that tell the same of an entry. -/
theorem Measured.unique {r r' : Row} (h : e.Measured r) (h' : e.Measured r') :
    r.depth = r'.depth ∧ r.halted = r'.halted ∧ r.textSize = r'.textSize := by
  obtain ⟨fs, vs, t, hfs, hstack, hdepth, hhalted, ht, hsize⟩ := h
  obtain ⟨fs', vs', t', hfs', hstack', hdepth', hhalted', ht', hsize'⟩ := h'
  cases hfs.symm.trans hfs'
  cases hstack.symm.trans hstack'
  cases ht.symm.trans ht'
  have hflag : r.halted = r'.halted := by simpa using hhalted.symm.trans hhalted'
  exact ⟨hdepth.symm.trans hdepth', hflag, hsize.symm.trans hsize'⟩

end Deposit

theorem rows_delete (s : Store) (h : Handle) :
    (s.delete h).2.rows.Sublist s.rows ∧
      ∀ r, r ∈ (s.delete h).2.rows ↔ r ∈ s.rows ∧ ¬ (h = r.handle ∧ s.isOpen = true) := by
  rw [delete]
  split
  · rename_i hopen
    refine ⟨List.filter_sublist, fun r => ?_⟩
    rw [List.mem_filter, decide_eq_true_eq, hopen, eq_comm (a := h)]
    simp only [and_true]
  · rename_i hopen
    exact ⟨.refl _, fun r => ⟨fun hr => ⟨hr, fun hd => hopen hd.2⟩, And.left⟩⟩

/-! ## One use -/

namespace Use

/-- The label holds no NUL, and the tags no surrogates. -/
def Legible (u : Use α) : Prop :=
  ∀ e label tags, u.addition? = some (e, label, tags) →
    (∀ t ∈ label, Label.Seen t) ∧ ∀ ts ∈ tags, ∀ t ∈ ts, Json.Scalar t

/-- An addition that is done, and the row that tells of it. -/
def Writes (hash : Bytes → Handle) (r : Row) (s : Session) (u : Use α) : Prop :=
  ∃ e tags, u.addition? = some (e, r.label, tags) ∧
    (e.add hash s.clock s.store r.label (tagsValue tags)).result = .ok r.handle ∧ e.Measured r ∧
    r.tags = keptTags tags ∧ r.created = s.clock + 1

/-- The row under the handle goes: an addition puts another one in its place, or it is deleted. -/
def Drops (hash : Bytes → Handle) (h : Handle) (s : Session) (u : Use α) : Prop :=
  (∃ e, u.Returns hash e h s) ∨ u.deleted? = some h ∧ s.store.isOpen = true

variable {u : Use α} {s : Session}

/-- A use without an addition takes out the row whose handle it deletes, if the index is open. -/
theorem rows_perform (hash : Bytes → Handle) (s : Session) (hu : u.addition? = none) :
    (u.perform hash s).store.rows.Sublist s.store.rows ∧ (u.perform hash s).clock = s.clock ∧
      ∀ r, r ∈ (u.perform hash s).store.rows ↔
        r ∈ s.store.rows ∧ ¬ (u.deleted? = some r.handle ∧ s.store.isOpen = true) := by
  have hsame (hnone : u.deleted? = none) (r : Row) :
      r ∈ s.store.rows ↔ r ∈ s.store.rows ∧ ¬ (u.deleted? = some r.handle ∧ s.store.isOpen = true) := by
    simp [hnone]
  cases u with
  | call c =>
      cases c with
      | addMachine | addValue => cases hu
      | delete handle =>
          cases hh : Handle.ofText? handle with
          | none =>
              have hstay : (call (.delete handle) : Use α).perform hash s = s := by
                simp only [perform, Call.perform, handleOf, hh]
              rw [hstay]
              exact ⟨.refl _, rfl, hsame hh⟩
          | some h =>
              have hdelete : (call (.delete handle) : Use α).perform hash s = { s with store := (s.store.delete h).2 } := by
                simp only [perform, Call.perform, handleOf, hh]
              have hdeleted : (call (.delete handle) : Use α).deleted? = some h := hh
              obtain ⟨hsublist, hmem⟩ := rows_delete s.store h
              rw [hdelete, hdeleted]
              exact ⟨hsublist, rfl, fun r => by rw [hmem, Option.some.injEq]⟩
      | get | load | contains | query | list | stats | reopen => exact ⟨.refl _, rfl, hsame rfl⟩
  | close => exact ⟨.refl _, rfl, hsame rfl⟩

section

variable {e : Deposit α} {label : Option Text} {tags : Option (List Text)} (hadd : u.addition? = some (e, label, tags))
include hadd

theorem writes_of_addition {r : Row} : u.Writes hash r s ↔ r.label = label ∧
    (e.add hash s.clock s.store label (tagsValue tags)).result = .ok r.handle ∧ e.Measured r ∧
    r.tags = keptTags tags ∧ r.created = s.clock + 1 := by
  constructor
  · rintro ⟨e', tags', he, hwritten⟩
    cases hadd.symm.trans he
    exact ⟨rfl, hwritten⟩
  · rintro ⟨rfl, hwritten⟩
    exact ⟨e, tags, hadd, hwritten⟩

theorem drops_of_addition {h : Handle} :
    u.Drops hash h s ↔ (e.add hash s.clock s.store label (tagsValue tags)).result = .ok h := by
  constructor
  · rintro (⟨e', label', tags', he, hok⟩ | ⟨he, -⟩)
    · cases hadd.symm.trans he
      exact hok
    · cases (deleted?_of_addition (by rw [hadd]; rfl)).symm.trans he
  · exact fun hok => .inl ⟨e, label, tags, hadd, hok⟩

end

/-- Behind a use there is the row that it writes, and each other one that it does not take away. -/
theorem mem_rows_perform (hu : u.Legible) {r : Row} :
    r ∈ (u.perform hash s).store.rows ↔ u.Writes hash r s ∨ r ∈ s.store.rows ∧ ¬ u.Drops hash r.handle s := by
  cases hadd : u.addition? with
  | none =>
      have hwrites : ¬ u.Writes hash r s := by
        rintro ⟨e, tags, he, -⟩
        cases hadd.symm.trans he
      have hreturns : ¬ ∃ e, u.Returns hash e r.handle s := by
        rintro ⟨e, label, tags, he, -⟩
        cases hadd.symm.trans he
      rw [(rows_perform hash s hadd).2.2 r, Drops]
      tauto
  | some addition =>
      obtain ⟨e, label, tags⟩ := addition
      rw [perform_add hadd, writes_of_addition hadd, drops_of_addition hadd]
      simp only [Session.ofAdded]
      cases hresult : (e.add hash s.clock s.store label (tagsValue tags)).result with
      | error err =>
          rw [Deposit.rows_failed hresult]
          simp
      | ok h =>
          obtain ⟨-, row, hrows, hhandle, hlabel, hrow, htags, hcreated⟩ :=
            Deposit.rows_added (hu e label tags hadd).2 hresult
          have hwritten : (r.label = label ∧ (.ok h : Except StoreError Handle) = .ok r.handle ∧ e.Measured r ∧
              r.tags = keptTags tags ∧ r.created = s.clock + 1) ↔ r = row := by
            constructor
            · rintro ⟨hrlabel, hok, hr, hrtags, hrcreated⟩
              cases hok
              obtain ⟨hdepth, hhalted, hsize⟩ := hr.unique hrow
              cases r; cases row
              simp_all
            · rintro rfl
              exact ⟨hlabel, congrArg Except.ok hhandle.symm, hrow, htags, hcreated⟩
          rw [hrows, List.mem_append, List.mem_filter, decide_eq_true_eq, List.mem_singleton, hwritten, or_comm, ne_eq,
            Except.ok.injEq, eq_comm (a := h)]

end Use

/-- The rows stand in the order of their times, and the clock has told each of them. -/
structure Session.Timed (s : Session) : Prop where
  rows : s.store.rows.Pairwise fun a b => a.created < b.created
  told : ∀ r ∈ s.store.rows, r.created ≤ s.clock

theorem Session.Timed.perform {u : Use α} (hu : u.Legible) {s : Session} (hs : s.Timed) : (u.perform hash s).Timed := by
  cases hadd : u.addition? with
  | none =>
      obtain ⟨hsublist, hclock, -⟩ := Use.rows_perform hash s hadd
      exact ⟨hs.rows.sublist hsublist, fun r hr => hclock ▸ hs.told r (hsublist.subset hr)⟩
  | some addition =>
      obtain ⟨e, label, tags⟩ := addition
      rw [Use.perform_add hadd]
      cases hresult : (e.add hash s.clock s.store label (tagsValue tags)).result with
      | error err =>
          have hrows := Deposit.rows_failed hresult
          refine ⟨?_, fun r hr => ?_⟩
          · rw [Session.ofAdded, hrows]
            exact hs.rows
          · rw [Session.ofAdded, hrows] at hr
            exact (hs.told r hr).trans (Deposit.clock_le _)
      | ok h =>
          obtain ⟨hclock, row, hrows, -, -, -, -, hcreated⟩ := Deposit.rows_added (hu e label tags hadd).2 hresult
          have hkept : ∀ r ∈ s.store.rows.filter (fun r => r.handle ≠ h), r.created ≤ s.clock :=
            fun r hr => hs.told r (List.mem_of_mem_filter hr)
          refine ⟨?_, fun r hr => ?_⟩
          · rw [Session.ofAdded, hrows, List.pairwise_append]
            refine ⟨hs.rows.filter _, List.pairwise_singleton .., fun r hr r' hr' => ?_⟩
            rw [List.mem_singleton.1 hr', hcreated]
            exact Nat.lt_succ_of_le (hkept r hr)
          · rw [Session.ofAdded, hrows, List.mem_append, List.mem_singleton] at hr
            rw [Session.ofAdded, hclock]
            rcases hr with hr | rfl
            · exact Nat.le_succ_of_le (hkept r hr)
            · exact hcreated.le

/-! ## Runs -/

/-- One of the uses writes the row, and none behind it takes it away. -/
def Stands (hash : Bytes → Handle) (r : Row) (uses : List (Use α)) (s : Session) : Prop :=
  ∃ before u after, uses = before ++ u :: after ∧ u.Writes hash r (useAll hash before s) ∧
    ∀ between w rest, after = between ++ w :: rest →
      ¬ w.Drops hash r.handle (useAll hash (before ++ u :: between) s)

theorem stands_concat {r : Row} {uses : List (Use α)} {u : Use α} {s : Session} :
    Stands hash r (uses ++ [u]) s ↔
      u.Writes hash r (useAll hash uses s) ∨ Stands hash r uses s ∧ ¬ u.Drops hash r.handle (useAll hash uses s) := by
  constructor
  · rintro ⟨before, w, after, huses, hw, hafter⟩
    rcases List.eq_nil_or_concat after with rfl | ⟨after, last, rfl⟩
    · obtain ⟨rfl, hlast⟩ := List.append_inj' huses rfl
      cases hlast
      exact .inl hw
    · rw [List.concat_eq_append] at *
      rw [← List.cons_append, ← List.append_assoc] at huses
      obtain ⟨rfl, hlast⟩ := List.append_inj' huses rfl
      cases hlast
      refine .inr ⟨⟨before, w, after, rfl, hw, fun between x rest hsplit => ?_⟩, hafter after u [] rfl⟩
      exact hafter between x (rest ++ [u]) (by rw [hsplit, List.append_assoc, List.cons_append])
  · rintro (hu | ⟨⟨before, w, after, rfl, hw, hafter⟩, hu⟩)
    · refine ⟨uses, u, [], rfl, hu, fun between w rest hsplit => ?_⟩
      cases between <;> cases hsplit
    · refine ⟨before, w, after ++ [u], by simp, hw, fun between x rest hsplit => ?_⟩
      rcases List.eq_nil_or_concat rest with rfl | ⟨rest, last, rfl⟩
      · obtain ⟨rfl, hlast⟩ := List.append_inj' hsplit rfl
        cases hlast
        exact hu
      · rw [List.concat_eq_append, ← List.cons_append, ← List.append_assoc] at hsplit
        obtain ⟨rfl, -⟩ := List.append_inj' hsplit rfl
        exact hafter between x rest rfl

theorem useAll_timed {uses : List (Use α)} (hlegible : ∀ u ∈ uses, u.Legible) {s : Session} (hs : s.Timed) :
    (useAll hash uses s).Timed := by
  induction uses generalizing s with
  | nil => exact hs
  | cons u uses ih =>
      obtain ⟨hu, huses⟩ := List.forall_mem_cons.1 hlegible
      exact ih huses (hs.perform hu)

/-- The rows are just those that stand. -/
theorem mem_rows_useAll {uses : List (Use α)} (hlegible : ∀ u ∈ uses, u.Legible) {s : Session}
    (hempty : s.store.rows = []) (r : Row) : r ∈ (useAll hash uses s).store.rows ↔ Stands hash r uses s := by
  induction uses using List.reverseRecOn with
  | nil =>
      rw [useAll, List.foldl_nil, hempty]
      refine ⟨nofun, ?_⟩
      rintro ⟨before, u, after, hnil, -⟩
      cases before <;> cases hnil
  | append_singleton uses u ih =>
      obtain ⟨huses, hu⟩ := List.forall_mem_append.1 hlegible
      rw [useAll_concat, Use.mem_rows_perform (hu u (List.mem_singleton_self u)), ih huses, stands_concat]

/-! ## Queries -/

theorem boundPattern_admissible {filter : Option Text} (h : ∀ t ∈ filter, Label.Admissible t) :
    ∃ pattern, boundPattern filter = .ok pattern ∧ ¬ Label.maxBytes < pattern.length := by
  rcases filter with _ | _ | ⟨c, t⟩
  · exact ⟨[], rfl, nofun⟩
  · exact ⟨[], rfl, nofun⟩
  · have hadmissible := h (c :: t) rfl
    have hbytes := Text.toUtf8_of_scalar (Label.scalar_pattern hadmissible.scalar)
    exact ⟨_, hbytes, Nat.not_lt.2 (hadmissible.short _ hbytes)⟩

theorem boundLimit_natCast (limit : Nat) :
    boundLimit limit = if limit < integerBound then .ok (limit : Int) else .error .limitTooLarge := by
  have hiff : (-(integerBound : Int) ≤ limit ∧ (limit : Int) < integerBound) ↔ limit < integerBound := by omega
  simp only [boundLimit, hiff]

theorem passes_iff_meets {filter : Option Text} (h : ∀ t ∈ filter, Label.Admissible t) {halted : Option Bool} {r : Row}
    (hr : ∀ t ∈ r.label, Label.Seen t) : passes filter halted r = true ↔ r.Meets filter halted := by
  have hhalted : passes none halted r = true ↔ ∀ b ∈ halted, r.halted = b := by
    cases halted <;> simp [passes]
  have hboth : passes filter halted r = true ↔
      (∀ t ∈ filter, t ≠ [] → ∃ l, r.label = some l ∧ Label.Contains l t) ∧ passes none halted r = true := by
    rcases filter with _ | _ | ⟨c, t⟩
    · simp
    · simp [passes]
    · cases hl : r.label with
      | none => simp [passes, hl]
      | some l =>
          have hpasses := Label.passes_iff (h (c :: t) rfl).seen (hr l hl)
          simp [passes, hl, hpasses]
  rw [hboth, hhalted]
  exact ⟨fun h => ⟨h.1, h.2⟩, fun h => ⟨h.1, h.2⟩⟩

/-- What an open store gives, if the index takes the pattern and the limit. -/
theorem query_eq {s : Store} (hopen : s.isOpen = true) {label : Option Text} {pattern : Bytes}
    (hpattern : boundPattern label = .ok pattern) (hshort : ¬ Label.maxBytes < pattern.length) {limit : Int}
    (hlimit : boundLimit limit = .ok limit) (halted : Option Bool) :
    s.query label halted limit =
      .ok (limited limit ((s.rows.filter (passes label halted)).mergeSort fun a b => a.created ≤ b.created)) := by
  have hfits : ¬ (Label.maxBytes < pattern.length ∧ (!s.rows.isEmpty) = true) := fun hlong => hshort hlong.1
  rw [query, hopen, hpattern, hlimit]
  simp only [Bool.not_true, Bool.false_eq_true, ↓reduceIte, if_neg hfits]

/-- An open store gives the first rows that pass, in the order in which it keeps them. -/
theorem query_timed {s : Session} (hs : s.Timed) (hopen : s.store.isOpen = true) {filter : Option Text}
    (h : ∀ t ∈ filter, Label.Admissible t) (halted : Option Bool) (limit : Nat) :
    s.store.query filter halted limit = if limit < integerBound then
      .ok ((s.store.rows.filter (passes filter halted)).take limit) else .error .limitTooLarge := by
  have hsorted : (s.store.rows.filter (passes filter halted)).Pairwise fun a b => a.created ≤ b.created :=
    (hs.rows.filter _).imp Nat.le_of_lt
  have hsame : (s.store.rows.filter (passes filter halted)).mergeSort (fun a b => a.created ≤ b.created) =
      s.store.rows.filter (passes filter halted) :=
    List.mergeSort_of_pairwise (hsorted.imp decide_eq_true)
  obtain ⟨pattern, hpattern, hshort⟩ := boundPattern_admissible h
  have hnonneg : ¬ (limit : Int) < 0 := Int.not_lt.2 (Int.natCast_nonneg limit)
  have hbound := boundLimit_natCast limit
  by_cases hlimit : limit < integerBound
  · rw [if_pos hlimit] at hbound
    rw [query_eq hopen hpattern hshort hbound, if_pos hlimit, hsame, limited, if_neg hnonneg, Int.toNat_natCast]
  · rw [if_neg hlimit] at hbound
    rw [if_neg hlimit, query, hopen, hpattern, hbound]
    rfl

/-- Whatever is done with an empty store, a query gives the first rows of those whose labels contain the filter and
whose flags are as they should be, in the order of their times, if the index takes the limit. Each row tells of the last
addition under its handle, and there is one for each handle that is added and not deleted since. -/
theorem query_rows (hash : Bytes → Handle) (uses : List (Use α)) (hlegible : ∀ u ∈ uses, u.Legible) (clock : Nat)
    (filter : Option Text) (hfilter : ∀ t ∈ filter, Label.Admissible t) (halted : Option Bool) (limit : Nat) :
    let start : Session := ⟨.empty, clock⟩
    let s := (useAll hash uses start).store
    s.isOpen = true →
      ∃ rows : List Row,
        s.query filter halted limit =
          (if limit < integerBound then .ok (rows.take limit) else .error .limitTooLarge) ∧
        rows.Pairwise (fun a b => a.created < b.created) ∧
        ∀ r, r ∈ rows ↔ Stands hash r uses start ∧ r.Meets filter halted := by
  intro start s hopen
  have htimed : (useAll hash uses start).Timed := useAll_timed hlegible ⟨.nil, nofun⟩
  have hmem (r : Row) : r ∈ s.rows ↔ Stands hash r uses start := mem_rows_useAll hlegible rfl r
  refine ⟨_, query_timed htimed hopen hfilter halted limit, htimed.rows.filter _, fun r => ?_⟩
  rw [List.mem_filter, hmem]
  refine and_congr_right fun hstands => passes_iff_meets hfilter fun t ht => ?_
  obtain ⟨before, u, after, huses, ⟨e, tags, hadd, -⟩, -⟩ := hstands
  exact (hlegible u (huses ▸ by simp) e _ tags hadd).1 t ht

/-- The first tree is added once more under another label, so its row comes last. -/
def relabelled : List (Use Empty) :=
  [.call (.addMachine (.ofRoot (.literal (.int 1))) (some "100%_A") (some ["x"])),
    .call (.addMachine (.ofRoot (.literal (.int 12))) (some "50%_a b") (some ["y", "z"])),
    .call (.addMachine (.ofRoot (.literal (.int 123))) (some "5 percent a") none),
    .call (.addMachine (.ofRoot (.literal (.int 1))) (some "5%_A") none)]

theorem legible_relabelled : ∀ u ∈ relabelled, u.Legible := by
  have hadd (m : Machine Empty) (l : String) (tags : Option (List Text)) (hl : Label.Seen (l : Text))
      (htags : ∀ ts ∈ tags, ∀ t ∈ ts, Json.Scalar t) : (Use.call (.addMachine m (some (l : Text)) tags)).Legible := by
    rintro _ _ _ ⟨⟩
    exact ⟨by rintro _ ⟨⟩; exact hl, htags⟩
  simp only [relabelled, List.forall_mem_cons]
  exact ⟨hadd _ "100%_A" _ (by decide) (by decide), hadd _ "50%_a b" _ (by decide) (by decide),
    hadd _ "5 percent a" _ (by decide) nofun, hadd _ "5%_A" _ (by decide) nofun, nofun⟩

theorem query_rows_relabelled :
    let start : Session := ⟨.empty, 0⟩
    let s := (useAll sampleHash relabelled start).store
    (∀ u ∈ relabelled, u.Legible) ∧ Label.Admissible "%_A" ∧ s.isOpen = true ∧
      ∃ rows : List Row, s.query (some "%_A") (some false) (2 : Nat) = .ok (rows.take 2) ∧
        (rows.take 2).map (·.label) = [some ("50%_a b" : Text), some ("5%_A" : Text)] ∧
        ∀ r, r ∈ rows ↔ Stands sampleHash r relabelled start ∧ r.Meets (some "%_A") (some false) := by
  intro start s
  have hadmissible : Label.Admissible "%_A" := by
    refine ⟨by decide, by decide, fun bytes hbytes => ?_⟩
    rw [Text.toUtf8_of_scalar (by decide)] at hbytes
    cases hbytes
    decide
  have hfilter : ∀ t ∈ some ("%_A" : Text), Label.Admissible t := by
    rintro _ ⟨⟩
    exact hadmissible
  have hopen : s.isOpen = true := by decide +kernel
  have hlimit : 2 < integerBound := by decide
  have hfound : ((s.rows.filter (passes (some "%_A") (some false))).take 2).map (·.label) =
      [some ("50%_a b" : Text), some ("5%_A" : Text)] := by decide +kernel
  obtain ⟨rows, hquery, -, hrows⟩ := query_rows sampleHash relabelled legible_relabelled 0 _ hfilter (some false) 2 hopen
  rw [if_pos hlimit] at hquery
  have htimed : (useAll sampleHash relabelled start).Timed := useAll_timed legible_relabelled ⟨.nil, nofun⟩
  have hfirst := query_timed htimed hopen hfilter (some false) 2
  rw [if_pos hlimit] at hfirst
  have hsame := Except.ok.inj (hquery.symm.trans hfirst)
  exact ⟨legible_relabelled, hadmissible, hopen, rows, hquery, by rw [hsame]; exact hfound, hrows⟩

/-- A limit that is no integer of 64 bits is refused, although the index is open and has rows to give. -/
theorem query_limit_refused :
    let s := (useAll sampleHash relabelled ⟨.empty, 0⟩).store
    (∀ u ∈ relabelled, u.Legible) ∧ s.isOpen = true ∧
      s.query none none ((2 ^ 63 : Nat) : Int) = .error .limitTooLarge ∧
      ¬ ∃ rows : List Row, s.query none none ((2 ^ 63 : Nat) : Int) = .ok (rows.take (2 ^ 63)) := by
  intro s
  have hopen : s.isOpen = true := by decide +kernel
  have hrefused : s.query none none ((2 ^ 63 : Nat) : Int) = .error .limitTooLarge := by
    have hbound : boundLimit ((2 ^ 63 : Nat) : Int) = .error .limitTooLarge := by decide
    rw [query, hopen, boundPattern, hbound]
    rfl
  refine ⟨legible_relabelled, hopen, hrefused, ?_⟩
  rintro ⟨rows, hrows⟩
  cases hrefused.symm.trans hrows

end Store
end Pausable
