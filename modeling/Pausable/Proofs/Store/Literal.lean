import Pausable.Proofs.Store.Queried
import Pausable.Proofs.Store.SameState

/-!
Which filters on labels are taken literally (`query_literal`). The index does not tell a letter of ASCII from its other
case, and it does not see what stands behind a NUL. A filter without letters and NULs finds only labels that contain it
as it is; for every other filter there is a label that passes and does not contain it.
-/
namespace Pausable

namespace CodePoint

theorem asciiLower_eq_self {c : CodePoint} (h : c.isAsciiLetter = false) : c.asciiLower = c := by
  refine dif_neg fun hcapital => ?_
  simp [isAsciiLetter, hcapital] at h

theorem eq_of_asciiLower {c d : CodePoint} (hc : c.isAsciiLetter = false) (h : c.asciiLower = d.asciiLower) : c = d := by
  rw [asciiLower_eq_self hc] at h
  by_cases hd : 0x41 ≤ d.val ∧ d.val ≤ 0x5A
  · rw [asciiLower, dif_pos hd] at h
    subst h
    simp only [isAsciiLetter, Bool.or_eq_false_iff, Bool.and_eq_false_iff, decide_eq_false_iff_not] at hc
    omega
  · rw [h, asciiLower, dif_neg hd]

/-- A letter of ASCII in its other case. -/
def otherCase (c : CodePoint) : CodePoint :=
  if 0x61 ≤ c.val ∧ c.val ≤ 0x7A then ⟨c.val - 0x20, Nat.lt_of_le_of_lt (Nat.sub_le ..) c.isLt⟩ else c.asciiLower

theorem asciiLower_otherCase (c : CodePoint) : c.otherCase.asciiLower = c.asciiLower := by
  by_cases hsmall : 0x61 ≤ c.val ∧ c.val ≤ 0x7A
  · have hcapital : ¬ (0x41 ≤ c.val ∧ c.val ≤ 0x5A) := by omega
    have hback : c.val - 0x20 + 0x20 = c.val := by omega
    have hlarge : 0x41 ≤ c.val - 0x20 ∧ c.val - 0x20 ≤ 0x5A := by omega
    simp only [otherCase, if_pos hsmall, asciiLower, dif_neg hcapital, dif_pos hlarge, hback]
  · rw [otherCase, if_neg hsmall]
    by_cases hcapital : 0x41 ≤ c.val ∧ c.val ≤ 0x5A
    · have hfolded : ¬ c.val + 0x20 ≤ 0x5A := by omega
      simp only [asciiLower, dif_pos hcapital, hfolded, and_false, ↓reduceDIte]
    · simp only [asciiLower, dif_neg hcapital]

theorem otherCase_cases (c : CodePoint) :
    c.isAsciiLetter = true ∧ c.otherCase.isAsciiLetter = true ∧ c.otherCase ≠ c ∨
      c.isAsciiLetter = false ∧ c.otherCase = c := by
  cases hletter : c.isAsciiLetter with
  | false =>
      have hsmall : ¬ (0x61 ≤ c.val ∧ c.val ≤ 0x7A) := fun hsmall => by simp [isAsciiLetter, hsmall] at hletter
      exact .inr ⟨rfl, by rw [otherCase, if_neg hsmall, asciiLower_eq_self hletter]⟩
  | true =>
      refine .inl ⟨rfl, ?_⟩
      obtain ⟨n, hn⟩ := c
      simp only [isAsciiLetter, Bool.or_eq_true, Bool.and_eq_true, decide_eq_true_eq] at hletter
      rcases hletter with hcapital | hsmall
      · have hlarge : ¬ 0x61 ≤ n := by omega
        simp [otherCase, asciiLower, isAsciiLetter, hcapital, hlarge]
      · simp [otherCase, isAsciiLetter, hsmall]
        omega

theorem seen_of_isAsciiLetter {c : CodePoint} (h : c.isAsciiLetter = true) : c.val ≠ 0 ∧ c.isSurrogate = false := by
  simp only [isAsciiLetter, Bool.or_eq_true, Bool.and_eq_true, decide_eq_true_eq] at h
  simp only [isSurrogate, Bool.and_eq_false_iff, decide_eq_false_iff_not]
  omega

end CodePoint

namespace Label

/-- A filter in which each code point stands for itself: there are no letters of ASCII, and no NUL. -/
structure Literal (filter : Text) : Prop where
  caseless : ∀ c ∈ filter, c.isAsciiLetter = false
  seen : Seen filter

/-- The index takes the pattern for the filter. -/
def Bindable (filter : Text) : Prop := ∃ bytes, (pattern filter).toUtf8 = .ok bytes ∧ bytes.length ≤ maxBytes

theorem Bindable.scalar {filter : Text} (h : Bindable filter) : Json.Scalar filter := by
  obtain ⟨bytes, hbytes, -⟩ := h
  intro c hc
  have hmarked : c ∈ marked filter := List.mem_flatMap.2 ⟨c, hc, by split <;> simp⟩
  exact Text.scalar_of_toUtf8 hbytes c (List.mem_append_left _ (List.mem_append_right _ hmarked))

theorem contains_seen {filter label : Text} (h : passes filter label = true) : Contains (seen label) (seen filter) := by
  obtain ⟨front, piece, back, hlabel, hpiece, -⟩ := passes_iff_piece.1 h
  exact contains_iff_piece.2 ⟨front, piece, back, hlabel, hpiece⟩

theorem eq_of_map_asciiLower {t u : Text} (ht : ∀ c ∈ t, c.isAsciiLetter = false)
    (h : t.map CodePoint.asciiLower = u.map CodePoint.asciiLower) : t = u := by
  induction t generalizing u with
  | nil => exact (List.map_eq_nil_iff.1 h.symm).symm
  | cons c t ih =>
      cases u with
      | nil => cases h
      | cons d u =>
          obtain ⟨hc, ht⟩ := List.forall_mem_cons.1 ht
          obtain ⟨hcd, htu⟩ := List.cons.inj h
          rw [CodePoint.eq_of_asciiLower hc hcd, ih ht htu]

theorem Literal.within {filter label : Text} (hfilter : Literal filter) (h : passes filter label = true) :
    filter <:+: label := by
  obtain ⟨front, piece, back, hlabel, hpiece, -⟩ := passes_iff_piece.1 h
  rw [hfilter.seen.seen] at hpiece
  have hseen : filter <:+: Label.seen label := by
    rw [hlabel, eq_of_map_asciiLower hfilter.caseless hpiece, ← List.append_assoc]
    exact ⟨front, back, rfl⟩
  exact hseen.trans (List.takeWhile_prefix _).isInfix

theorem passes_otherCase {filter : Text} (hseen : Seen filter) : passes filter (filter.map CodePoint.otherCase) = true := by
  have hlabel : Seen (filter.map CodePoint.otherCase) := by
    intro d hd
    obtain ⟨c, hc, rfl⟩ := List.mem_map.1 hd
    rcases c.otherCase_cases with ⟨-, h, -⟩ | ⟨-, h⟩
    · exact (CodePoint.seen_of_isAsciiLetter h).1
    · rw [h]
      exact hseen c hc
  rw [passes_iff hseen hlabel, Contains, List.map_map]
  have hsame : CodePoint.asciiLower ∘ CodePoint.otherCase = CodePoint.asciiLower :=
    funext CodePoint.asciiLower_otherCase
  rw [hsame]

theorem passes_seen (filter : Text) : passes filter (seen filter) = true :=
  passes_iff_piece.2 ⟨[], seen filter, [], by rw [(seen_seen filter).seen, List.append_nil, List.nil_append], rfl, .inr rfl⟩

theorem exists_passes_not_within {filter : Text} (hscalar : Json.Scalar filter) (h : ¬ Literal filter) :
    ∃ label, Json.Scalar label ∧ passes filter label = true ∧ ¬ filter <:+: label := by
  by_cases hseen : Seen filter
  · obtain ⟨c, hc, hletter⟩ : ∃ c ∈ filter, c.isAsciiLetter = true := by
      by_contra hnone
      exact h ⟨fun c hc => Bool.eq_false_iff.2 fun hletter => hnone ⟨c, hc, hletter⟩, hseen⟩
    -- The filter itself, with all its letters in the other case, is a label that passes.
    refine ⟨filter.map CodePoint.otherCase, ?_, passes_otherCase hseen, fun hwithin => ?_⟩
    · intro d hd
      obtain ⟨c, hc, rfl⟩ := List.mem_map.1 hd
      rcases c.otherCase_cases with ⟨-, h, -⟩ | ⟨-, h⟩
      · exact (CodePoint.seen_of_isAsciiLetter h).2
      · rw [h]
        exact hscalar c hc
    · have hsame : filter.map CodePoint.otherCase = filter.map id := by
        rw [List.map_id, ← hwithin.eq_of_length (List.length_map ..).symm]
      rcases c.otherCase_cases with ⟨-, -, hne⟩ | ⟨h, -⟩
      · exact hne (List.map_inj_left.1 hsame c hc)
      · cases hletter.symm.trans h
  · -- What stands before the NUL of the filter is enough of a label.
    refine ⟨seen filter, fun c hc => hscalar c ((List.takeWhile_prefix _).subset hc), passes_seen filter, fun hwithin => ?_⟩
    exact hseen fun c hc => seen_seen filter c (hwithin.subset hc)

end Label

namespace Store

/-! ## Queries with a filter -/

theorem passes_some {filter : Text} (hne : filter ≠ []) {halted : Option Bool} {r : Row} :
    passes (some filter) halted r = true ↔
      (∃ l, r.label = some l ∧ Label.passes filter l = true) ∧ passes none halted r = true := by
  obtain ⟨c, t, rfl⟩ := List.exists_cons_of_ne_nil hne
  cases hl : r.label <;> simp [passes, hl]

theorem boundPattern_some {filter : Text} (hne : filter ≠ []) :
    boundPattern (some filter) = (Label.pattern filter).toUtf8 := by
  obtain ⟨c, t, rfl⟩ := List.exists_cons_of_ne_nil hne
  rfl

theorem mem_of_mem_limited {limit : Int} {rows : List Row} {r : Row} (h : r ∈ limited limit rows) : r ∈ rows := by
  unfold limited at h
  split at h
  · exact h
  · exact List.mem_of_mem_take h

/-- The index has taken the filter of a query that gives rows, and these are rows that pass. -/
theorem query_filtered {s : Store} {filter : Text} (hne : filter ≠ []) {halted : Option Bool} {limit : Int}
    {rows : List Row} (h : s.query (some filter) halted limit = .ok rows) {r : Row} (hr : r ∈ rows) :
    Label.Bindable filter ∧ ∃ l, r.label = some l ∧ Label.passes filter l = true := by
  rw [query, boundPattern_some hne] at h
  split at h
  · cases h
  split at h
  · cases h
  rename_i bytes hbytes
  split at h
  · cases h
  split at h
  · cases h
  rename_i hfits
  cases h
  obtain ⟨hstored, hpasses⟩ := List.mem_filter.1 (List.mem_mergeSort.1 (mem_of_mem_limited hr))
  have hsome : s.rows.isEmpty = false := List.isEmpty_eq_false_iff_exists_mem.2 ⟨r, hstored⟩
  rw [hsome] at hfits
  exact ⟨⟨bytes, hbytes, Nat.not_lt.1 fun hlong => hfits ⟨hlong, rfl⟩⟩, ((passes_some hne).1 hpasses).1⟩

/-- An open store gives all rows that pass, if the index takes the filter and no limit is set. -/
theorem query_unlimited {s : Store} (hopen : s.isOpen = true) {filter : Text} (hne : filter ≠ [])
    (hfilter : Label.Bindable filter) :
    ∃ rows, s.query (some filter) none (-1) = .ok rows ∧
      ∀ r ∈ s.rows, passes (some filter) none r = true → r ∈ rows := by
  obtain ⟨bytes, hbytes, hshort⟩ := hfilter
  rw [← boundPattern_some hne] at hbytes
  have hlimit : boundLimit (-1) = .ok (-1) := by decide
  refine ⟨_, query_eq hopen hbytes (Nat.not_lt.2 hshort) hlimit none, fun r hr hpasses => ?_⟩
  exact List.mem_mergeSort.2 (List.mem_filter.2 ⟨hr, hpasses⟩)

section

variable {α : Type} [Strange α] {hash : Bytes → Handle}

def literalOne : Machine α := .ofRoot (.literal (.int 1))

/-- A store that holds one row, with any label that the index takes. -/
theorem exists_labelled (α : Type) [Strange α] (hash : Bytes → Handle) {label : Text} (hlabel : Json.Scalar label) :
    ∃ uses : List (Use α), ∃ r : Row, r.label = some label ∧
      (useAll hash uses ⟨.empty, 0⟩).store.isOpen = true ∧ r ∈ (useAll hash uses ⟨.empty, 0⟩).store.rows := by
  let e : Deposit α := .machine literalOne
  have hrecord : e.record? = some [literalStack, Value.named "halted" (.bool false)] := rfl
  have hsome : ((Wire.write (.record [literalStack, Value.named "halted" (.bool false)])).toOption.bind
      fun t => t.toAscii.toOption).isSome = true := by
    decide +kernel
  rw [← Deposit.bytes?_of_record hrecord] at hsome
  obtain ⟨bytes, hbytes⟩ := Option.isSome_iff_exists.1 hsome
  have hscalar : ∀ t ∈ some label, Json.Scalar t := by
    rintro _ ⟨⟩
    exact hlabel
  have hadd : (e.add hash 0 .empty (some label) (tagsValue none)).result = .ok (hash bytes) :=
    add_free rfl hscalar hbytes nofun
  have htags : ∀ ts ∈ (none : Option (List Text)), ∀ t ∈ ts, Json.Scalar t := nofun
  obtain ⟨-, row, hrows, -, hrow, -⟩ := Deposit.rows_added htags hadd
  have hconsistent : (e.add hash 0 .empty (some label) (tagsValue none)).store.Consistent hash :=
    Consistent.empty.add hscalar
  refine ⟨[.call (.addMachine literalOne (some label) none)], row, hrow, hconsistent.isOpen, ?_⟩
  exact hrows ▸ List.mem_append_right _ (List.mem_singleton_self row)

/-- The rows that a query with the filter gives, whatever has been done with the store before. -/
def Found (α : Type) [Strange α] (hash : Bytes → Handle) (filter : Text) (rows : List Row) : Prop :=
  ∃ (uses : List (Use α)) (clock : Nat) (halted : Option Bool) (limit : Int),
    (useAll hash uses ⟨.empty, clock⟩).store.query (some filter) halted limit = .ok rows

/-- Each row that a filter finds has a label that contains the filter, as far as both are seen and but for the case of
letters. All rows that it can find contain it as it is just if it is literal, or the index does not take it. -/
theorem query_literal (hash : Bytes → Handle) {filter : Text} (hne : filter ≠ []) :
    (∀ rows, Found α hash filter rows → ∀ r ∈ rows,
      ∃ l, r.label = some l ∧ Label.Contains (Label.seen l) (Label.seen filter)) ∧
    ((∀ rows, Found α hash filter rows → ∀ r ∈ rows, ∃ l, r.label = some l ∧ filter <:+: l) ↔
      (Label.Bindable filter → Label.Literal filter)) := by
  constructor
  · rintro rows ⟨uses, clock, halted, limit, hquery⟩ r hr
    obtain ⟨-, l, hl, hpasses⟩ := query_filtered hne hquery hr
    exact ⟨l, hl, Label.contains_seen hpasses⟩
  constructor
  · intro hfound hbindable
    by_contra hliteral
    obtain ⟨label, hscalar, hpasses, hwithin⟩ := Label.exists_passes_not_within hbindable.scalar hliteral
    obtain ⟨uses, r, hlabel, hopen, hr⟩ := exists_labelled α hash hscalar
    obtain ⟨rows, hquery, hrows⟩ := query_unlimited hopen hne hbindable
    have hrow : passes (some filter) none r = true := (passes_some hne).2 ⟨⟨label, hlabel, hpasses⟩, rfl⟩
    obtain ⟨l, hl, hcontains⟩ := hfound rows ⟨uses, 0, none, -1, hquery⟩ r (hrows r hr hrow)
    cases hlabel.symm.trans hl
    exact hwithin hcontains
  · rintro hliteral rows ⟨uses, clock, halted, limit, hquery⟩ r hr
    obtain ⟨hbindable, l, hl, hpasses⟩ := query_filtered hne hquery hr
    exact ⟨l, hl, (hliteral hbindable).within hpasses⟩

end

theorem query_literal_marks :
    let s := (useAll sampleHash relabelled ⟨.empty, 0⟩).store
    ("0%_" : Text) ≠ [] ∧ Label.Literal "0%_" ∧ ∃ rows, s.query (some "0%_") none 100 = .ok rows ∧
      rows.map (·.label) = [some ("50%_a b" : Text)] ∧ ∀ r ∈ rows, ∃ l, r.label = some l ∧ ("0%_" : Text) <:+: l := by
  intro s
  have hne : ("0%_" : Text) ≠ [] := by decide
  have hliteral : Label.Literal "0%_" := ⟨by decide, by decide⟩
  have hfound : ((s.query (some "0%_") none 100).toOption.map fun rows => rows.map (·.label)) =
      some [some ("50%_a b" : Text)] := by
    decide +kernel
  obtain ⟨rows, hrows, hlabels⟩ := Option.map_eq_some_iff.1 hfound
  have hquery := ok_of_toOption hrows
  have hexact := ((query_literal (α := Empty) sampleHash hne).2.2 fun _ => hliteral) rows ⟨relabelled, 0, none, 100, hquery⟩
  exact ⟨hne, hliteral, rows, hquery, hlabels, hexact⟩

/-- A filter in small letters finds a label in capital ones, which does not contain it. -/
theorem capitals_found :
    let uses : List (Use Empty) := [.call (.addMachine (.ofRoot (.literal (.int 1))) (some "ABC") none)]
    let s := (useAll sampleHash uses ⟨.empty, 0⟩).store
    (s.query (some "abc") none 100).toOption.map (fun rows => rows.map (·.label)) = some [some ("ABC" : Text)] ∧
      ¬ ("abc" : Text) <:+: ("ABC" : Text) := by
  decide +kernel

end Store
end Pausable
