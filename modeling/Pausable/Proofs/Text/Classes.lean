import Pausable.Text.Classes

/-! No blank is a digit or part of a word: the runs of the classes lie beside each other. -/
namespace Pausable.CodePoint

/-- No run of the one list meets a run of the other. -/
def Apart (rs qs : List (Nat × Nat)) : Prop := ∀ r ∈ rs, ∀ q ∈ qs, r.2 < q.1 ∨ q.2 < r.1

instance (rs qs : List (Nat × Nat)) : Decidable (Apart rs qs) :=
  inferInstanceAs (Decidable (∀ r ∈ rs, ∀ q ∈ qs, r.2 < q.1 ∨ q.2 < r.1))

theorem inRuns_iff {rs : List (Nat × Nat)} {c : CodePoint} :
    c.inRuns rs = true ↔ ∃ r ∈ rs, r.1 ≤ c.val ∧ c.val ≤ r.2 := by
  simp [inRuns]

theorem inRuns_append (rs qs : List (Nat × Nat)) (c : CodePoint) :
    c.inRuns (rs ++ qs) = (c.inRuns rs || c.inRuns qs) := List.any_append

theorem Apart.not_both {rs qs : List (Nat × Nat)} (h : Apart rs qs) {c : CodePoint} (hr : c.inRuns rs = true) :
    c.inRuns qs = false := by
  obtain ⟨r, hr, hlow, hhigh⟩ := inRuns_iff.1 hr
  rw [Bool.eq_false_iff]
  intro hq
  obtain ⟨q, hq, hlow', hhigh'⟩ := inRuns_iff.1 hq
  rcases h r hr q hq with h | h
  · omega
  · omega

def allBlankRuns : List (Nat × Nat) := [(0x09, 0x0D), (0x1C, 0x20)] ++ blankRuns

theorem inRuns_of_isBlank {c : CodePoint} (h : c.isBlank = true) : c.inRuns allBlankRuns = true := by
  rw [allBlankRuns, inRuns_append, Bool.or_eq_true]
  rw [isBlank] at h
  split at h
  · refine .inl (inRuns_iff.2 ?_)
    simp only [Bool.or_eq_true, Bool.and_eq_true, decide_eq_true_eq] at h
    rcases h with h | h
    · exact ⟨_, .head _, h⟩
    · exact ⟨_, .tail _ (.head _), h⟩
  · exact .inr h

def allDigitRuns : List (Nat × Nat) := (0x30, 0x39) :: decimalZeros.map (fun z => (z, z + 9)) ++ otherDigitRuns

theorem inRuns_of_isDigit {c : CodePoint} (h : c.isDigit = true) : c.inRuns allDigitRuns = true := by
  rw [allDigitRuns, inRuns_append, Bool.or_eq_true]
  rw [isDigit, Bool.or_eq_true] at h
  refine h.imp_left fun h => inRuns_iff.2 ?_
  rw [digitValue?] at h
  split at h
  · split at h
    · rename_i hdigit
      simp only [isAsciiDigit, Bool.and_eq_true, decide_eq_true_eq] at hdigit
      exact ⟨_, .head _, hdigit⟩
    · cases h
  · rw [Option.isSome_map] at h
    obtain ⟨z, hz⟩ := Option.isSome_iff_exists.1 h
    have hrun := List.find?_some hz
    simp only [Bool.and_eq_true, decide_eq_true_eq] at hrun
    exact ⟨_, .tail _ (List.mem_map_of_mem (List.mem_of_find?_eq_some hz)), hrun⟩

def allWordRuns : List (Nat × Nat) :=
  [(0x30, 0x39), (0x41, 0x5A), (0x5F, 0x5F), (0x61, 0x7A)] ++ wordRunsFirst ++ wordRunsSecond ++ wordRunsThird ++
    wordRunsFourth

theorem inRuns_of_isWordChar {c : CodePoint} (h : c.isWordChar = true) : c.inRuns allWordRuns = true := by
  simp only [allWordRuns, inRuns_append, Bool.or_eq_true]
  rw [isWordChar] at h
  split at h
  · refine .inl (.inl (.inl (.inl (inRuns_iff.2 ?_))))
    simp only [isAsciiLetter, isAsciiDigit, Bool.or_eq_true, Bool.and_eq_true, decide_eq_true_eq] at h
    rcases h with ((h | h) | h) | rfl
    · exact ⟨_, .tail _ (.head _), h⟩
    · exact ⟨_, .tail _ (.tail _ (.tail _ (.head _))), h⟩
    · exact ⟨_, .head _, h⟩
    · exact ⟨_, .tail _ (.tail _ (.head _)), by decide⟩
  · simp only [Bool.or_eq_true] at h
    exact h.imp_left (.imp_left (.imp_left .inr))

theorem not_isBlank_of_inRuns {rs : List (Nat × Nat)} (h : Apart allBlankRuns rs) {c : CodePoint}
    (hc : c.inRuns rs = true) : c.isBlank = false := by
  rw [Bool.eq_false_iff]
  intro hblank
  have hnot := h.not_both (inRuns_of_isBlank hblank)
  rw [hc] at hnot
  cases hnot

theorem not_isBlank_of_isDigit {c : CodePoint} (h : c.isDigit = true) : c.isBlank = false := by
  have hapart : Apart allBlankRuns allDigitRuns := by decide +kernel
  exact not_isBlank_of_inRuns hapart (inRuns_of_isDigit h)

theorem not_isBlank_of_isWordChar {c : CodePoint} (h : c.isWordChar = true) : c.isBlank = false := by
  have hapart : Apart allBlankRuns allWordRuns := by decide +kernel
  exact not_isBlank_of_inRuns hapart (inRuns_of_isWordChar h)

end Pausable.CodePoint
