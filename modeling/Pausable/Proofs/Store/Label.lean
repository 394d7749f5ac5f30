import Mathlib.Data.List.Infix
import Mathlib.Data.List.TakeWhile
import Pausable.Proofs.Json.Quoted
import Pausable.Proofs.Text.Printable
import Pausable.Store.Label

/-!
What the filter on labels lets through. A text fits a row of signs just if the first sign covers a piece at its front
and the rest fits the others (`fits_cons`); the pattern for a filter has a sign of its own for each code point of the
filter, wildcard or not, so the labels that pass are those that contain the filter (`passes_iff`).
-/
namespace Pausable.Label

/-- The pieces of texts that a sign stands for. -/
def Sign.Covers : Sign → Text → Prop
  | any, _ => True
  | one, t => ∃ c, t = [c]
  | exactly c, t => ∃ d, t = [d] ∧ c.asciiLower = d.asciiLower

theorem anyEnd_iff {p : Text → Bool} {t : Text} : anyEnd p t = true ↔ ∃ piece rest, t = piece ++ rest ∧ p rest = true := by
  induction t with
  | nil => simp [anyEnd]
  | cons c t ih =>
      rw [anyEnd, Bool.or_eq_true, ih]
      constructor
      · rintro (h | ⟨piece, rest, rfl, h⟩)
        · exact ⟨[], c :: t, rfl, h⟩
        · exact ⟨c :: piece, rest, rfl, h⟩
      · rintro ⟨_ | ⟨d, piece⟩, rest, ht, h⟩
        · exact .inl (by rwa [ht])
        · cases ht
          exact .inr ⟨piece, rest, rfl, h⟩

/-- One sign and those behind it. -/
theorem fits_cons {sign : Sign} {signs : List Sign} {t : Text} :
    fits (sign :: signs) t = true ↔ ∃ piece rest, t = piece ++ rest ∧ sign.Covers piece ∧ fits signs rest = true := by
  cases sign with
  | any =>
      rw [fits, anyEnd_iff]
      exact exists₂_congr fun piece rest => by simp only [Sign.Covers, true_and]
  | one =>
      cases t with
      | nil => simp [fits, Sign.Covers]
      | cons c t =>
          rw [fits]
          refine ⟨fun h => ⟨[c], t, rfl, ⟨c, rfl⟩, h⟩, ?_⟩
          rintro ⟨_, rest, ht, ⟨d, rfl⟩, h⟩
          cases ht
          exact h
  | exactly d =>
      cases t with
      | nil => simp [fits, Sign.Covers]
      | cons c t =>
          rw [fits, Bool.and_eq_true, decide_eq_true_eq]
          refine ⟨fun h => ⟨[c], t, rfl, ⟨c, rfl, h.1⟩, h.2⟩, ?_⟩
          rintro ⟨_, rest, ht, ⟨e, rfl, hcase⟩, h⟩
          cases ht
          exact ⟨hcase, h⟩

/-! ## The pattern for a filter -/

theorem marked_cons (c : CodePoint) (filter : Text) :
    marked (c :: filter) = (if isWildcard c then ['\\', c] else [c] : Text) ++ marked filter := rfl

theorem signs?_marked_cons (c : CodePoint) (t : Text) :
    signs? ((if isWildcard c then ['\\', c] else [c] : Text) ++ t) = (signs? t).map (.exactly c :: ·) := by
  split
  · rfl
  · rename_i hwild
    obtain ⟨⟨hpercent, hline⟩, hslash⟩ : (c ≠ '%' ∧ c ≠ '_') ∧ c ≠ '\\' := by
      simpa [isWildcard] using hwild
    rw [List.singleton_append, signs?.eq_def]
    simp only [if_neg hslash, if_neg hpercent, if_neg hline]

/-- The marks make each code point of the filter stand for itself. -/
theorem signs?_marked (filter t : Text) :
    signs? (marked filter ++ t) = (signs? t).map (filter.map .exactly ++ ·) := by
  induction filter with
  | nil => exact Option.map_id'.symm
  | cons c filter ih =>
      rw [marked_cons, List.append_assoc, signs?_marked_cons, ih, Option.map_map]
      rfl

/-- Signs that stand for themselves fit what has the same code points, the case of letters aside. -/
theorem fits_exactly {filter : Text} {signs : List Sign} {t : Text} :
    fits (filter.map .exactly ++ signs) t = true ↔
      ∃ piece rest, t = piece ++ rest ∧ filter.map CodePoint.asciiLower = piece.map CodePoint.asciiLower ∧
        fits signs rest = true := by
  induction filter generalizing t with
  | nil =>
      refine ⟨fun h => ⟨[], t, rfl, rfl, h⟩, ?_⟩
      rintro ⟨piece, rest, rfl, hpiece, h⟩
      cases List.map_eq_nil_iff.1 hpiece.symm
      exact h
  | cons c filter ih =>
      rw [List.map_cons, List.cons_append, fits_cons]
      constructor
      · rintro ⟨_, rest, rfl, ⟨d, rfl, hcase⟩, h⟩
        obtain ⟨piece, rest, rfl, hpiece, h⟩ := ih.1 h
        exact ⟨d :: piece, rest, rfl, by rw [List.map_cons, List.map_cons, hcase, hpiece], h⟩
      · rintro ⟨_ | ⟨d, piece⟩, rest, rfl, hpiece, h⟩
        · cases hpiece
        · rw [List.map_cons, List.map_cons, List.cons.injEq] at hpiece
          exact ⟨[d], piece ++ rest, rfl, ⟨d, rfl, hpiece.1⟩, ih.2 ⟨piece, rest, rfl, hpiece.2, h⟩⟩

theorem fits_any (t : Text) : fits [.any] t = true := fits_cons.2 ⟨t, [], (List.append_nil t).symm, trivial, rfl⟩

/-! ## What a comparison sees -/

/-- A text that a comparison sees as a whole. -/
def Seen (t : Text) : Prop := ∀ c ∈ t, c.val ≠ 0

instance : DecidablePred Seen := fun t => inferInstanceAs (Decidable (∀ c ∈ t, c.val ≠ 0))

theorem seen_append {t : Text} (h : Seen t) (u : Text) : seen (t ++ u) = t ++ seen u :=
  List.takeWhile_append_of_pos fun c hc => decide_eq_true (h c hc)

theorem Seen.seen {t : Text} (h : Seen t) : seen t = t :=
  List.takeWhile_eq_self_iff.2 fun c hc => decide_eq_true (h c hc)

theorem seen_seen (t : Text) : Seen (seen t) := by
  intro c hc
  rw [seen] at hc
  have := List.mem_takeWhile_imp hc
  rwa [decide_eq_true_eq] at this

theorem seen_mark {c : CodePoint} (hc : c.val ≠ 0) : Seen (if isWildcard c then ['\\', c] else [c]) := by
  split
  · exact List.forall_mem_cons.2 ⟨by decide, List.forall_mem_singleton.2 hc⟩
  · exact List.forall_mem_singleton.2 hc

/-- A NUL in a filter hides all that stands behind it in the pattern. -/
theorem seen_marked (filter t : Text) :
    seen (marked filter ++ t) = marked (seen filter) ++ if Seen filter then seen t else [] := by
  induction filter with
  | nil => rw [if_pos (show Seen [] from nofun)]; rfl
  | cons c filter ih =>
      by_cases hc : c.val = 0
      · have hhidden (u : Text) : seen (c :: u) = [] := List.takeWhile_cons_of_neg (by simp [hc])
        have hplain : ¬ isWildcard c = true := by
          simp only [isWildcard, Bool.or_eq_true, decide_eq_true_eq]
          rintro ((rfl | rfl) | rfl) <;> cases hc
        rw [marked_cons, if_neg hplain, hhidden, if_neg fun h => h c (List.mem_cons_self ..) hc]
        exact hhidden (marked filter ++ t)
      · have hseen : Seen (c :: filter) ↔ Seen filter := by simp [Seen, hc]
        have hfirst : seen (c :: filter) = c :: seen filter := List.takeWhile_cons_of_pos (decide_eq_true hc)
        rw [marked_cons, List.append_assoc, seen_append (seen_mark hc), ih, hfirst, marked_cons, List.append_assoc]
        simp only [hseen]

/-- The signs of the pattern for a filter, as far as a comparison sees it. -/
theorem signs?_seen_pattern (filter : Text) : signs? (seen (pattern filter)) =
    some (.any :: ((seen filter).map .exactly ++ if Seen filter then [.any] else [])) := by
  have hpercent : Seen ("%" : Text) := by decide
  have hany (t : Text) : signs? (("%" : Text) ++ t) = (signs? t).map (.any :: ·) := by
    rw [signs?.eq_def]
    rfl
  rw [pattern, List.append_assoc, seen_append hpercent, seen_marked, hany, signs?_marked]
  split <;> rfl

/-! ## Labels that pass -/

/-- A label passes just if a piece of what is seen of it is like what is seen of the filter, the case of letters aside.
Where not all of the filter is seen, the piece is at the end. -/
theorem passes_iff_piece {filter label : Text} : passes filter label = true ↔
    ∃ front piece back, seen label = front ++ (piece ++ back) ∧
      (seen filter).map CodePoint.asciiLower = piece.map CodePoint.asciiLower ∧ (Seen filter ∨ back = []) := by
  have hback (back : Text) : fits (if Seen filter then [.any] else []) back = true ↔ Seen filter ∨ back = [] := by
    by_cases h : Seen filter <;> simp [h, fits_any, fits]
  rw [passes, like, signs?_seen_pattern]
  simp only [fits_cons, fits_exactly, hback, Sign.Covers, true_and]
  constructor
  · rintro ⟨front, _, hlabel, piece, back, rfl, hpiece⟩
    exact ⟨front, piece, back, hlabel, hpiece⟩
  · rintro ⟨front, piece, back, hlabel, hpiece⟩
    exact ⟨front, _, hlabel, piece, back, rfl, hpiece⟩

/-- The label contains the filter, whatever the case of the letters of ASCII. -/
def Contains (label filter : Text) : Prop := filter.map CodePoint.asciiLower <:+: label.map CodePoint.asciiLower

theorem contains_iff_piece {label filter : Text} : Contains label filter ↔
    ∃ front piece back, label = front ++ (piece ++ back) ∧
      filter.map CodePoint.asciiLower = piece.map CodePoint.asciiLower := by
  constructor
  · rintro ⟨front, back, h⟩
    obtain ⟨piece, back, rfl, hpiece, -⟩ := List.map_eq_append_iff.1 h.symm
    obtain ⟨front, middle, rfl, -, hmiddle⟩ := List.map_eq_append_iff.1 hpiece
    exact ⟨front, middle, back, List.append_assoc .., hmiddle.symm⟩
  · rintro ⟨front, piece, back, rfl, hpiece⟩
    rw [Contains, hpiece, List.map_append, List.map_append, ← List.append_assoc]
    exact ⟨_, _, rfl⟩

/-- The wildcards of a filter match only themselves: the labels that pass are those that contain it. -/
theorem passes_iff {filter label : Text} (hfilter : Seen filter) (hlabel : Seen label) :
    passes filter label = true ↔ Contains label filter := by
  rw [passes_iff_piece, contains_iff_piece, hfilter.seen, hlabel.seen]
  simp only [hfilter, true_or, and_true]

/-- A pattern is made of the code points of its filter, percent signs and backslashes. -/
theorem mem_pattern {filter : Text} {c : CodePoint} (hc : c ∈ pattern filter) :
    c = CodePoint.ofChar '%' ∨ c = CodePoint.ofChar '\\' ∨ c ∈ filter := by
  have hpercent : ∀ c ∈ ("%" : Text), c = CodePoint.ofChar '%' := by decide
  simp only [pattern, marked, List.mem_append, List.mem_flatMap] at hc
  obtain (hc | ⟨d, hd, hc⟩) | hc := hc
  · exact .inl (hpercent c hc)
  · split at hc
    · rcases List.mem_pair.1 hc with rfl | rfl
      · exact .inr (.inl rfl)
      · exact .inr (.inr hd)
    · rw [List.mem_singleton.1 hc]
      exact .inr (.inr hd)
  · exact .inl (hpercent c hc)

/-- A filter that the index can carry out: no surrogates, no NUL, and a pattern that is not too long. -/
structure Admissible (filter : Text) : Prop where
  scalar : Json.Scalar filter
  seen : Seen filter
  short : ∀ bytes, (pattern filter).toUtf8 = .ok bytes → bytes.length ≤ maxBytes

theorem scalar_pattern {filter : Text} (h : Json.Scalar filter) : Json.Scalar (pattern filter) := by
  intro c hc
  rcases mem_pattern hc with rfl | rfl | hc
  · rfl
  · rfl
  · exact h c hc

end Pausable.Label
