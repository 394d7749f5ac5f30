import Pausable.Proofs.Wire.Brackets

/-!
Where spaces stand in snapshot text: in quotes only, whatever the value and its keys hold (`quoted_of_space`).
-/
namespace Pausable.Wire

variable {d e : Nat} {s s' : Standing} {t u : Text}

/-- Where the place behind a text lies, if the text begins outside of quotes. -/
def regionAfter (t : Text) : Region := (t.foldl Standing.next ⟨0, .outside⟩).region

/-- From a standing on, all spaces of a text are in quotes. -/
def Spaced : Standing → Text → Prop
  | _, [] => True
  | s, c :: t => (c = ' ' → s.region = .quoted) ∧ Spaced (s.next c) t

theorem Spaced.region (h : Spaced s t) {before after : Text} (ht : t = before ++ " " ++ after) :
    (before.foldl Standing.next s).region = .quoted := by
  induction before generalizing s t with
  | nil =>
      cases ht
      exact h.1 rfl
  | cons c before ih =>
      cases ht
      exact ih h.2 rfl

theorem spaced_of_notMem (h : (' ' : CodePoint) ∉ t) : Spaced s t := by
  induction t generalizing s with
  | nil => trivial
  | cons c t ih =>
      obtain ⟨hc, ht⟩ := not_or.1 (List.mem_cons.not.1 h)
      exact ⟨fun hspace => absurd hspace.symm hc, ih ht⟩

theorem Spaced.append (ht : Spaced s t) (hkeeps : Keeps d s t s') (hu : Spaced s' u) : Spaced s (t ++ u) := by
  induction hkeeps with
  | nil _ => exact hu
  | cons _ _ ih => exact ⟨ht.1, ih ht.2 hu⟩

/-! ## Tokens -/

theorem space_notMem_unitEscape (n : Nat) : (' ' : CodePoint) ∉ Text.unitEscape n := by
  intro hspace
  rcases List.mem_append.1 hspace with hmark | hdigit
  · exact absurd hmark (by decide)
  · exact absurd (Text.mem_hex hdigit) (by decide)

theorem spaced_escaped (c : CodePoint) : Spaced ⟨e, .quoted⟩ (escaped c) := by
  rcases escaped_cases c with ⟨x, hc, hx⟩ | ⟨hc, -⟩ | ⟨hc, -⟩ | ⟨-, hc⟩
  · rw [hc]
    refine spaced_of_notMem ?_
    cases hx <;> decide
  · rw [hc]
    exact ⟨fun _ => rfl, trivial⟩
  · rw [hc]
    exact spaced_of_notMem (space_notMem_unitEscape _)
  · rw [hc]
    refine spaced_of_notMem fun hspace => ?_
    exact (List.mem_append.1 hspace).elim (space_notMem_unitEscape _) (space_notMem_unitEscape _)

theorem spaced_quote (t : Text) : Spaced ⟨e, .outside⟩ (quote t) := by
  have hmark {s : Standing} : Spaced s "\"" := spaced_of_notMem (by decide)
  have hopening : Keeps e ⟨e, .outside⟩ "\"" ⟨e, .quoted⟩ := .cons (Nat.le_refl e) (.nil (Nat.le_refl e))
  have hinside : Spaced ⟨e, .quoted⟩ (t.flatMap escaped ++ "\"") := by
    induction t with
    | nil => exact hmark
    | cons c t ih =>
        rw [List.flatMap_cons, List.append_assoc]
        exact (spaced_escaped c).append (keeps_escaped (Nat.le_refl e) c) ih
  rw [quote, List.append_assoc]
  exact hmark.append hopening hinside

theorem Lexeme.spaced (h : Lexeme t) : Spaced ⟨e, .outside⟩ t := by
  cases h with
  | constant hword =>
      have hall : ∀ k ∈ constants, (' ' : CodePoint) ∉ k.1 := by decide
      exact spaced_of_notMem (hall _ hword)
  | number hn =>
      refine spaced_of_notMem fun hspace => ?_
      exact absurd (mem_writeNumber hn hspace).1 (by decide)
  | quoted t => exact spaced_quote t
  | name hbare =>
      refine spaced_of_notMem fun hspace => ?_
      exact absurd ((isBareKey_cases hbare).2 _ hspace) (by decide)
  | comma | colon => exact spaced_of_notMem (by decide)

theorem Composed.spaced (h : Composed t) : Spaced ⟨e, .outside⟩ t := by
  -- A part that is balanced ends outside of quotes, so that the next one begins there.
  induction h generalizing e with
  | nil => trivial
  | lexeme ht => exact ht.spaced
  | append ht _ iht ihu => exact iht.append (ht.balanced (Nat.le_refl e)) ihu
  | @list t ht ih =>
      have hclosed := ih.append (ht.balanced (Nat.le_refl (e + 1))) (spaced_of_notMem (t := "]") (by decide))
      exact ⟨nofun, hclosed⟩
  | @record t ht ih =>
      have hclosed := ih.append (ht.balanced (Nat.le_refl (e + 1))) (spaced_of_notMem (t := "\x7d") (by decide))
      exact ⟨nofun, hclosed⟩

theorem Keeps.foldl (h : Keeps d s t s') : t.foldl Standing.next s = s' := by
  induction h with
  | nil _ => rfl
  | cons _ _ ih => exact ih

theorem regionAfter_write {v : Value} (h : write v = .ok t) : regionAfter t = .outside := by
  rw [regionAfter, ((composed_write h).balanced (Nat.le_refl 0)).foldl]

/-- A space in a written text is in quotes. -/
theorem quoted_of_space {v : Value} (h : write v = .ok t) {before after : Text} (ht : t = before ++ " " ++ after) :
    regionAfter before = .quoted :=
  (composed_write h).spaced.region ht

end Pausable.Wire
