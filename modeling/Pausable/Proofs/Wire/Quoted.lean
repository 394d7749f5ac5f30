import Mathlib.Data.List.Chain
import Pausable.Proofs.Text.Hex
import Pausable.Proofs.Wire.Grammar
import Pausable.Wire.Reader
import Pausable.Wire.Writer

/-!
The reader takes off just the quoted texts of the grammar (`readQuoted_complete`, `readQuoted_sound`). Each code
point is written as an escape of it or as it is (`escape_escaped`), unless it is a first surrogate directly
before another escape: the reader takes the two for a pair.
-/
namespace Pausable.Wire

/-- No first surrogate stands before a code point that is written as a `\u` escape. -/
def Unjoined (t : Text) : Prop :=
  t.IsChain fun c d => CodePoint.isHigh c.val = true → ¬ ("\\u" : Text) <+: escaped d

section

variable {p : Nat} {out r : Text} {c : CodePoint}

/-! ## Reading -/

theorem readUnit_digits {digits : Text} {n : Nat} (h : CodeUnit digits n) :
    readUnit ⟨p, 'u' :: (digits ++ r)⟩ = .ok (n, ⟨p + 5, r⟩) := by
  obtain ⟨hlength, hvalue⟩ := h
  have htake : (digits ++ r).take 4 = digits := List.take_left' hlength
  have hdrop : (digits ++ r).drop 4 = r := List.drop_left' hlength
  simp only [readUnit, List.drop_succ_cons, List.drop_zero, htake, hlength, ↓reduceIte, hvalue, Cursor.skip,
    hdrop]

theorem readUnit_sound {c a : Cursor} {n : Nat} (h : readUnit c = .ok (n, a)) :
    ∃ digits, c.rest.drop 1 = digits ++ a.rest ∧ CodeUnit digits n := by
  simp only [readUnit] at h
  split at h
  · rename_i m hm
    cases h
    split at hm
    · rename_i hlength
      refine ⟨(c.rest.drop 1).take 4, ?_, hlength, hm⟩
      rw [Cursor.rest_skip, ← List.drop_drop (i := 4) (j := 1), List.take_append_drop]
    · cases hm
  · cases h

theorem simpleEscape?_iff {e c : CodePoint} : simpleEscape? e = some c ↔ ShortEscape e c := by
  constructor
  · intro h
    unfold simpleEscape? at h
    split at h
    · rename_i he
      cases h; rw [he]
      exact .lineFeed
    split at h
    · rename_i he
      cases h; rw [he]
      exact .tab
    split at h
    · rename_i he
      cases h; rw [he]
      exact .carriageReturn
    split at h
    · rename_i he
      cases h
      rcases he with rfl | rfl
      · exact .backslash
      · exact .quote
    · cases h
  · intro h
    cases h <;> rfl

theorem ShortEscape.ne_u {e : CodePoint} (h : ShortEscape e c) : e ≠ 'u' := by
  cases h <;> decide

/-- Every escape is read. -/
theorem readEscape_complete {t : Text} (h : Escape t c r) (p : Nat) :
    ∃ p', readEscape ⟨p, t⟩ = .ok (c, ⟨p', r⟩) := by
  cases h with
  | @short e c r he =>
      refine ⟨p + 1, ?_⟩
      simp only [readEscape, if_neg he.ne_u, simpleEscape?_iff.2 he]
      rfl
  | @unit digits r n hunit hnot =>
      have hnot' : ¬ (CodePoint.isHigh n = true ∧ r.take 2 = "\\u") := by
        rintro ⟨hhigh, htake⟩
        exact hnot ⟨hhigh, htake ▸ List.take_prefix 2 r⟩
      have hescape : readEscape ⟨p, 'u' :: (digits ++ r)⟩ = readUnicode ⟨p, 'u' :: (digits ++ r)⟩ := rfl
      refine ⟨p + 5, ?_⟩
      simp only [hescape, readUnicode, readUnit_digits hunit, if_neg hnot']
  | @pair first second r high low hfirst hsecond hhigh hlow =>
      have htake (t : Text) : (("\\u" : Text) ++ t).take 2 = "\\u" := rfl
      have hskip (t : Text) : (⟨p + 5, "\\u" ++ t⟩ : Cursor).skip 1 = ⟨p + 6, 'u' :: t⟩ := rfl
      have hescape (t : Text) : readEscape ⟨p, 'u' :: t⟩ = readUnicode ⟨p, 'u' :: t⟩ := rfl
      refine ⟨p + 6 + 5, ?_⟩
      simp only [hescape, readUnicode, readUnit_digits hfirst, hhigh, htake, and_self, ↓reduceIte, hskip,
        readUnit_digits hsecond, hlow]

theorem readUnicode_sound {b a : Cursor} {t : Text} (hb : b.rest = CodePoint.ofChar 'u' :: t)
    (h : readUnicode b = .ok (c, a)) : Escape b.rest c a.rest := by
  unfold readUnicode at h
  split at h
  · cases h
  · rename_i high after hunit
    obtain ⟨first, hfirst, hhigh⟩ := readUnit_sound hunit
    rw [hb, List.drop_one, List.tail_cons] at hfirst
    subst hfirst
    rw [hb]
    split at h
    · rename_i hpair
      obtain ⟨u, hu⟩ : ("\\u" : Text) <+: after.rest := hpair.2 ▸ List.take_prefix 2 _
      split at h
      · cases h
      · rename_i low last hunit'
        obtain ⟨second, hsecond, hlow⟩ := readUnit_sound hunit'
        have hrest : u = second ++ last.rest := by
          rw [Cursor.rest_skip, ← hu] at hsecond
          exact hsecond
        split at h
        · rename_i hislow
          simp only [Except.ok.injEq, Prod.mk.injEq] at h
          rw [← h.1, ← h.2, ← hu, hrest]
          exact .pair hhigh hlow hpair.1 hislow
        · cases h
    · rename_i hnot
      simp only [Except.ok.injEq, Prod.mk.injEq] at h
      rw [← h.1, ← h.2]
      refine .unit hhigh fun hbad => hnot ⟨hbad.1, ?_⟩
      exact (List.prefix_iff_eq_take.1 hbad.2).symm

/-- What is read behind a backslash is an escape. -/
theorem readEscape_sound {b a : Cursor} (h : readEscape b = .ok (c, a)) : Escape b.rest c a.rest := by
  unfold readEscape at h
  split at h
  · cases h
  · rename_i e t ht
    split at h
    · rename_i he
      exact readUnicode_sound (he ▸ ht) h
    · split at h
      · rename_i d hd
        cases h
        rw [Cursor.rest_skip, ht]
        exact .short (simpleEscape?_iff.1 hd)
      · cases h

theorem readQuoted_backslash (p : Nat) (t out : Text) : readQuoted ⟨p, '\\' :: t⟩ out =
    match readEscape ⟨p + 1, t⟩ with
    | .error e => .error e
    | .ok (m, a) => readQuoted a (m :: out) := by
  have hquote : ¬ CodePoint.ofChar '\\' = '"' := by decide
  have hskip : (⟨p, '\\' :: t⟩ : Cursor).skip 1 = ⟨p + 1, t⟩ := rfl
  rw [readQuoted]
  split
  · rename_i hc
    cases hc
  · rename_i d u hc
    cases hc
    rw [if_neg hquote, if_pos rfl, hskip]
    split
    · rename_i e he
      rw [he]
    · rename_i m a he
      rw [he]

theorem readQuoted_escape {a : Cursor} {m : CodePoint} {t : Text} (h : readEscape ⟨p + 1, t⟩ = .ok (m, a)) :
    readQuoted ⟨p, '\\' :: t⟩ out = readQuoted a (m :: out) := by
  rw [readQuoted_backslash, h]

theorem readQuoted_plain (hq : c ≠ '"') (hb : c ≠ '\\') :
    readQuoted ⟨p, c :: r⟩ out = readQuoted ⟨p + 1, r⟩ (c :: out) := by
  rw [readQuoted]
  simp only [if_neg hq, if_neg hb]
  rfl

/-- Every quoted text is read. -/
theorem readQuoted_complete {t s : Text} (h : Quoted t s r) (p : Nat) (out : Text) :
    ∃ p', readQuoted ⟨p, t⟩ out = .ok (out.reverse ++ s, ⟨p', r⟩) := by
  induction h generalizing p out with
  | close =>
      refine ⟨p + 1, ?_⟩
      rw [readQuoted, List.append_nil]
      rfl
  | @plain c t s r hq hb h ih =>
      obtain ⟨p', hp⟩ := ih (p + 1) (c :: out)
      refine ⟨p', ?_⟩
      rw [readQuoted_plain hq hb, hp, List.reverse_cons, List.append_assoc]
      rfl
  | @escape c t u s r he h ih =>
      obtain ⟨p₁, h₁⟩ := readEscape_complete he (p + 1)
      obtain ⟨p₂, h₂⟩ := ih p₁ (c :: out)
      refine ⟨p₂, ?_⟩
      rw [readQuoted_escape h₁, h₂, List.reverse_cons, List.append_assoc]
      rfl

/-- What is read up to a closing quote is quoted. -/
theorem readQuoted_sound {b a : Cursor} {s : Text} (h : readQuoted b out = .ok (s, a)) :
    ∃ s', s = out.reverse ++ s' ∧ Quoted b.rest s' a.rest := by
  fun_induction readQuoted b out with
  | case1 => cases h
  | case2 b out t hc =>
      cases h
      refine ⟨[], (List.append_nil _).symm, ?_⟩
      rw [Cursor.rest_skip, hc]
      exact .close
  | case3 => cases h
  | case4 b out t m after he hc hne ih =>
      obtain ⟨s', rfl, hs⟩ := ih h
      refine ⟨m :: s', by simp, ?_⟩
      have hescape := readEscape_sound he
      rw [Cursor.rest_skip, hc] at hescape
      rw [hc]
      exact .escape hescape hs
  | case5 b out d t hc hne hne' ih =>
      obtain ⟨s', rfl, hs⟩ := ih h
      refine ⟨d :: s', by simp, ?_⟩
      rw [Cursor.rest_skip, hc] at hs
      rw [hc]
      exact .plain hne hne' hs

/-! ## Writing -/

theorem codeUnit_hex {n : Nat} (h : n < 0x10000) : CodeUnit (Text.hex 4 n) n :=
  ⟨Text.length_hex 4 n, Text.hexValue?_hex (show n < 16 ^ 4 from h)⟩

theorem escaped_of_short {c e : CodePoint} (h : ShortEscape e c) : escaped c = [CodePoint.ofChar '\\', e] := by
  cases h <;> rfl

theorem escaped_of_not_short {c : CodePoint} (h : ∀ e, ¬ ShortEscape e c) : escaped c =
    if 0x20 ≤ c.val ∧ c.val ≤ 0x7E then [c] else Text.unitEscapes c := by
  have hne {e d : CodePoint} (hd : ShortEscape e d) : ¬ c = d := by
    rintro rfl
    exact h e hd
  rw [escaped, if_neg (hne .backslash), if_neg (hne .quote), if_neg (hne .lineFeed), if_neg (hne .tab),
    if_neg (hne .carriageReturn)]

/-- Above ASCII a code point is written in escapes of 16 bits. -/
theorem escaped_of_large {c : CodePoint} (h : 0x7E < c.val) : escaped c = Text.unitEscapes c := by
  have hshort (e : CodePoint) (he : ShortEscape e c) : False := by
    revert h
    cases he <;> decide
  rw [escaped_of_not_short hshort, if_neg (by omega)]

/-- How a code point is written: as a short escape, as it is, as a unit or as two. -/
theorem escaped_cases (c : CodePoint) :
    (∃ e, escaped c = [CodePoint.ofChar '\\', e] ∧ ShortEscape e c) ∨
      (escaped c = [c] ∧ c ≠ '"' ∧ c ≠ '\\' ∧ 0x20 ≤ c.val ∧ c.val ≤ 0x7E) ∨
      (escaped c = Text.unitEscape c.val ∧ c.val < 0x10000) ∨
      0x10000 ≤ c.val ∧ escaped c = Text.unitEscape (0xD800 + (c.val - 0x10000) / 0x400) ++
        Text.unitEscape (0xDC00 + (c.val - 0x10000) % 0x400) := by
  by_cases hshort : ∃ e, ShortEscape e c
  · obtain ⟨e, he⟩ := hshort
    exact .inl ⟨e, escaped_of_short he, he⟩
  have hshort := not_exists.1 hshort
  rw [escaped_of_not_short hshort]
  by_cases hplain : 0x20 ≤ c.val ∧ c.val ≤ 0x7E
  · refine .inr (.inl ⟨if_pos hplain, ?_, ?_, hplain⟩) <;> rintro rfl
    · exact hshort _ .quote
    · exact hshort _ .backslash
  rw [if_neg hplain]
  by_cases hunit : c.val < 0x10000
  · exact .inr (.inr (.inl ⟨if_pos hunit, hunit⟩))
  · exact .inr (.inr (.inr ⟨Nat.le_of_not_lt hunit, if_neg hunit⟩))

/-- A written code point is an escape of it, or it stands for itself. -/
theorem escape_escaped (c : CodePoint) (hc : CodePoint.isHigh c.val = true → ¬ ("\\u" : Text) <+: r) :
    (∃ t, escaped c ++ r = CodePoint.ofChar '\\' :: t ∧ Escape t c r) ∨ escaped c = [c] ∧ c ≠ '"' ∧ c ≠ '\\' := by
  rcases escaped_cases c with ⟨e, hwritten, he⟩ | ⟨hwritten, hq, hb, -⟩ | ⟨hwritten, hlt⟩ | ⟨hge, hwritten⟩
  · rw [hwritten]
    exact .inl ⟨_, rfl, .short he⟩
  · exact .inr ⟨hwritten, hq, hb⟩
  · have hescape := Escape.unit (r := r) (codeUnit_hex hlt) (not_and.2 hc)
    rw [CodePoint.ofNat_val] at hescape
    rw [hwritten, Text.unitEscape_append]
    exact .inl ⟨_, rfl, hescape⟩
  · have hlt := c.isLt
    have hescape := Escape.pair (r := r) (codeUnit_hex (by omega)) (codeUnit_hex (by omega))
      (CodePoint.isHigh_half c) (CodePoint.isLow_half c)
    rw [CodePoint.ofPair_halves hge] at hescape
    rw [hwritten, List.append_assoc, Text.unitEscape_append]
    exact .inl ⟨_, rfl, hescape⟩

theorem quoted_escaped {s u : Text} (c : CodePoint)
    (hc : CodePoint.isHigh c.val = true → ¬ ("\\u" : Text) <+: r) (h : Quoted r s u) :
    Quoted (escaped c ++ r) (c :: s) u := by
  rcases escape_escaped c hc with ⟨t, ht, hescape⟩ | ⟨hwritten, hq, hb⟩
  · rw [ht]
    exact .escape hescape h
  · rw [hwritten]
    exact .plain hq hb h

/-- The reader goes on behind a written code point. -/
theorem readQuoted_escaped (p : Nat) (out : Text) (c : CodePoint)
    (hc : CodePoint.isHigh c.val = true → ¬ ("\\u" : Text) <+: r) :
    ∃ p', readQuoted ⟨p, escaped c ++ r⟩ out = readQuoted ⟨p', r⟩ (c :: out) := by
  rcases escape_escaped c hc with ⟨t, ht, hescape⟩ | ⟨hwritten, hq, hb⟩
  · obtain ⟨p', hp⟩ := readEscape_complete hescape (p + 1)
    rw [ht]
    exact ⟨p', readQuoted_escape hp⟩
  · rw [hwritten]
    exact ⟨p + 1, readQuoted_plain hq hb⟩

/-- An escape does not arise from what is written behind a code point. -/
theorem not_escape_append {c : CodePoint} {r : Text} (h : ¬ ("\\u" : Text) <+: escaped c) :
    ¬ ("\\u" : Text) <+: escaped c ++ r := by
  intro hprefix
  have hunit (n : Nat) (t : Text) : ("\\u" : Text) <+: Text.unitEscape n ++ t := ⟨_, rfl⟩
  rcases escaped_cases c with ⟨e, hc, he⟩ | ⟨hc, -, hb, -⟩ | ⟨hc, -⟩ | ⟨-, hc⟩
  · rw [hc] at hprefix
    obtain ⟨t, ht⟩ := hprefix
    exact he.ne_u (List.cons.inj (List.cons.inj ht).2).1.symm
  · rw [hc] at hprefix
    obtain ⟨t, ht⟩ := hprefix
    exact hb (List.cons.inj ht).1.symm
  · exact h (by rw [hc, ← List.append_nil (Text.unitEscape c.val)]; exact hunit _ _)
  · exact h (by rw [hc]; exact hunit _ _)

end
end Pausable.Wire
