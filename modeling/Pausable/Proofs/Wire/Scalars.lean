import Pausable.Proofs.Result
import Pausable.Proofs.Text.Classes
import Pausable.Proofs.Wire.Numerals
import Pausable.Proofs.Wire.Quoted

/-!
The reader takes off just the scalars and the keys of the grammar: each has a lemma that says it reads them,
and one that says it reads nothing else.
-/
namespace Pausable.Wire

open WrittenNumber

variable {r : Text}

/-! ## Blanks -/

theorem skipBlanks_append (p : Nat) {b t : Text} (hb : Blank b) (ht : t.Stops CodePoint.isBlank) :
    (⟨p, b ++ t⟩ : Cursor).skipBlanks = ⟨p + b.length, t⟩ := by
  rw [Cursor.skipBlanks, Cursor.skipRun, Cursor.takeRun_append hb ht]

theorem skipBlanks_sound (c : Cursor) : ∃ b, c.rest = b ++ c.skipBlanks.rest ∧ Blank b := by
  obtain ⟨hrest, hblank, -⟩ := Cursor.takeRun_sound CodePoint.isBlank c
  exact ⟨_, hrest, hblank⟩

/-- The code points at which a scalar or a key begins. -/
def Starts (c : CodePoint) : Prop := c = '"' ∨ c = '-' ∨ c.isDigit = true ∨ c.isWordChar = true

theorem Starts.not_isBlank {c : CodePoint} (h : Starts c) : c.isBlank = false := by
  rcases h with rfl | rfl | h | h
  · rfl
  · rfl
  · exact CodePoint.not_isBlank_of_isDigit h
  · exact CodePoint.not_isBlank_of_isWordChar h

theorem Starts.ne_container {c : CodePoint} (h : Starts c) : c ≠ '[' ∧ c ≠ ']' ∧ c ≠ '\x7b' ∧ c ≠ '\x7d' := by
  refine ⟨?_, ?_, ?_, ?_⟩ <;>
  · rintro rfl
    rcases h with h | h | h | h <;> revert h <;> decide +kernel

/-! ## Constants -/

theorem pairwise_constants : constants.Pairwise fun a b => a.1.take 2 ≠ b.1.take 2 := by decide

theorem length_constant {word : Text} {v : Value} (h : (word, v) ∈ constants) : 2 ≤ word.length := by
  have hall : ∀ k ∈ constants, 2 ≤ k.1.length := by decide
  exact hall _ h

theorem head_constant {word : Text} {v : Value} (h : (word, v) ∈ constants) (r : Text) :
    ∃ c u, word ++ r = c :: u ∧ (c.isWordChar = true ∨ c = '-') := by
  simp only [constants, List.mem_cons, Prod.mk.injEq, List.not_mem_nil, or_false] at h
  rcases h with ⟨rfl, -⟩ | ⟨rfl, -⟩ | ⟨rfl, -⟩ | ⟨rfl, -⟩ | ⟨rfl, -⟩ | ⟨rfl, -⟩ <;>
    first
      | exact ⟨_, _, rfl, .inl rfl⟩
      | exact ⟨_, _, rfl, .inr rfl⟩

theorem keyword?_append (p : Nat) (word : Text) (hr : r.Stops CodePoint.isWordChar) :
    keyword? word ⟨p, word ++ r⟩ = some ⟨p + word.length, r⟩ := by
  have htake : (word ++ r).take word.length = word := List.take_left
  rw [keyword?, Cursor.skip_append, Cursor.next_stops hr, if_pos ⟨htake, rfl⟩]

theorem constant?_complete (p : Nat) {word : Text} {v : Value} (h : (word, v) ∈ constants)
    (hr : r.Stops CodePoint.isWordChar) : ∃ p', constant? ⟨p, word ++ r⟩ = some (v, ⟨p', r⟩) := by
  obtain ⟨before, after, hsplit⟩ := List.append_of_mem h
  refine ⟨p + word.length, List.findSome?_eq_some_iff.2 ⟨before, _, after, hsplit, ?_, ?_⟩⟩
  · rw [keyword?_append p word hr]
    rfl
  · intro k hk
    have hlength : 2 ≤ k.1.length := length_constant (hsplit ▸ List.mem_append_left _ hk)
    have hpair := pairwise_constants
    rw [hsplit, List.pairwise_append] at hpair
    have hne := hpair.2.2 k hk _ (List.mem_cons_self ..)
    -- the first two letters tell the words apart
    have hnot : (word ++ r).take k.1.length ≠ k.1 := by
      intro htake
      refine hne ?_
      rw [← htake, List.take_take, Nat.min_eq_left hlength, List.take_append_of_le_length (length_constant h)]
    rw [keyword?, if_neg fun hw => hnot hw.1]
    rfl

theorem constant?_sound {c a : Cursor} {v : Value} (h : constant? c = some (v, a)) :
    ∃ word, (word, v) ∈ constants ∧ c.rest = word ++ a.rest ∧ a.rest.Stops CodePoint.isWordChar := by
  obtain ⟨⟨word, w⟩, hmem, hw⟩ := List.exists_of_findSome?_eq_some h
  obtain ⟨after, hafter, hpair⟩ := Option.map_eq_some_iff.1 hw
  cases hpair
  simp only [keyword?] at hafter
  split at hafter
  · rename_i hword
    cases hafter
    refine ⟨word, hmem, ?_, Cursor.stops_of_next (Bool.not_eq_eq_eq_not.1 hword.2)⟩
    rw [Cursor.rest_skip]
    conv_lhs => rw [← List.take_append_drop word.length c.rest, hword.1]
  · cases hafter

/-! ## Numbers -/

/-- What the reader cuts at the beginning of a number is the longest text of one. -/
theorem takeNumber_sound {b a : Cursor} {w : WrittenNumber} {c : CodePoint} {u : Text} (hb : b.rest = c :: u)
    (hc : c = '-' ∨ c.isDigit = true) (h : takeNumber b = (w, a)) :
    ∃ t, b.rest = c :: t ++ a.rest ∧ w.Longest (c :: t) a.rest := by
  obtain ⟨w', t, r, hsplit, hlongest⟩ := exists_longest hc u
  obtain ⟨p, hp⟩ := takeNumber_longest b.position hlongest
  have heq : b = ⟨b.position, c :: t ++ r⟩ := by rw [← hsplit, ← hb]
  rw [← heq, h] at hp
  cases hp
  exact ⟨t, hb.trans hsplit, hlongest⟩

/-- No number begins like a constant. -/
theorem constant?_number (p : Nat) {c : CodePoint} {t : Text} {w : WrittenNumber} {n : Number}
    (hc : c = '-' ∨ c.isDigit = true) (h : w.Longest (c :: t) r) (hn : w.toNumber? = some n) :
    constant? ⟨p, c :: t ++ r⟩ = none := by
  cases hconstant : constant? ⟨p, c :: t ++ r⟩ with
  | none => rfl
  | some found =>
      obtain ⟨v, a⟩ := found
      obtain ⟨word, hword, hrest, -⟩ := constant?_sound hconstant
      have hletter {d : CodePoint} {u : Text} (hd : d ≠ '-' ∧ d.isDigit = false) (heq : c :: t ++ r = d :: u) :
          False := by
        cases heq
        rcases hc with hc | hc
        · exact hd.1 hc
        · rw [hd.2] at hc
          cases hc
      simp only [constants, List.mem_cons, Prod.mk.injEq, List.not_mem_nil, or_false] at hword
      rcases hword with ⟨rfl, -⟩ | ⟨rfl, -⟩ | ⟨rfl, -⟩ | ⟨rfl, -⟩ | ⟨rfl, -⟩ | ⟨rfl, -⟩
      · exact (hletter (by decide) hrest).elim
      · exact (hletter (by decide) hrest).elim
      · exact (hletter (by decide) hrest).elim
      · exact (hletter (by decide) hrest).elim
      · -- behind the sign stands no digit, so there is no number
        obtain ⟨p', hp⟩ := takeNumber_longest p h
        have hcut : (takeNumber ⟨p, "-INF" ++ a.rest⟩).1 = ⟨true, [], none, none⟩ := rfl
        have htext : c :: t ++ r = "-INF" ++ a.rest := hrest
        rw [← htext, hp] at hcut
        rw [show w = ⟨true, [], none, none⟩ from hcut] at hn
        cases hn
      · exact (hletter (by decide) hrest).elim

theorem readNumber_complete (p : Nat) {c : CodePoint} {t : Text} {w : WrittenNumber} {n : Number}
    (h : w.Longest (c :: t) r) (hn : w.toNumber? = some n) :
    ∃ p', readNumber ⟨p, c :: t ++ r⟩ = .ok (n, ⟨p', r⟩) := by
  obtain ⟨p', hp⟩ := takeNumber_longest p h
  exact ⟨p', by simp only [readNumber, hp, hn]⟩

theorem readNumber_sound {b a : Cursor} {n : Number} {c : CodePoint} {u : Text} (hb : b.rest = c :: u)
    (hc : c = '-' ∨ c.isDigit = true) (h : readNumber b = .ok (n, a)) : Scalar b.rest (.number n) a.rest := by
  simp only [readNumber] at h
  split at h
  · rename_i m hm
    cases h
    obtain ⟨t, hrest, hlongest⟩ := takeNumber_sound hb hc rfl
    rw [hrest]
    exact .number hc hlongest hm
  · cases h

/-! ## Scalars -/

theorem starts_scalar {t : Text} {v : Value} (h : Scalar t v r) : ∃ c u, t = c :: u ∧ Starts c := by
  cases h with
  | constant h _ =>
      obtain ⟨c, u, hcu, hc⟩ := head_constant h r
      exact ⟨c, u, hcu, hc.elim (fun hc => .inr (.inr (.inr hc))) fun hc => .inr (.inl hc)⟩
  | text h => exact ⟨_, _, rfl, .inl rfl⟩
  | number hc h hn => exact ⟨_, _, rfl, .inr (hc.imp_right .inl)⟩

theorem readScalar_quote (p : Nat) (t : Text) :
    readScalar ⟨p, CodePoint.ofChar '"' :: t⟩ = (readQuoted ⟨p + 1, t⟩ []).map fun r => (.text r.1, r.2) := by
  have hnone : constant? ⟨p, CodePoint.ofChar '"' :: t⟩ = none := by
    cases hconstant : constant? ⟨p, CodePoint.ofChar '"' :: t⟩ with
    | none => rfl
    | some found =>
        obtain ⟨word, hword, hrest, -⟩ := constant?_sound (a := found.2) (v := found.1) hconstant
        obtain ⟨c, u, hcu, hc⟩ := head_constant hword found.2.rest
        rw [hcu] at hrest
        cases hrest
        rcases hc with hc | hc <;> exact absurd hc (by decide)
  simp only [readScalar, hnone, ↓reduceIte]
  rfl

theorem readScalar_complete {t : Text} {v : Value} (h : Scalar t v r) (p : Nat) :
    ∃ p', readScalar ⟨p, t⟩ = .ok (v, ⟨p', r⟩) := by
  cases h with
  | constant h hr =>
      obtain ⟨p', hp⟩ := constant?_complete p h hr
      exact ⟨p', by simp only [readScalar, hp]⟩
  | text h =>
      obtain ⟨p', hp⟩ := readQuoted_complete h (p + 1) []
      refine ⟨p', ?_⟩
      rw [readScalar_quote, hp]
      rfl
  | @number c t r w n hc h hn =>
      obtain ⟨p', hp⟩ := readNumber_complete p h hn
      have hnone := constant?_number p hc h hn
      have hquote : c ≠ '"' := by
        rintro rfl
        rcases hc with hc | hc <;> revert hc <;> decide
      refine ⟨p', ?_⟩
      rw [List.cons_append] at hp hnone ⊢
      simp only [readScalar, hnone, if_neg hquote, if_pos hc, hp]
      rfl

theorem readScalar_sound {b a : Cursor} {v : Value} (h : readScalar b = .ok (v, a)) : Scalar b.rest v a.rest := by
  simp only [readScalar] at h
  split at h
  · rename_i found hfound
    cases h
    obtain ⟨word, hword, hrest, hstops⟩ := constant?_sound hfound
    rw [hrest]
    exact .constant hword hstops
  · split at h
    · cases h
    · rename_i d t hb
      split at h
      · rename_i hd
        obtain ⟨⟨t, after⟩, ht, hpair⟩ := ok_of_map h
        cases hpair
        obtain ⟨s, rfl, hquoted⟩ := readQuoted_sound ht
        rw [Cursor.rest_skip, hb] at hquoted
        rw [hb, hd]
        exact .text hquoted
      · split at h
        · rename_i hd
          obtain ⟨⟨n, after⟩, hn, hpair⟩ := ok_of_map h
          cases hpair
          exact readNumber_sound hb hd hn
        · cases h

/-! ## Keys -/

theorem starts_key {t k : Text} (h : Key t k r) : ∃ c u, t = c :: u ∧ Starts c := by
  cases h with
  | text h => exact ⟨_, _, rfl, .inl rfl⟩
  | name hne hword hr =>
      obtain ⟨c, u, rfl⟩ := List.exists_cons_of_ne_nil hne
      exact ⟨c, u ++ r, rfl, .inr (.inr (.inr (hword c (List.mem_cons_self ..))))⟩

theorem stops_isBlank_of_starts {t : Text} (h : ∃ c u, t = c :: u ∧ Starts c) : t.Stops CodePoint.isBlank := by
  obtain ⟨c, u, rfl, hc⟩ := h
  rintro _ ⟨⟩
  exact hc.not_isBlank

/-- A key is read with the colon behind it. -/
theorem readKey_complete (p : Nat) {b b' t k : Text} (hb : Blank b) (h : Key t k (b' ++ (":" ++ r)))
    (hb' : Blank b') : ∃ p', readKey ⟨p, b ++ t⟩ = .ok (k, ⟨p', r⟩) := by
  have hskip := skipBlanks_append p hb (stops_isBlank_of_starts (starts_key h))
  have hcolon (p : Nat) : (⟨p, b' ++ (":" ++ r)⟩ : Cursor).skipBlanks = ⟨p + b'.length, ":" ++ r⟩ :=
    skipBlanks_append p hb' (by rintro _ ⟨⟩; rfl)
  have hread : ∃ c u p', t = c :: u ∧
      (if c = '"' then readText ⟨p + b.length, t⟩ else readName ⟨p + b.length, t⟩) =
        .ok (k, ⟨p', b' ++ (":" ++ r)⟩) := by
    cases h with
    | text h =>
        obtain ⟨p', hp⟩ := readQuoted_complete h (p + b.length + 1) []
        exact ⟨_, _, p', rfl, hp⟩
    | name hne hword hr =>
        have hrun := Cursor.takeRun_append (p := p + b.length) hword hr
        obtain ⟨c, u, rfl⟩ := List.exists_cons_of_ne_nil hne
        have hquote : c ≠ '"' := by
          rintro rfl
          have := hword _ (List.mem_cons_self ..)
          cases this
        refine ⟨c, u ++ (b' ++ (":" ++ r)), p + b.length + (c :: u).length, rfl, ?_⟩
        rw [if_neg hquote, readName, hrun]
        rfl
  obtain ⟨c, u, p', rfl, hp⟩ := hread
  refine ⟨p' + b'.length + 1, ?_⟩
  simp only [readKey, hskip, hp, hcolon]
  rfl

theorem readName_sound {b a : Cursor} {k : Text} (h : readName b = .ok (k, a)) : Key b.rest k a.rest := by
  obtain ⟨hrest, hword, hstops⟩ := Cursor.takeRun_sound CodePoint.isWordChar b
  simp only [readName] at h
  split at h
  · cases h
  · rename_i hne
    cases h
    rw [hrest]
    refine .name (fun hnil => hne ?_) hword hstops
    rw [hnil]
    rfl

theorem readKey_sound {c a : Cursor} {k : Text} (h : readKey c = .ok (k, a)) :
    ∃ b t b', c.rest = b ++ t ∧ Blank b ∧ Key t k (b' ++ (":" ++ a.rest)) ∧ Blank b' := by
  obtain ⟨b, hrest, hb⟩ := skipBlanks_sound c
  simp only [readKey] at h
  split at h
  · cases h
  · rename_i d u hd
    split at h
    · cases h
    · rename_i key after hkey
      obtain ⟨b', hrest', hb'⟩ := skipBlanks_sound after
      split at h
      · rename_i hcolon
        cases h
        have hkeyed : Key c.skipBlanks.rest k after.rest := by
          split at hkey
          · rename_i hquote
            obtain ⟨s, rfl, hquoted⟩ := readQuoted_sound hkey
            rw [Cursor.rest_skip, hd] at hquoted
            rw [hd, hquote]
            exact .text hquoted
          · exact readName_sound hkey
        refine ⟨b, _, b', hrest, hb, ?_, hb'⟩
        cases hafter : after.skipBlanks.rest with
        | nil => rw [Cursor.next, hafter] at hcolon; cases hcolon
        | cons e u' =>
            rw [Cursor.next, hafter] at hcolon
            obtain rfl : e = ':' := of_decide_eq_true hcolon
            rw [hrest', hafter] at hkeyed
            rw [Cursor.rest_skip, hafter]
            exact hkeyed
      · cases h

end Pausable.Wire
