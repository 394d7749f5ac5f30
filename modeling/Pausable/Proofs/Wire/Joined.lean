import Pausable.Proofs.Text.Paired
import Pausable.Proofs.Wire.Quoted

/-!
What the reader makes of a written text. The writer escapes each code point by itself, and the reader takes a
first surrogate with the escape behind it for a pair: two surrogates become one code point, and a first one
before any other escape is refused (`joined`). The texts that are read at all are the legible ones.
-/
namespace Pausable

namespace Wire

/-- The text that is read where one is written; none if a first surrogate stands before an escape that is no
second one. -/
def joined : Text → Option Text
  | [] => some []
  | [c] => some [c]
  | c :: d :: t =>
    if CodePoint.isHigh c.val ∧ ("\\u" : Text) <+: escaped d then
      if CodePoint.isLow d.val then (joined t).map (CodePoint.ofPair c.val d.val :: ·) else none
    else (joined (d :: t)).map (c :: ·)

/-- A first surrogate stands before a second one or before a code point that is written without `\u`. -/
def Legible (t : Text) : Prop :=
  t.IsChain fun c d => CodePoint.isHigh c.val = true → ("\\u" : Text) <+: escaped d → CodePoint.isLow d.val = true

instance (t : Text) : Decidable (Legible t) := inferInstanceAs (Decidable (t.IsChain _))

theorem joined_isSome (t : Text) : (joined t).isSome = true ↔ Legible t := by
  fun_induction joined t with
  | case1 => exact ⟨fun _ => .nil, fun _ => rfl⟩
  | case2 c => exact ⟨fun _ => .singleton c, fun _ => rfl⟩
  | case3 c d t hpair hlow ih =>
      have hd : Legible (d :: t) ↔ Legible t := by
        refine ⟨List.IsChain.tail, fun h => ?_⟩
        cases t with
        | nil => exact .singleton d
        | cons e t => exact .cons_cons (fun hhigh => absurd hhigh (CodePoint.not_isHigh_of_isLow hlow)) h
      rw [Option.isSome_map, ih, ← hd]
      exact ⟨.cons_cons fun _ _ => hlow, List.IsChain.tail⟩
  | case4 c d t hpair hlow =>
      exact ⟨nofun, fun h => absurd ((List.isChain_cons_cons.1 h).1 hpair.1 hpair.2) hlow⟩
  | case5 c d t hpair ih =>
      rw [Option.isSome_map, ih]
      exact ⟨.cons_cons fun hhigh hescape => absurd ⟨hhigh, hescape⟩ hpair, List.IsChain.tail⟩

/-- Nothing is joined where no first surrogate stands before an escape. -/
theorem joined_unjoined {t : Text} (h : Unjoined t) : joined t = some t := by
  fun_induction joined t with
  | case1 => rfl
  | case2 => rfl
  | case3 c d t hpair => exact absurd hpair.2 ((List.isChain_cons_cons.1 h).1 hpair.1)
  | case4 c d t hpair => exact absurd hpair.2 ((List.isChain_cons_cons.1 h).1 hpair.1)
  | case5 c d t hpair ih => rw [ih h.tail, Option.map_some]

theorem unjoined_of_ascii {t : Text} (h : ∀ c ∈ t, c.val < 0x80) : Unjoined t := by
  induction t with
  | nil => exact .nil
  | cons c t ih =>
      obtain ⟨hc, ht⟩ := List.forall_mem_cons.1 h
      refine List.isChain_cons.2 ⟨fun d _ hhigh => ?_, ih ht⟩
      have := CodePoint.isHigh_iff.1 hhigh
      omega

/-! ## Surrogates as they are written -/

section

variable {c d : CodePoint}

theorem escaped_of_surrogate (hlow : 0xD800 ≤ c.val) (hhigh : c.val ≤ 0xDFFF) : escaped c = Text.unitEscape c.val := by
  rw [escaped_of_large (by omega), Text.unitEscapes, if_pos (by omega)]

theorem escaped_high (h : CodePoint.isHigh c.val = true) : escaped c = Text.unitEscape c.val := by
  have := CodePoint.isHigh_iff.1 h
  exact escaped_of_surrogate this.1 (by omega)

theorem escaped_low (h : CodePoint.isLow c.val = true) : escaped c = Text.unitEscape c.val := by
  have := CodePoint.isLow_iff.1 h
  exact escaped_of_surrogate (by omega) this.2

/-- A pair is written as its two surrogates are. -/
theorem escaped_ofPair (hc : CodePoint.isHigh c.val = true) (hd : CodePoint.isLow d.val = true) :
    escaped (CodePoint.ofPair c.val d.val) = escaped c ++ escaped d := by
  have hlarge := (CodePoint.halves_ofPair hc hd).1
  have hhigh := CodePoint.isHigh_iff.1 hc
  have hlow := CodePoint.isLow_iff.1 hd
  rw [escaped_of_large (by omega), Text.unitEscapes_ofPair hc hd, escaped_of_large (c := c) (by omega),
    escaped_of_large (c := d) (by omega)]

end

/-! ## Reading what is written -/

/-- What is read is written in the same way. -/
theorem flatMap_joined {t s : Text} (h : joined t = some s) : s.flatMap escaped = t.flatMap escaped := by
  fun_induction joined t generalizing s with
  | case1 | case2 => cases h; rfl
  | case3 c d t hpair hlow ih =>
      obtain ⟨u, hu, rfl⟩ := Option.map_eq_some_iff.1 h
      rw [List.flatMap_cons, ih hu, escaped_ofPair hpair.1 hlow, List.append_assoc]
      rfl
  | case4 => cases h
  | case5 c d t hpair ih =>
      obtain ⟨u, hu, rfl⟩ := Option.map_eq_some_iff.1 h
      rw [List.flatMap_cons, ih hu]
      rfl

/-- What is joined shows: it lies above 16 bits. -/
theorem eq_of_joined {t s : Text} (h : joined t = some s) (hs : ∀ c ∈ s, c.val < 0x10000) : s = t := by
  fun_induction joined t generalizing s with
  | case1 | case2 => cases h; rfl
  | case3 c d t hpair hlow =>
      obtain ⟨u, hu, rfl⟩ := Option.map_eq_some_iff.1 h
      have hlt := (List.forall_mem_cons.1 hs).1
      rw [CodePoint.val_ofPair hpair.1 hlow] at hlt
      omega
  | case4 => cases h
  | case5 c d t hpair ih =>
      obtain ⟨u, hu, rfl⟩ := Option.map_eq_some_iff.1 h
      rw [ih hu (List.forall_mem_cons.1 hs).2]

/-- What is joined are the pairs. -/
theorem eq_paired_of_joined {t s : Text} (h : joined t = some s) : s = t.paired := by
  fun_induction joined t generalizing s with
  | case1 | case2 => cases h; rfl
  | case3 c d t hpair hlow ih =>
      obtain ⟨u, hu, rfl⟩ := Option.map_eq_some_iff.1 h
      rw [Text.paired, if_pos ⟨hpair.1, hlow⟩, ih hu]
  | case4 => cases h
  | case5 c d t hpair ih =>
      obtain ⟨u, hu, rfl⟩ := Option.map_eq_some_iff.1 h
      have hne : ¬ (CodePoint.isHigh c.val ∧ CodePoint.isLow d.val) := by
        rintro ⟨hhigh, hlow⟩
        refine hpair ⟨hhigh, ?_⟩
        rw [escaped_low hlow]
        exact List.prefix_append ..
      rw [Text.paired, if_neg hne, ih hu]

/-- No escape begins what is written behind a code point that stays by itself. -/
theorem not_escape_flatMap {c d : CodePoint} {t r : Text}
    (hpair : ¬ (CodePoint.isHigh c.val = true ∧ ("\\u" : Text) <+: escaped d)) (hhigh : CodePoint.isHigh c.val = true) :
    ¬ ("\\u" : Text) <+: (d :: t).flatMap escaped ++ r := by
  rw [List.flatMap_cons, List.append_assoc]
  exact not_escape_append fun hescape => hpair ⟨hhigh, hescape⟩

/-- In what is read no first surrogate stands before an escape. -/
theorem unjoined_joined {t s : Text} (h : joined t = some s) : Unjoined s := by
  fun_induction joined t generalizing s with
  | case1 =>
      cases h
      exact .nil
  | case2 c =>
      cases h
      exact .singleton c
  | case3 c d t hpair hlow ih =>
      obtain ⟨u, hu, rfl⟩ := Option.map_eq_some_iff.1 h
      refine List.isChain_cons.2 ⟨fun e _ hhigh => ?_, ih hu⟩
      rw [CodePoint.isHigh_iff, CodePoint.val_ofPair hpair.1 hlow] at hhigh
      omega
  | case4 => cases h
  | case5 c d t hpair ih =>
      obtain ⟨u, hu, rfl⟩ := Option.map_eq_some_iff.1 h
      refine List.isChain_cons.2 ⟨fun e he hhigh hescape => ?_, ih hu⟩
      obtain ⟨u', rfl⟩ := List.head?_eq_some_iff.1 he
      apply not_escape_flatMap (r := []) hpair hhigh
      rw [← flatMap_joined hu, List.flatMap_cons, List.append_assoc]
      exact hescape.trans (List.prefix_append ..)

theorem escape_pair {c d : CodePoint} (r : Text) (hc : CodePoint.isHigh c.val = true)
    (hd : CodePoint.isLow d.val = true) :
    ∃ t, escaped c ++ (escaped d ++ r) = CodePoint.ofChar '\\' :: t ∧ Escape t (CodePoint.ofPair c.val d.val) r := by
  have := CodePoint.isHigh_iff.1 hc
  have := CodePoint.isLow_iff.1 hd
  refine ⟨'u' :: (Text.hex 4 c.val ++ ("\\u" ++ (Text.hex 4 d.val ++ r))), ?_,
    .pair (codeUnit_hex (by omega)) (codeUnit_hex (by omega)) hc hd⟩
  rw [escaped_high hc, escaped_low hd]
  rfl

/-- A written text is a quoted one, of what is joined. -/
theorem quoted_joined {t s : Text} (h : joined t = some s) (r : Text) :
    Quoted (t.flatMap escaped ++ ("\"" ++ r)) s r := by
  fun_induction joined t generalizing s with
  | case1 =>
      cases h
      exact .close
  | case2 c =>
      cases h
      rw [List.flatMap_singleton]
      refine quoted_escaped c (fun _ hescape => ?_) .close
      obtain ⟨u, hu⟩ := hescape
      cases hu
  | case3 c d t hpair hlow ih =>
      obtain ⟨u, hu, rfl⟩ := Option.map_eq_some_iff.1 h
      rw [List.flatMap_cons, List.flatMap_cons, List.append_assoc, List.append_assoc]
      obtain ⟨w, hw, hescape⟩ := escape_pair (t.flatMap escaped ++ ("\"" ++ r)) hpair.1 hlow
      rw [hw]
      exact .escape hescape (ih hu)
  | case4 => cases h
  | case5 c d t hpair ih =>
      obtain ⟨u, hu, rfl⟩ := Option.map_eq_some_iff.1 h
      rw [List.flatMap_cons, List.append_assoc]
      exact quoted_escaped c (not_escape_flatMap hpair) (ih hu)

/-- Behind a first surrogate the reader refuses every escape that is no second one. -/
theorem readEscape_unpaired {p : Nat} {r : Text} {c d : CodePoint} (hc : CodePoint.isHigh c.val = true)
    (hescape : ("\\u" : Text) <+: escaped d) (hd : ¬ CodePoint.isLow d.val = true) :
    ∃ e, readEscape ⟨p, 'u' :: (Text.hex 4 c.val ++ (escaped d ++ r))⟩ = .error e := by
  have hunit {n : Nat} {u : Text} (hn : n < 0x10000) (hlow : ¬ CodePoint.isLow n = true) :
      ∃ e, readEscape ⟨p, 'u' :: (Text.hex 4 c.val ++ (Text.unitEscape n ++ u))⟩ = .error e := by
    have hbound := CodePoint.isHigh_iff.1 hc
    have hfirst := readUnit_digits (p := p) (r := Text.unitEscape n ++ u) (codeUnit_hex (show c.val < 0x10000 by omega))
    have hskip : (⟨p + 5, Text.unitEscape n ++ u⟩ : Cursor).skip 1 = ⟨p + 6, 'u' :: (Text.hex 4 n ++ u)⟩ := rfl
    have hsecond := readUnit_digits (p := p + 6) (r := u) (codeUnit_hex hn)
    have htake : (Text.unitEscape n ++ u).take 2 = "\\u" := rfl
    have hread : readEscape ⟨p, 'u' :: (Text.hex 4 c.val ++ (Text.unitEscape n ++ u))⟩ =
        readUnicode ⟨p, 'u' :: (Text.hex 4 c.val ++ (Text.unitEscape n ++ u))⟩ := rfl
    rw [hread, readUnicode, hfirst]
    simp only [hc, htake, and_self, ↓reduceIte, hskip, hsecond, if_neg hlow]
    exact ⟨_, rfl⟩
  rcases escaped_cases d with ⟨e, hwritten, he⟩ | ⟨hwritten, -⟩ | ⟨hwritten, hlt⟩ | ⟨hge, hwritten⟩
  · rw [hwritten] at hescape
    obtain ⟨u, hu⟩ := hescape
    exact absurd (List.cons.inj (List.cons.inj hu).2).1.symm he.ne_u
  · rw [hwritten] at hescape
    obtain ⟨u, hu⟩ := hescape
    cases (List.cons.inj hu).2
  · rw [hwritten]
    exact hunit hlt hd
  · have := d.isLt
    rw [hwritten, List.append_assoc]
    refine hunit (by omega) ?_
    rw [CodePoint.isLow_iff]
    omega

/-- Nothing is read where nothing is joined. -/
theorem readQuoted_illegible {t : Text} (h : joined t = none) (r : Text) (p : Nat) (out : Text) :
    ∃ e, readQuoted ⟨p, t.flatMap escaped ++ r⟩ out = .error e := by
  fun_induction joined t generalizing p out with
  | case1 | case2 => cases h
  | case3 c d t hpair hlow ih =>
      rw [Option.map_eq_none_iff] at h
      rw [List.flatMap_cons, List.flatMap_cons, List.append_assoc, List.append_assoc]
      obtain ⟨w, hw, hescape⟩ := escape_pair (t.flatMap escaped ++ r) hpair.1 hlow
      obtain ⟨p', hp⟩ := readEscape_complete hescape (p + 1)
      rw [hw, readQuoted_escape hp]
      exact ih h p' _
  | case4 c d t hpair hlow =>
      rw [List.flatMap_cons, List.flatMap_cons, List.append_assoc, List.append_assoc, escaped_high hpair.1,
        Text.unitEscape_append]
      obtain ⟨e, he⟩ := readEscape_unpaired (p := p + 1) (r := t.flatMap escaped ++ r) hpair.1 hpair.2 hlow
      exact ⟨e, by rw [readQuoted_backslash, he]⟩
  | case5 c d t hpair ih =>
      rw [Option.map_eq_none_iff] at h
      rw [List.flatMap_cons, List.append_assoc]
      obtain ⟨p', hp⟩ := readQuoted_escaped p out c (not_escape_flatMap hpair)
      rw [hp]
      exact ih h p' _

end Wire
end Pausable
