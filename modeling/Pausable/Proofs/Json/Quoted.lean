import Pausable.Json.Writer
import Pausable.Proofs.Text.Hex
import Pausable.Proofs.Text.Paired

/-!
Strings in which surrogates stand by themselves are read back (`readString_quote`). In all others the reader takes
two surrogates for a pair.
-/
namespace Pausable.Json

/-- No member is a surrogate. -/
def Scalar (t : Text) : Prop := ∀ c ∈ t, c.isSurrogate = false

instance : DecidablePred Scalar := fun t => inferInstanceAs (Decidable (∀ c ∈ t, c.isSurrogate = false))

theorem isHigh_of_isSurrogate {c : CodePoint} (h : c.isSurrogate = false) : CodePoint.isHigh c.val = false := by
  simp only [CodePoint.isSurrogate, Bool.and_eq_false_iff, decide_eq_false_iff_not] at h
  simp only [CodePoint.isHigh, Bool.and_eq_false_iff, decide_eq_false_iff_not]
  omega

theorem Scalar.unpaired {t : Text} (h : Scalar t) : t.Unpaired := by
  refine List.Pairwise.isChain (List.pairwise_of_forall_mem_list fun c hc d _ hhigh => ?_)
  rw [isHigh_of_isSurrogate (h c hc)] at hhigh
  cases hhigh

theorem Scalar.paired {t : Text} (h : Scalar t) : t.paired = t := Text.paired_of_unpaired h.unpaired

/-- An escape that the text begins with is none of a second surrogate. -/
def NoLow (r : Text) : Prop :=
  ∀ u, r = "\\u" ++ u → ∃ n v, u = Text.hex 4 n ++ v ∧ n < 0x10000 ∧ CodePoint.isLow n = false

section

variable {start p : Nat} {out r : Text} {c : CodePoint}

theorem unit?_hex {n : Nat} (h : n < 0x10000) : unit? ⟨p, Text.hex 4 n ++ r⟩ = some n := by
  have htake : (Text.hex 4 n ++ r).take 4 = Text.hex 4 n := List.take_left' (Text.length_hex 4 n)
  simp only [unit?, htake, Text.length_hex, ↓reduceIte, Text.hexValue?_hex (show n < 16 ^ 4 from h)]

theorem skip_unit (n : Nat) : (⟨p, 'u' :: (Text.hex 4 n ++ r)⟩ : Cursor).skip 5 = ⟨p + 5, r⟩ := by
  have hdrop : (Text.hex 4 n ++ r).drop 4 = r := List.drop_left' (Text.length_hex 4 n)
  rw [Cursor.skip, List.drop_succ_cons, hdrop]

theorem readUnicode_unit (h : c.val < 0x10000) (hc : CodePoint.isHigh c.val = true → NoLow r) (hr : r ≠ []) :
    readUnicode ⟨p, 'u' :: (Text.hex 4 c.val ++ r)⟩ = .ok (c, ⟨p + 5, r⟩) := by
  have hlen := List.length_pos_iff.2 hr
  have hshort : ¬ ('u' :: (Text.hex 4 c.val ++ r) : Text).length ≤ 5 := by
    rw [List.length_cons, List.length_append, Text.length_hex]
    omega
  have hskip : (⟨p, 'u' :: (Text.hex 4 c.val ++ r)⟩ : Cursor).skip 1 = ⟨p + 1, Text.hex 4 c.val ++ r⟩ := rfl
  simp only [readUnicode, if_neg hshort, hskip, unit?_hex h, skip_unit]
  split
  · rename_i hpair
    obtain ⟨u, rfl⟩ : ("\\u" : Text) <+: r := hpair.2.2 ▸ List.take_prefix 2 r
    obtain ⟨n, v, rfl, hn, hlow⟩ := hc hpair.1 u rfl
    have htwo : (⟨p + 5, "\\u" ++ (Text.hex 4 n ++ v)⟩ : Cursor).skip 2 = ⟨p + 7, Text.hex 4 n ++ v⟩ := rfl
    simp only [htwo, unit?_hex hn, hlow, Bool.false_eq_true, ↓reduceIte, CodePoint.ofNat_val]
  · rw [CodePoint.ofNat_val]

theorem readUnicode_two {high low : Nat} (hh : high < 0x10000) (hl : low < 0x10000)
    (hhigh : CodePoint.isHigh high = true) (hlow : CodePoint.isLow low = true) (hr : r ≠ []) :
    readUnicode ⟨p, 'u' :: (Text.hex 4 high ++ ("\\u" ++ (Text.hex 4 low ++ r)))⟩ =
      .ok (CodePoint.ofPair high low, ⟨p + 11, r⟩) := by
  have hlen := List.length_pos_iff.2 hr
  have hafter : 6 < (("\\u" : Text) ++ (Text.hex 4 low ++ r)).length := by
    have : ("\\u" : Text).length = 2 := rfl
    rw [List.length_append, List.length_append, Text.length_hex]
    omega
  have hshort : ¬ ('u' :: (Text.hex 4 high ++ ("\\u" ++ (Text.hex 4 low ++ r))) : Text).length ≤ 5 := by
    rw [List.length_cons, List.length_append, Text.length_hex]
    omega
  have hskip (t : Text) : (⟨p, 'u' :: t⟩ : Cursor).skip 1 = ⟨p + 1, t⟩ := rfl
  have htake (t : Text) : (("\\u" : Text) ++ t).take 2 = "\\u" := rfl
  have htwo (t : Text) : (⟨p + 5, "\\u" ++ t⟩ : Cursor).skip 2 = ⟨p + 7, t⟩ := rfl
  have hsix : (⟨p + 5, "\\u" ++ (Text.hex 4 low ++ r)⟩ : Cursor).skip 6 = ⟨p + 11, r⟩ :=
    skip_unit (p := p + 6) low
  simp only [readUnicode, if_neg hshort, hskip, unit?_hex hh, skip_unit, hhigh, hafter, htake, and_self,
    ↓reduceIte, htwo, unit?_hex hl, hlow, hsix]

theorem readQuoted_escape {a : Cursor} {m : CodePoint} {t : Text}
    (h : readEscape start ⟨p + 1, t⟩ = .ok (m, a)) :
    readQuoted start ⟨p, '\\' :: t⟩ out = readQuoted start a (m :: out) := by
  have hquote : ¬ CodePoint.ofChar '\\' = '"' := by decide
  rw [readQuoted]
  simp only [if_neg hquote, ↓reduceIte]
  split
  · rename_i e he
    cases he.symm.trans h
  · rename_i m' a' he
    cases he.symm.trans h
    rfl

theorem readQuoted_plain (hq : c ≠ '"') (hb : c ≠ '\\') (hctl : ¬ c.val < 0x20) :
    readQuoted start ⟨p, c :: r⟩ out = readQuoted start ⟨p + 1, r⟩ (c :: out) := by
  rw [readQuoted]
  simp only [if_neg hq, if_neg hb, if_neg hctl]
  rfl

theorem readQuoted_close : readQuoted start ⟨p, '"' :: r⟩ out = .ok (out.reverse, ⟨p + 1, r⟩) := by
  rw [readQuoted]
  rfl

theorem readEscape_simple {e d : CodePoint} (hu : e ≠ 'u') (he : simpleEscape? e = some d) :
    readEscape start ⟨p, e :: r⟩ = .ok (d, ⟨p + 1, r⟩) := by
  simp only [readEscape, if_neg hu, he]
  rfl

theorem readEscape_unit : readEscape start ⟨p, 'u' :: r⟩ = readUnicode ⟨p, 'u' :: r⟩ := by
  simp only [readEscape, ↓reduceIte]

theorem readQuoted_unit (h : c.val < 0x10000) (hc : CodePoint.isHigh c.val = true → NoLow r) (hr : r ≠ []) :
    readQuoted start ⟨p, Text.unitEscape c.val ++ r⟩ out = readQuoted start ⟨p + 6, r⟩ (c :: out) := by
  rw [Text.unitEscape_append]
  exact readQuoted_escape (readEscape_unit.trans (readUnicode_unit h hc hr))

theorem readQuoted_two {high low : Nat} (hh : high < 0x10000) (hl : low < 0x10000)
    (hhigh : CodePoint.isHigh high = true) (hlow : CodePoint.isLow low = true) (hr : r ≠ []) :
    readQuoted start ⟨p, Text.unitEscape high ++ (Text.unitEscape low ++ r)⟩ out =
      readQuoted start ⟨p + 12, r⟩ (CodePoint.ofPair high low :: out) := by
  rw [Text.unitEscape_append]
  exact readQuoted_escape (readEscape_unit.trans (readUnicode_two hh hl hhigh hlow hr))

/-- How a code point is written: as a short escape, as it is, as a unit or as two. -/
theorem escaped_cases (c : CodePoint) :
    (∃ e, escaped c = [CodePoint.ofChar '\\', e] ∧ e ≠ 'u' ∧ simpleEscape? e = some c) ∨
      (escaped c = [c] ∧ c ≠ '"' ∧ c ≠ '\\' ∧ 0x20 ≤ c.val) ∨
      (escaped c = Text.unitEscape c.val ∧ c.val < 0x10000) ∨
      0x10000 ≤ c.val ∧ escaped c = Text.unitEscape (0xD800 + (c.val - 0x10000) / 0x400) ++
        Text.unitEscape (0xDC00 + (c.val - 0x10000) % 0x400) := by
  unfold escaped
  by_cases hbackslash : c = '\\'
  · exact .inl ⟨'\\', if_pos hbackslash, by decide, by rw [hbackslash]; rfl⟩
  rw [if_neg hbackslash]
  by_cases hquote : c = '"'
  · exact .inl ⟨'"', if_pos hquote, by decide, by rw [hquote]; rfl⟩
  rw [if_neg hquote]
  by_cases hline : c = '\n'
  · exact .inl ⟨'n', if_pos hline, by decide, by rw [hline]; rfl⟩
  rw [if_neg hline]
  by_cases htab : c = '\t'
  · exact .inl ⟨'t', if_pos htab, by decide, by rw [htab]; rfl⟩
  rw [if_neg htab]
  by_cases hreturn : c = '\r'
  · exact .inl ⟨'r', if_pos hreturn, by decide, by rw [hreturn]; rfl⟩
  rw [if_neg hreturn]
  by_cases hfeed : c = '\x0c'
  · exact .inl ⟨'f', if_pos hfeed, by decide, by rw [hfeed]; rfl⟩
  rw [if_neg hfeed]
  by_cases hback : c = '\x08'
  · exact .inl ⟨'b', if_pos hback, by decide, by rw [hback]; rfl⟩
  rw [if_neg hback]
  by_cases hplain : 0x20 ≤ c.val ∧ c.val ≤ 0x7E
  · exact .inr (.inl ⟨if_pos hplain, hquote, hbackslash, hplain.1⟩)
  rw [if_neg hplain]
  by_cases hunit : c.val < 0x10000
  · exact .inr (.inr (.inl ⟨if_pos hunit, hunit⟩))
  · exact .inr (.inr (.inr ⟨Nat.le_of_not_lt hunit, if_neg hunit⟩))

/-- One written code point is read, if more is written behind it. -/
theorem readQuoted_escaped (start p : Nat) (out : Text) {r : Text} {c : CodePoint}
    (hc : CodePoint.isHigh c.val = true → NoLow r) (hr : r ≠ []) :
    ∃ p', readQuoted start ⟨p, escaped c ++ r⟩ out = readQuoted start ⟨p', r⟩ (c :: out) := by
  rcases escaped_cases c with ⟨e, h, hu, he⟩ | ⟨h, hq, hb, hlow⟩ | ⟨h, hlt⟩ | ⟨hge, h⟩
  · rw [h]
    exact ⟨p + 2, readQuoted_escape (readEscape_simple hu he)⟩
  · rw [h]
    exact ⟨p + 1, readQuoted_plain hq hb (Nat.not_lt.2 hlow)⟩
  · rw [h]
    exact ⟨p + 6, readQuoted_unit hlt hc hr⟩
  · have hlt := c.isLt
    rw [h, List.append_assoc, readQuoted_two (by omega) (by omega) (CodePoint.isHigh_half c)
      (CodePoint.isLow_half c) hr, CodePoint.ofPair_halves hge]
    exact ⟨p + 12, rfl⟩

/-- No second surrogate is written first where none stands first. -/
theorem noLow_flatMap {t : Text} (ht : ∀ d ∈ t.head?, ¬ CodePoint.isLow d.val = true) (r : Text) :
    NoLow (t.flatMap escaped ++ ("\"" ++ r)) := by
  intro u hu
  cases t with
  | nil => cases hu
  | cons d t =>
      have hd : CodePoint.isLow d.val = false := by simpa using ht d rfl
      have hunit (n : Nat) (v : Text) (h : Text.unitEscape n ++ v = "\\u" ++ u) : u = Text.hex 4 n ++ v :=
        (List.cons.inj (List.cons.inj h).2).2.symm
      rw [List.flatMap_cons, List.append_assoc] at hu
      rcases escaped_cases d with ⟨e, h, hne, -⟩ | ⟨h, -, hb, -⟩ | ⟨h, hlt⟩ | ⟨hge, h⟩
      · rw [h] at hu
        exact absurd (List.cons.inj (List.cons.inj hu).2).1 hne
      · rw [h] at hu
        exact absurd (List.cons.inj hu).1 hb
      · rw [h] at hu
        exact ⟨_, _, hunit _ _ hu, hlt, hd⟩
      · have hlt := d.isLt
        rw [h, List.append_assoc] at hu
        refine ⟨_, _, hunit _ _ hu, by omega, ?_⟩
        simpa using fun hlow => CodePoint.not_isHigh_of_isLow hlow (CodePoint.isHigh_half d)

/-- A written text is read up to its closing quote. -/
theorem readQuoted_flatMap (start : Nat) {t : Text} (ht : t.Unpaired) (p : Nat) (out r : Text) :
    ∃ p', readQuoted start ⟨p, t.flatMap escaped ++ ("\"" ++ r)⟩ out = .ok (out.reverse ++ t, ⟨p', r⟩) := by
  induction t generalizing p out with
  | nil => exact ⟨p + 1, by rw [List.append_nil]; exact readQuoted_close⟩
  | cons c t ih =>
      have hquote : ("\"" : Text) ++ r ≠ [] := List.cons_ne_nil (CodePoint.ofChar '"') r
      have hne := List.append_ne_nil_of_right_ne_nil (t.flatMap escaped) hquote
      have hlow (hhigh : CodePoint.isHigh c.val = true) : NoLow (t.flatMap escaped ++ ("\"" ++ r)) :=
        noLow_flatMap (fun d hd => (List.isChain_cons.1 ht).1 d hd hhigh) r
      obtain ⟨p₁, h₁⟩ := readQuoted_escaped start p out hlow hne
      obtain ⟨p₂, h₂⟩ := ih ht.tail p₁ (c :: out)
      rw [List.flatMap_cons, List.append_assoc, h₁, h₂, List.reverse_cons, List.append_assoc]
      exact ⟨p₂, rfl⟩

theorem readString_quote {t : Text} (ht : t.Unpaired) (p : Nat) (r : Text) :
    ∃ p', readString ⟨p, quote t ++ r⟩ = .ok (t, ⟨p', r⟩) := by
  rw [quote, List.append_assoc, List.append_assoc]
  exact readQuoted_flatMap p ht (p + 1) [] r

/-! ## Surrogates as they are written -/

/-- Above ASCII a code point is written in escapes of 16 bits. -/
theorem escaped_of_large (h : 0x7E < c.val) : escaped c = Text.unitEscapes c := by
  have hne (d : Char) (hd : d.toNat ≤ 0x7E) : ¬ c = CodePoint.ofChar d := by
    rintro rfl
    exact absurd h (Nat.not_lt.2 hd)
  have hplain : ¬ (0x20 ≤ c.val ∧ c.val ≤ 0x7E) := by omega
  rw [escaped, if_neg (hne '\\' (by decide)), if_neg (hne '"' (by decide)), if_neg (hne '\n' (by decide)),
    if_neg (hne '\t' (by decide)), if_neg (hne '\r' (by decide)), if_neg (hne '\x0c' (by decide)),
    if_neg (hne '\x08' (by decide)), if_neg hplain]

/-- A pair is written as its two surrogates are. -/
theorem escaped_ofPair {c d : CodePoint} (hc : CodePoint.isHigh c.val = true) (hd : CodePoint.isLow d.val = true) :
    escaped (CodePoint.ofPair c.val d.val) = escaped c ++ escaped d := by
  have hlarge := (CodePoint.halves_ofPair hc hd).1
  have hhigh := CodePoint.isHigh_iff.1 hc
  have hlow := CodePoint.isLow_iff.1 hd
  rw [escaped_of_large (by omega), Text.unitEscapes_ofPair hc hd, escaped_of_large (c := c) (by omega),
    escaped_of_large (c := d) (by omega)]

theorem quote_paired (t : Text) : quote t.paired = quote t := by
  rw [quote, quote, Text.flatMap_paired fun c d => escaped_ofPair]

end
end Pausable.Json
