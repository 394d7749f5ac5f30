import Mathlib.Data.List.Forall2
import Pausable.Proofs.Number.Spelled
import Pausable.Proofs.Result
import Pausable.Proofs.Text.Paired
import Pausable.Proofs.Wire.Emitted
import Pausable.Proofs.Wire.Quoted

/-!
The texts of the format, told by what they are made of and not by how they are written: an escape by the code point it
stands for, a key by the names there are, a container by the texts of its members. The rules by recursion give a value
the text that it has and no other (`nested_ok_iff`).
-/
namespace Pausable.Wire

/-! ## Quoted texts -/

/-- Four hexadecimal digits in small letters and their value. -/
def SmallUnit (digits : Text) (n : Nat) : Prop :=
  CodeUnit digits n ∧ ∀ d ∈ digits, ¬ (0x41 ≤ d.val ∧ d.val ≤ 0x46)

/-- What stands for a code point between quotes: a short escape if there is one, itself if it is printable ASCII, and
else an escape of 16 bits or two of them, which are a pair of surrogates. -/
inductive MemberText : CodePoint → Text → Prop where
  | short {c e : CodePoint} : ShortEscape e c → MemberText c ['\\', e]
  | plain {c : CodePoint} : (∀ e, ¬ ShortEscape e c) → 0x20 ≤ c.val → c.val ≤ 0x7E → MemberText c [c]
  | unit {c : CodePoint} {digits : Text} : (∀ e, ¬ ShortEscape e c) → ¬ (0x20 ≤ c.val ∧ c.val ≤ 0x7E) →
      SmallUnit digits c.val → MemberText c ("\\u" ++ digits)
  | pair {first second : Text} {high low : Nat} : SmallUnit first high → SmallUnit second low →
      CodePoint.isHigh high = true → CodePoint.isLow low = true →
      MemberText (CodePoint.ofPair high low) ("\\u" ++ first ++ ("\\u" ++ second))

/-- A text between quotes, one code point after the other. -/
def QuotedText (s t : Text) : Prop :=
  ∃ us : List Text, List.Forall₂ MemberText s us ∧ t = "\"" ++ us.flatten ++ "\""

section

variable {c : CodePoint}

theorem smallUnit_iff {digits : Text} {n : Nat} : SmallUnit digits n ↔ n < 0x10000 ∧ digits = Text.hex 4 n := by
  constructor
  · rintro ⟨⟨hlength, hvalue⟩, hsmall⟩
    have hhex := Text.hex_of_hexValue? hsmall hvalue
    rwa [hlength] at hhex
  · rintro ⟨hn, rfl⟩
    refine ⟨codeUnit_hex hn, fun d hd => ?_⟩
    have := Text.mem_hex hd
    omega

theorem smallUnit_hex {n : Nat} (h : n < 0x10000) : SmallUnit (Text.hex 4 n) n := smallUnit_iff.2 ⟨h, rfl⟩

theorem memberText_unitEscapes (hshort : ∀ e, ¬ ShortEscape e c) (hplain : ¬ (0x20 ≤ c.val ∧ c.val ≤ 0x7E)) :
    MemberText c (Text.unitEscapes c) := by
  rw [Text.unitEscapes]
  split
  · rename_i hunit
    exact .unit hshort hplain (smallUnit_hex hunit)
  · have hlt := c.isLt
    have hpair := MemberText.pair (smallUnit_hex (n := 0xD800 + (c.val - 0x10000) / 0x400) (by omega))
      (smallUnit_hex (n := 0xDC00 + (c.val - 0x10000) % 0x400) (by omega)) c.isHigh_half c.isLow_half
    rwa [CodePoint.ofPair_halves (by omega)] at hpair

theorem memberText_iff {t : Text} : MemberText c t ↔ escaped c = t := by
  constructor
  · intro h
    cases h with
    | short h => exact escaped_of_short h
    | plain hshort hlow hhigh => rw [escaped_of_not_short hshort, if_pos ⟨hlow, hhigh⟩]
    | unit hshort hplain hunit =>
        obtain ⟨hlt, rfl⟩ := smallUnit_iff.1 hunit
        rw [escaped_of_not_short hshort, if_neg hplain, Text.unitEscapes, if_pos hlt, Text.unitEscape]
    | pair hfirst hsecond hhigh hlow =>
        obtain ⟨-, rfl⟩ := smallUnit_iff.1 hfirst
        obtain ⟨-, rfl⟩ := smallUnit_iff.1 hsecond
        obtain ⟨hlarge, hhalf, hhalf'⟩ := CodePoint.halves_ofPair hhigh hlow
        rw [escaped_of_large (by omega), Text.unitEscapes, if_neg (by omega), hhalf, hhalf', Text.unitEscape,
          Text.unitEscape]
  · rintro rfl
    by_cases hshort : ∃ e, ShortEscape e c
    · obtain ⟨e, he⟩ := hshort
      rw [escaped_of_short he]
      exact .short he
    · have hshort := not_exists.1 hshort
      rw [escaped_of_not_short hshort]
      split
      · rename_i hplain
        exact .plain hshort hplain.1 hplain.2
      · rename_i hplain
        exact memberText_unitEscapes hshort hplain

theorem quotedText_iff {s t : Text} : QuotedText s t ↔ quote s = t := by
  have hmembers (us : List Text) : List.Forall₂ MemberText s us ↔ s.map escaped = us := by
    have hmember : MemberText = fun c u => escaped c = u := by
      ext c u
      exact memberText_iff
    rw [hmember, ← List.forall₂_map_left_iff, List.forall₂_eq_eq_eq]
  constructor
  · rintro ⟨us, hus, rfl⟩
    rw [quote, List.flatMap_def, (hmembers us).1 hus]
  · rintro rfl
    exact ⟨s.map escaped, (hmembers _).2 rfl, by rw [quote, List.flatMap_def]⟩

end

/-! ## Keys and numbers -/

/-- A name in ASCII: a letter or underscore, and behind it letters, digits and underscores. -/
def Identifier (k : Text) : Prop :=
  ∃ c t, k = c :: t ∧ isKeyStart c = true ∧ ∀ d ∈ t, isKeyStart d = true ∨ d.isAsciiDigit = true

theorem isBareKey_iff {k : Text} : isBareKey k = true ↔ Identifier k ∧ k ∉ keywords := by
  cases k with
  | nil => simp [isBareKey, Identifier]
  | cons c t => simp [isBareKey, Identifier, and_assoc]

/-- A key stands for itself if it is a name and no keyword, else it stands in quotes. -/
inductive KeyText (k : Text) : Text → Prop where
  | bare : Identifier k → k ∉ keywords → KeyText k k
  | quoted {t : Text} : ¬ (Identifier k ∧ k ∉ keywords) → QuotedText k t → KeyText k t

theorem keyText_iff {k t : Text} : KeyText k t ↔ keyText k = t := by
  rw [keyText]
  split
  · rename_i hbare
    have hname := isBareKey_iff.1 hbare
    refine ⟨fun h => ?_, fun h => h ▸ .bare hname.1 hname.2⟩
    cases h with
    | bare => rfl
    | quoted hno => exact (hno hname).elim
  · rename_i hbare
    have hname := mt isBareKey_iff.2 hbare
    refine ⟨fun h => ?_, fun h => .quoted hname (quotedText_iff.2 h)⟩
    cases h with
    | bare hid hkeyword => exact (hname ⟨hid, hkeyword⟩).elim
    | quoted _ h => exact quotedText_iff.1 h

/-- The numeral of an integer that is not too long, and the word or the shortest decimal of a floating point number. -/
inductive NumberText : Number → Text → Prop where
  | int {n : Int} : n.natAbs < Numeral.bound → NumberText (.int n) (Numeral.ofInt n)
  | nan : NumberText (.float .nan) "NAN"
  | infinite : NumberText (.float (.infinite false)) "INF"
  | minusInfinite : NumberText (.float (.infinite true)) "-INF"
  | finite (negative : Bool) (m : Fin Binary64.magnitudes) : NumberText (.float (.finite negative m))
      (WrittenNumber.spellSign negative ++ Binary64.layOut (Binary64.Decimal.shortest m))

theorem numberText_iff {n : Number} {t : Text} : NumberText n t ↔ writeNumber n = .ok t := by
  constructor
  · intro h
    cases h with
    | int hn =>
        unfold writeNumber
        simp only [Numeral.ofInt?_of_lt hn]
    | nan | infinite | minusInfinite => rfl
    | finite negative m => cases negative <;> rfl
  · intro h
    cases n with
    | int n =>
        unfold writeNumber at h
        cases hn : Numeral.ofInt? n with
        | none => simp [hn] at h
        | some u =>
            simp only [hn, Except.ok.injEq] at h
            subst h
            rw [Numeral.ofInt?] at hn
            split at hn
            · rename_i hlt
              cases hn
              exact .int hlt
            · cases hn
    | float x =>
        cases h
        cases x with
        | nan => exact .nan
        | infinite negative => cases negative <;> constructor
        | finite negative m =>
            have hfinite := NumberText.finite negative m
            cases negative <;> exact hfinite

/-! ## Values -/

mutual

/-- The text of a value: a word, a numeral or a quoted text, and of a container those of its members between brackets,
with commas between them. All else has no text. -/
inductive ValueText : Value → Text → Prop where
  | null : ValueText .null "NULL"
  | true : ValueText (.bool true) "TRUE"
  | false : ValueText (.bool false) "FALSE"
  | number {n : Number} {t : Text} : NumberText n t → ValueText (.number n) t
  | text {s t : Text} : QuotedText s t → ValueText (.text s) t
  | list {vs : List Value} {ts : List Text} : ItemTexts vs ts → ValueText (.list vs) ("[" ++ Text.join "," ts ++ "]")
  | tuple {vs : List Value} {ts : List Text} : ItemTexts vs ts → ValueText (.tuple vs) ("[" ++ Text.join "," ts ++ "]")
  | record {fs : List (Value × Value)} {ts : List Text} : FieldTexts fs ts →
      ValueText (.record fs) ("\x7b" ++ Text.join "," ts ++ "\x7d")

inductive ItemTexts : List Value → List Text → Prop where
  | nil : ItemTexts [] []
  | cons {v : Value} {t : Text} {vs : List Value} {ts : List Text} : ValueText v t → ItemTexts vs ts →
      ItemTexts (v :: vs) (t :: ts)

/-- The keys of a record are texts. -/
inductive FieldTexts : List (Value × Value) → List Text → Prop where
  | nil : FieldTexts [] []
  | cons {s k t : Text} {v : Value} {fs : List (Value × Value)} {ts : List Text} : KeyText s k → ValueText v t →
      FieldTexts fs ts → FieldTexts ((.text s, v) :: fs) ((k ++ ":" ++ t) :: ts)

end

theorem fieldKey_ok {k : Value} {t : Text} (h : fieldKey k = .ok t) : ∃ s, k = .text s ∧ KeyText s t := by
  cases k with
  | text s => exact ⟨s, rfl, keyText_iff.2 (Except.ok.inj h)⟩
  | null | bool | number | list | tuple | record | alien => cases h

/-- If the fields are written, their keys are. -/
theorem keyed_of_nestedFields {fs : List (Value × Value)} {ts : List Text} (h : nestedFields fs = .ok ts) :
    ∃ ms, Piece.keyed fs = .ok ms := by
  induction fs generalizing ts with
  | nil => exact ⟨[], rfl⟩
  | cons f fs ih =>
      obtain ⟨key, t, us, hk, -, hfs, -⟩ := nestedFields_cons h
      obtain ⟨ms, hms⟩ := ih hfs
      exact ⟨(key, f.2) :: ms, by simp only [Piece.keyed, hk, hms, Except.map]⟩

mutual

theorem valueText_nested : (v : Value) → {t : Text} → nested v = .ok t → ValueText v t
  | .null, _, h => by
      cases h
      exact .null
  | .bool b, _, h => by
      cases h
      cases b with
      | true => exact .true
      | false => exact .false
  | .number _, _, h => .number (numberText_iff.2 h)
  | .text _, _, h => .text (quotedText_iff.2 (Except.ok.inj h))
  | .list vs, _, h => by
      obtain ⟨ts, hts, rfl⟩ := ok_of_map h
      exact .list (itemTexts_nestedItems vs hts)
  | .tuple vs, _, h => by
      obtain ⟨ts, hts, rfl⟩ := ok_of_map h
      exact .tuple (itemTexts_nestedItems vs hts)
  | .record fs, _, h => by
      rw [nested] at h
      split at h
      · cases h
      · obtain ⟨ts, hts, rfl⟩ := ok_of_map h
        exact .record (fieldTexts_nestedFields fs hts)
  | .alien _, _, h => by cases h

theorem itemTexts_nestedItems : (vs : List Value) → {ts : List Text} → nestedItems vs = .ok ts → ItemTexts vs ts
  | [], _, h => by
      cases h
      exact .nil
  | v :: vs, _, h => by
      obtain ⟨t, us, hv, hvs, rfl⟩ := nestedItems_cons h
      exact .cons (valueText_nested v hv) (itemTexts_nestedItems vs hvs)

theorem fieldTexts_nestedFields : (fs : List (Value × Value)) → {ts : List Text} → nestedFields fs = .ok ts →
    FieldTexts fs ts
  | [], _, h => by
      cases h
      exact .nil
  | (k, v) :: fs, _, h => by
      obtain ⟨key, t, us, hk, hv, hfs, rfl⟩ := nestedFields_cons h
      obtain ⟨s, rfl, hs⟩ := fieldKey_ok hk
      exact .cons hs (valueText_nested v hv) (fieldTexts_nestedFields fs hfs)

end

mutual

theorem ValueText.nested {v : Value} {t : Text} : ValueText v t → nested v = .ok t
  | .null | .true | .false => rfl
  | .number h => numberText_iff.1 h
  | .text h => congrArg Except.ok (quotedText_iff.1 h)
  | .list h => by rw [Wire.nested, h.nested]; rfl
  | .tuple h => by rw [Wire.nested, h.nested]; rfl
  | .record h => by
      obtain ⟨ms, hms⟩ := keyed_of_nestedFields h.nested
      simp only [Wire.nested, hms, h.nested]
      rfl

theorem ItemTexts.nested {vs : List Value} {ts : List Text} : ItemTexts vs ts → nestedItems vs = .ok ts
  | .nil => rfl
  | .cons hv hvs => by simp only [nestedItems, hv.nested, hvs.nested, Except.map]

theorem FieldTexts.nested {fs : List (Value × Value)} {ts : List Text} : FieldTexts fs ts → nestedFields fs = .ok ts
  | .nil => rfl
  | .cons hk hv hfs => by
      simp only [nestedFields, fieldKey, keyText_iff.1 hk, hv.nested, hfs.nested, Except.map]

end

theorem nested_ok_iff {v : Value} {t : Text} : nested v = .ok t ↔ ValueText v t := ⟨valueText_nested v, ValueText.nested⟩

end Pausable.Wire
