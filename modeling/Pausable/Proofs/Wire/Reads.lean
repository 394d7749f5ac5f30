import Pausable.Proofs.Wire.Derives
import Pausable.Proofs.Wire.Tokens

/-!
The reader of snapshot text takes off every token of the format, whatever containers are open
(`reads_format`).
-/
namespace Pausable.Wire

/-- How snapshot text writes scalars and keys. -/
def format : Format := ⟨scalarText, keyText⟩

theorem isBlank_eq_false {c : CodePoint} (hlow : 0x20 < c.val) (hhigh : c.val < 0x7F) :
    c.isBlank = false := by
  have hascii : c.isAscii = true := by
    simp only [CodePoint.isAscii, decide_eq_true_eq]
    omega
  simp only [CodePoint.isBlank, hascii, ↓reduceIte, Bool.or_eq_false_iff, Bool.and_eq_false_iff,
    decide_eq_false_iff_not]
  omega

theorem stops_isBlank {t : Text} (h : t.Begins) : t.Stops CodePoint.isBlank := by
  obtain ⟨c, u, rfl, hlow, hhigh, -⟩ := h
  rintro _ ⟨⟩
  exact isBlank_eq_false hlow hhigh

theorem isWordChar_of_isKeyStart {c : CodePoint} (h : isKeyStart c = true) : c.isWordChar = true := by
  simp only [isKeyStart, CodePoint.isAsciiLetter, Bool.or_eq_true, Bool.and_eq_true, decide_eq_true_eq] at h
  have hascii : c.isAscii = true := by
    simp only [CodePoint.isAscii, decide_eq_true_eq]
    rcases h with h | rfl
    · omega
    · decide
  simp only [CodePoint.isWordChar, hascii, ↓reduceIte, CodePoint.isAsciiLetter, Bool.or_eq_true,
    Bool.and_eq_true, decide_eq_true_eq]
  exact h.imp_left .inl

theorem isWordChar_of_isAsciiDigit {c : CodePoint} (h : c.isAsciiDigit = true) : c.isWordChar = true := by
  have hascii : c.isAscii = true := by
    have := CodePoint.isAsciiDigit_iff.1 h
    simp only [CodePoint.isAscii, decide_eq_true_eq]
    omega
  simp only [CodePoint.isWordChar, hascii, h, ↓reduceIte, Bool.or_true, Bool.true_or]

theorem isBareKey_cases {k : Text} (h : isBareKey k = true) :
    k ≠ [] ∧ ∀ d ∈ k, isKeyStart d = true ∨ d.isAsciiDigit = true := by
  cases k with
  | nil => cases h
  | cons c t =>
      simp only [isBareKey, Bool.and_eq_true, List.all_eq_true, Bool.or_eq_true] at h
      obtain ⟨⟨hc, ht⟩, -⟩ := h
      exact ⟨nofun, List.forall_mem_cons.2 ⟨.inl hc, ht⟩⟩

theorem ascii_of_isBareKey {k : Text} (h : isBareKey k = true) : ∀ c ∈ k, c.val < 0x80 := by
  intro c hc
  rcases (isBareKey_cases h).2 c hc with hstart | hdigit
  · simp only [isKeyStart, CodePoint.isAsciiLetter, Bool.or_eq_true, Bool.and_eq_true, decide_eq_true_eq] at hstart
    rcases hstart with hstart | rfl
    · omega
    · decide
  · have := CodePoint.isAsciiDigit_iff.1 hdigit
    omega

theorem joined_of_isBareKey {k : Text} (h : isBareKey k = true) : joined k = some k :=
  joined_unjoined (unjoined_of_ascii (ascii_of_isBareKey h))

/-- What is read where a key is written is written in the same way. -/
theorem keyText_joined {k s : Text} (h : joined k = some s) : keyText s = keyText k := by
  by_cases hbare : isBareKey k = true
  · obtain rfl : k = s := Option.some.inj ((joined_of_isBareKey hbare).symm.trans h)
    rfl
  · have hbare' : ¬ isBareKey s = true := by
      intro hs
      have hlt : ∀ c ∈ s, c.val < 0x10000 := fun c hc => Nat.lt_trans (ascii_of_isBareKey hs c hc) (by decide)
      exact hbare (eq_of_joined h hlt ▸ hs)
    rw [keyText, keyText, if_neg hbare, if_neg hbare', quote, quote, flatMap_joined h]

/-- A key is at the front of its text. -/
theorem key_joined {k s : Text} (h : joined k = some s) (r : Text) :
    Key (keyText k ++ (":" ++ r)) s (":" ++ r) := by
  by_cases hbare : isBareKey k = true
  · obtain rfl : k = s := Option.some.inj ((joined_of_isBareKey hbare).symm.trans h)
    have htext : keyText k = k := if_pos hbare
    obtain ⟨hne, hname⟩ := isBareKey_cases hbare
    have hword : ∀ d ∈ k, d.isWordChar = true := fun d hd =>
      (hname d hd).elim isWordChar_of_isKeyStart isWordChar_of_isAsciiDigit
    rw [htext]
    exact .name hne hword (by rintro _ ⟨⟩; rfl)
  · have htext : keyText k = quote k := if_neg hbare
    rw [htext, quote_append]
    exact .text (quoted_joined h _)

theorem readKey_joined (p : Nat) {k s : Text} (h : joined k = some s) (r : Text) :
    ∃ p', readKey ⟨p, keyText k ++ (":" ++ r)⟩ = .ok (s, ⟨p', r⟩) := by
  have hkey : Key (keyText k ++ (":" ++ r)) s (([] : Text) ++ (":" ++ r)) := key_joined h r
  exact readKey_complete p (b := []) .nil hkey .nil

/-- Keys in which nothing is joined are told apart by what is written. -/
theorem keyText_inj {k l : Text} (hk : Unjoined k) (hl : Unjoined l) (h : keyText k = keyText l) : k = l := by
  obtain ⟨p, hp⟩ := readKey_joined 0 (joined_unjoined hk) []
  obtain ⟨p', hp'⟩ := readKey_joined 0 (joined_unjoined hl) []
  rw [h, hp'] at hp
  cases hp
  rfl

/-! ## Records -/

section

variable {k s : Text} (stack : List Container) (r : Text)

theorem goes_openRecord (h : joined k = some s) :
    Format.Goes readOpen .seek stack ("\x7b" ++ (keyText k ++ (":" ++ r))) .seek (.record [] s :: stack) r := by
  intro p
  obtain ⟨p', hp⟩ := readKey_joined (p + 1) h r
  obtain ⟨c, u, hcu, hc⟩ := starts_key (key_joined h r)
  have hopen := readOpening_record ⟨[], _, c, u, rfl, .nil, hcu, hc⟩ hp
  exact ⟨p', readOpen_seek (b := []) .nil ⟨'\x7b', _, rfl, rfl⟩ hopen⟩

theorem goes_nextField (v : Value) (fs : List (Value × Value)) (key : Text) (h : joined k = some s) :
    Format.Goes readOpen (.store v) (.record fs key :: stack) ("," ++ (keyText k ++ (":" ++ r))) .seek
      (.record (Value.setField (.text key) v fs) s :: stack) r := by
  intro p
  obtain ⟨p', hp⟩ := readKey_joined (p + 1) h r
  have hproceed : proceed ⟨p + 1, keyText k ++ (":" ++ r)⟩ ((Container.record fs key).add v) =
      .ok (.record (Value.setField (.text key) v fs) s, ⟨p', r⟩) := by
    rw [Container.add, proceed, hp]
    rfl
  exact ⟨p', readOpen_comma (b := []) .nil hproceed⟩

end

/-- The reader takes off every token of the format. -/
theorem reads_format : Format.Reads readOpen format Number.Short Unjoined where
  begins := begins_scalarText
  scalar stack hs hv hr := derives_complete stack (b := []) .nil (.scalar (scalar_scalarText hs hv hr))
  emptyList stack r := derives_complete stack (b := []) .nil (.emptyList (b := []) .nil)
  openList {r} stack hr p := by
    obtain ⟨c, u, rfl, hc⟩ := hr
    obtain ⟨p', hp⟩ :=
      readOpening_list (p := p) (b := []) .nil ⟨c, u, rfl, isBlank_eq_false hc.1 hc.2.1, hc.2.2.1⟩
    exact ⟨p', readOpen_seek (b := []) .nil ⟨'[', _, rfl, rfl⟩ hp⟩
  nextItem v vs stack _ p := ⟨p + 1, readOpen_comma (b := []) .nil rfl⟩
  closeList v vs stack r p := ⟨p + 1, readOpen_closer (k := .list vs) (b := []) .nil⟩
  emptyRecord stack r := derives_complete stack (b := []) .nil (.emptyRecord (b := []) .nil)
  openRecord stack hk _ := goes_openRecord stack _ (joined_unjoined hk)
  nextField v fs key stack hk _ := goes_nextField stack _ v fs key (joined_unjoined hk)
  closeRecord v fs key stack r p := ⟨p + 1, readOpen_closer (k := .record fs key) (b := []) .nil⟩

end Pausable.Wire
