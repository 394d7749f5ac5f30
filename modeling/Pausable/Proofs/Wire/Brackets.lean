import Pausable.Proofs.Wire.Printable

/-!
How many containers are open at each place of a snapshot text. All that the grammar derives is closed again where it
ends, but what is written of a container is not closed before its last bracket. So no text that stops earlier is read
(`Enclosed.not_read`).
-/
namespace Pausable.Wire

/-! ## Standings -/

/-- Where a place lies: outside of quotes, in quotes, or in quotes behind a backslash. -/
inductive Region where
  | outside
  | quoted
  | escaped

/-- The number of containers that are open at a place, and where it lies. -/
structure Standing where
  opened : Nat
  region : Region

def Standing.next (s : Standing) (c : CodePoint) : Standing :=
  match s.region with
  | .outside =>
    if c = '"' then ⟨s.opened, .quoted⟩
    else if c = '[' ∨ c = '\x7b' then ⟨s.opened + 1, .outside⟩
    else if c = ']' ∨ c = '\x7d' then ⟨s.opened - 1, .outside⟩
    else s
  | .quoted =>
    if c = '"' then ⟨s.opened, .outside⟩
    else if c = '\\' then ⟨s.opened, .escaped⟩
    else s
  | .escaped => ⟨s.opened, .quoted⟩

theorem Standing.next_opening {c : CodePoint} (hc : c = '[' ∨ c = '\x7b') (opened : Nat) :
    next ⟨opened, .outside⟩ c = ⟨opened + 1, .outside⟩ := by
  rcases hc with rfl | rfl <;> rfl

theorem Standing.next_closing {c : CodePoint} (hc : c = ']' ∨ c = '\x7d') (opened : Nat) :
    next ⟨opened + 1, .outside⟩ c = ⟨opened, .outside⟩ := by
  rcases hc with rfl | rfl <;> rfl

/-- A text leads from one standing to another, with no less than so many containers open on the way. -/
inductive Keeps (least : Nat) : Standing → Text → Standing → Prop
  | nil {s : Standing} : least ≤ s.opened → Keeps least s [] s
  | cons {s s' : Standing} {c : CodePoint} {t : Text} : least ≤ s.opened → Keeps least (s.next c) t s' →
      Keeps least s (c :: t) s'

namespace Keeps

variable {d e : Nat} {s s' s'' : Standing} {t u : Text}

theorem append (ht : Keeps d s t s') (hu : Keeps d s' u s'') : Keeps d s (t ++ u) s'' := by
  induction ht with
  | nil _ => exact hu
  | cons h _ ih => exact .cons h (ih hu)

theorem le_opened (h : Keeps d s t s') : d ≤ s'.opened := by
  induction h with
  | nil h => exact h
  | cons _ _ ih => exact ih

theorem unique (h : Keeps d s t s') (h' : Keeps e s t s'') : s' = s'' := by
  induction h with
  | nil _ => cases h'; rfl
  | cons _ _ ih =>
      cases h' with
      | cons _ h' => exact ih h'

theorem cut (h : Keeps d s t s') (hu : u <+: t) : ∃ s'', Keeps d s u s'' := by
  induction h generalizing u with
  | nil h =>
      rw [List.prefix_nil.1 hu]
      exact ⟨_, .nil h⟩
  | cons h ht ih =>
      rcases List.prefix_cons_iff.1 hu with rfl | ⟨v, rfl, hv⟩
      · exact ⟨_, .nil h⟩
      · obtain ⟨s'', hs⟩ := ih hv
        exact ⟨s'', .cons h hs⟩

end Keeps

/-- Outside of quotes, a text closes all containers that it opens, and no others. -/
def Balanced (least opened : Nat) (t : Text) : Prop := Keeps least ⟨opened, .outside⟩ t ⟨opened, .outside⟩

variable {d e : Nat} {t r u : Text}

theorem Balanced.append (ht : Balanced d e t) (hu : Balanced d e u) : Balanced d e (t ++ u) := Keeps.append ht hu

/-! ## Tokens -/

/-- The code points that mean something outside of quotes. -/
def marks : List CodePoint := ['"', '[', ']', '\x7b', '\x7d']

theorem balanced_unmarked (hd : d ≤ e) (ht : ∀ c ∈ t, c ∉ marks) : Balanced d e t := by
  induction t with
  | nil => exact .nil hd
  | cons c t ih =>
      obtain ⟨hc, ht⟩ := List.forall_mem_cons.1 ht
      have hnext : Standing.next ⟨e, .outside⟩ c = ⟨e, .outside⟩ := by
        simp only [marks, List.mem_cons, List.not_mem_nil, or_false, not_or] at hc
        simp [Standing.next, hc]
      exact .cons hd (hnext.symm ▸ ih ht)

theorem balanced_class (hd : d ≤ e) {q : CodePoint → Bool} (hq : ∀ m ∈ marks, q m = false)
    (ht : ∀ c ∈ t, q c = true) : Balanced d e t := by
  refine balanced_unmarked hd fun c hc hmark => ?_
  have hmember := ht c hc
  rw [hq c hmark] at hmember
  cases hmember

theorem balanced_word (hd : d ≤ e) (ht : ∀ c ∈ t, c.isWordChar = true) : Balanced d e t :=
  balanced_class hd (by decide +kernel) ht

theorem balanced_constant (hd : d ≤ e) {v : Value} (h : (t, v) ∈ constants) : Balanced d e t := by
  have hall : ∀ k ∈ constants, ∀ c ∈ k.1, c ∉ marks := by decide
  exact balanced_unmarked hd (hall _ h)

theorem balanced_number (hd : d ≤ e) {w : WrittenNumber} (h : w.IsText t) : Balanced d e t := by
  have hdigits {t : Text} (ht : WrittenNumber.IsDigits t) : Balanced d e t :=
    balanced_class hd (by decide +kernel) ht
  have hone {c : CodePoint} (hc : c ∉ marks) : Balanced d e [c] :=
    balanced_unmarked hd fun x hx => List.mem_singleton.1 hx ▸ hc
  have hletter {c : CodePoint} (hc : WrittenNumber.IsExponentLetter c) : Balanced d e [c] := by
    rcases hc with rfl | rfl <;> exact hone (by decide)
  obtain ⟨f, x, rfl, hwhole, hf, hx⟩ := h
  have hsign : Balanced d e (WrittenNumber.spellSign w.negative) := by
    cases w.negative with
    | true => exact hone (by decide)
    | false => exact .nil hd
  have hfraction : Balanced d e f := by
    generalize w.fraction = fraction at hf
    cases hf with
    | none => exact .nil hd
    | point ht => exact (hone (by decide)).append (hdigits ht)
  have hexponent : Balanced d e x := by
    generalize w.exponent = exponent at hx
    cases hx with
    | none => exact .nil hd
    | bare hc ht => exact (hletter hc).append (hdigits ht)
    | plus hc ht | minus hc ht => exact ((hletter hc).append (hone (by decide))).append (hdigits ht)
  exact hsign.append ((hdigits hwhole).append (hfraction.append hexponent))

/-! ## Quoted texts -/

theorem keeps_plain (hd : d ≤ e) (ht : ∀ c ∈ t, c ≠ '"' ∧ c ≠ '\\') : Keeps d ⟨e, .quoted⟩ t ⟨e, .quoted⟩ := by
  induction t with
  | nil => exact .nil hd
  | cons c t ih =>
      obtain ⟨hc, ht⟩ := List.forall_mem_cons.1 ht
      have hnext : Standing.next ⟨e, .quoted⟩ c = ⟨e, .quoted⟩ := by simp [Standing.next, hc]
      exact .cons hd (hnext.symm ▸ ih ht)

theorem keeps_codeUnit (hd : d ≤ e) {n : Nat} (h : CodeUnit t n) : Keeps d ⟨e, .quoted⟩ t ⟨e, .quoted⟩ := by
  refine keeps_plain hd fun c hc => ?_
  have hvalue : c.hexValue?.isSome := Text.isSome_of_hexValue? h.2 hc
  constructor <;>
  · rintro rfl
    revert hvalue
    decide

/-- An escape leads back into the quotes that it stands in. -/
theorem keeps_escape (hd : d ≤ e) {c : CodePoint} (h : Escape t c r) :
    ∃ u, t = u ++ r ∧ Keeps d ⟨e, .escaped⟩ u ⟨e, .quoted⟩ := by
  cases h with
  | short _ => exact ⟨[_], rfl, .cons hd (.nil hd)⟩
  | @unit digits _ _ hdigits _ => exact ⟨'u' :: digits, rfl, .cons hd (keeps_codeUnit hd hdigits)⟩
  | @pair first second _ _ _ hfirst hsecond _ _ =>
      refine ⟨'u' :: (first ++ ("\\u" ++ second)), by simp, .cons hd ?_⟩
      exact (keeps_codeUnit hd hfirst).append (.cons hd (.cons hd (keeps_codeUnit hd hsecond)))

theorem keeps_quoted (hd : d ≤ e) {s : Text} (h : Quoted t s r) :
    ∃ u, t = u ++ r ∧ Keeps d ⟨e, .quoted⟩ u ⟨e, .outside⟩ := by
  induction h with
  | close => exact ⟨['"'], rfl, .cons hd (.nil hd)⟩
  | @plain c _ _ _ hq hb _ ih =>
      obtain ⟨u, rfl, hu⟩ := ih
      have hc : Keeps d ⟨e, .quoted⟩ [c] ⟨e, .quoted⟩ :=
        keeps_plain hd fun x hx => List.mem_singleton.1 hx ▸ ⟨hq, hb⟩
      exact ⟨c :: u, rfl, hc.append hu⟩
  | escape hc _ ih =>
      obtain ⟨u, rfl, hu⟩ := ih
      obtain ⟨x, rfl, hx⟩ := keeps_escape hd hc
      exact ⟨'\\' :: (x ++ u), by simp, .cons hd (hx.append hu)⟩

theorem keeps_escaped (hd : d ≤ e) (c : CodePoint) : Keeps d ⟨e, .quoted⟩ (escaped c) ⟨e, .quoted⟩ := by
  rcases escape_escaped (r := []) c (fun _ h => by cases List.prefix_nil.1 h) with ⟨t, ht, hc⟩ | ⟨hc, hq, hb⟩
  · obtain ⟨u, hu, hkeeps⟩ := keeps_escape hd hc
    rw [List.append_nil] at ht hu
    rw [ht, hu]
    exact .cons hd hkeeps
  · rw [hc]
    exact keeps_plain hd fun x hx => List.mem_singleton.1 hx ▸ ⟨hq, hb⟩

theorem balanced_quote (hd : d ≤ e) (t : Text) : Balanced d e (quote t) := by
  have hinside : Keeps d ⟨e, .quoted⟩ (t.flatMap escaped) ⟨e, .quoted⟩ := by
    induction t with
    | nil => exact .nil hd
    | cons c t ih => exact (keeps_escaped hd c).append ih
  exact .cons hd (hinside.append (.cons hd (.nil hd)))

/-! ## What is derived -/

/-- Outside of quotes, a text leads from so many open containers to others, up to a rest. -/
def Spans (opened : Nat) (t : Text) (opened' : Nat) (r : Text) : Prop :=
  ∃ u, t = u ++ r ∧ Keeps 0 ⟨opened, .outside⟩ u ⟨opened', .outside⟩

namespace Spans

variable {a b c : Nat}

theorem trans (h : Spans a t b u) (h' : Spans b u c r) : Spans a t c r := by
  obtain ⟨x, rfl, hx⟩ := h
  obtain ⟨y, rfl, hy⟩ := h'
  exact ⟨x ++ y, (List.append_assoc ..).symm, hx.append hy⟩

theorem of_balanced (h : Balanced 0 a t) : Spans a (t ++ r) a r := ⟨t, rfl, h⟩

theorem blank (ht : Blank t) : Spans a (t ++ r) a r :=
  of_balanced (balanced_class (Nat.zero_le _) (by decide +kernel) ht)

theorem comma : Spans a ("," ++ r) a r := of_balanced (balanced_unmarked (Nat.zero_le _) (by decide))

theorem colon : Spans a (":" ++ r) a r := of_balanced (balanced_unmarked (Nat.zero_le _) (by decide))

theorem opening {c : CodePoint} (hc : c = '[' ∨ c = '\x7b') : Spans a (c :: r) (a + 1) r := by
  have hnext := Standing.next_opening hc a
  exact ⟨[c], rfl, .cons (Nat.zero_le _) (hnext ▸ .nil (Nat.zero_le _))⟩

theorem closing {c : CodePoint} (hc : c = ']' ∨ c = '\x7d') : Spans (a + 1) (c :: r) a r := by
  have hnext := Standing.next_closing hc a
  exact ⟨[c], rfl, .cons (Nat.zero_le _) (hnext ▸ .nil (Nat.zero_le _))⟩

theorem quoted {s : Text} (h : Quoted t s r) : Spans a ('"' :: t) a r := by
  obtain ⟨u, rfl, hu⟩ := keeps_quoted (Nat.zero_le a) h
  exact ⟨'"' :: u, rfl, .cons (Nat.zero_le _) hu⟩

theorem scalar {v : Value} (h : Scalar t v r) : Spans a t a r := by
  cases h with
  | constant hword _ => exact of_balanced (balanced_constant (Nat.zero_le _) hword)
  | text hs => exact quoted hs
  | number _ hw _ => exact of_balanced (balanced_number (Nat.zero_le _) hw.text)

theorem key {k : Text} (h : Key t k r) : Spans a t a r := by
  cases h with
  | text hs => exact quoted hs
  | name _ hk _ => exact of_balanced (balanced_word (Nat.zero_le _) hk)

end Spans

mutual

/-- A derived value is closed where it ends. -/
theorem spans_derives {v : Value} {t r : Text} : Derives t v r → ∀ a, Spans a t a r
  | .scalar h, _ => .scalar h
  | .emptyList hb, _ => (Spans.opening (.inl rfl)).trans ((Spans.blank hb).trans (.closing (.inl rfl)))
  | .list hb hv hvs, a =>
      (Spans.opening (.inl rfl)).trans ((Spans.blank hb).trans ((spans_derives hv (a + 1)).trans (spans_items hvs a)))
  | .emptyRecord hb, _ => (Spans.opening (.inr rfl)).trans ((Spans.blank hb).trans (.closing (.inr rfl)))
  | .record hf hfs, a => (Spans.opening (.inr rfl)).trans ((spans_field hf (a + 1)).trans (spans_fields hfs a))

theorem spans_items {vs : List Value} {t r : Text} : Items t vs r → ∀ a, Spans (a + 1) t a r
  | .close hb, _ => (Spans.blank hb).trans (.closing (.inl rfl))
  | .more hb hb' hv hvs, a =>
      (Spans.blank hb).trans (Spans.comma.trans ((Spans.blank hb').trans
        ((spans_derives hv (a + 1)).trans (spans_items hvs a))))

theorem spans_field {f : Text × Value} {t r : Text} : Field t f r → ∀ a, Spans a t a r
  | .mk hb hk hb' hb'' hv, a =>
      (Spans.blank hb).trans ((Spans.key hk).trans ((Spans.blank hb').trans (Spans.colon.trans
        ((Spans.blank hb'').trans (spans_derives hv a)))))

theorem spans_fields {fs : List (Text × Value)} {t r : Text} : Fields t fs r → ∀ a, Spans (a + 1) t a r
  | .close hb, _ => (Spans.blank hb).trans (.closing (.inr rfl))
  | .more hb hf hfs, a =>
      (Spans.blank hb).trans (Spans.comma.trans ((spans_field hf (a + 1)).trans (spans_fields hfs a)))

end

/-! ## What is written -/

theorem balanced_writeNumber (hd : d ≤ e) {n : Number} (h : writeNumber n = .ok t) : Balanced d e t := by
  obtain ⟨u, hu, hcases⟩ := writeNumber_short (short_of_writeNumber h)
  rw [hu] at h
  cases h
  rcases hcases with hword | ⟨w, hw, rfl, -⟩
  · exact balanced_constant hd hword
  · obtain ⟨c, u, hcu, -, hlongest⟩ := longest_spell (r := []) hw (.inl rfl)
    rw [hcu]
    exact balanced_number hd hlongest.text

theorem Lexeme.balanced (h : Lexeme t) (hd : d ≤ e) : Balanced d e t := by
  cases h with
  | constant hword => exact balanced_constant hd hword
  | number hn => exact balanced_writeNumber hd hn
  | quoted t => exact balanced_quote hd t
  | name hbare =>
      exact balanced_word hd fun c hc =>
        ((isBareKey_cases hbare).2 c hc).elim isWordChar_of_isKeyStart isWordChar_of_isAsciiDigit
  | comma | colon => exact balanced_unmarked hd (by decide)

theorem Balanced.enclose {c c' : CodePoint} (hc : c = '[' ∨ c = '\x7b') (hc' : c' = ']' ∨ c' = '\x7d')
    (ht : Balanced d (e + 1) t) (hd : d ≤ e) : Balanced d e (c :: (t ++ [c'])) := by
  have hlast : Keeps d ⟨e + 1, .outside⟩ [c'] ⟨e, .outside⟩ :=
    .cons (Nat.le_succ_of_le hd) ((Standing.next_closing hc' e).symm ▸ .nil hd)
  exact .cons hd ((Standing.next_opening hc e).symm ▸ Keeps.append ht hlast)

theorem Composed.balanced (h : Composed t) (hd : d ≤ e) : Balanced d e t := by
  induction h generalizing e with
  | nil => exact .nil hd
  | lexeme ht => exact ht.balanced hd
  | append _ _ ht hu => exact (ht hd).append (hu hd)
  | list _ ht => exact (ht (Nat.le_succ_of_le hd)).enclose (.inl rfl) (.inl rfl) hd
  | record _ ht => exact (ht (Nat.le_succ_of_le hd)).enclose (.inr rfl) (.inr rfl) hd

/-- Brackets around a text that closes all that it opens. -/
def Enclosed (t : Text) : Prop :=
  ∃ (c c' : CodePoint) (u : Text), t = c :: (u ++ [c']) ∧ (c = '[' ∨ c = '\x7b') ∧ (c' = ']' ∨ c' = '\x7d') ∧
    ∀ d e, d ≤ e → Balanced d e u

theorem Composed.enclosed (h : Composed u) : Enclosed ("[" ++ u ++ "]") ∧ Enclosed ("\x7b" ++ u ++ "\x7d") :=
  ⟨⟨_, _, u, rfl, .inl rfl, .inl rfl, fun _ _ => h.balanced⟩, ⟨_, _, u, rfl, .inr rfl, .inr rfl, fun _ _ => h.balanced⟩⟩

/-- Values that are written between brackets. -/
def IsContainer : Value → Prop
  | .list _ | .tuple _ | .record _ => True
  | _ => False

theorem enclosed_write {v : Value} (hv : IsContainer v) (h : write v = .ok t) : Enclosed t := by
  rw [write_eq_nested] at h
  cases v with
  | list vs | tuple vs =>
      obtain ⟨ts, hts, rfl⟩ := ok_of_map h
      exact (composed_join (composed_nestedItems vs hts)).enclosed.1
  | record fs =>
      rw [nested] at h
      split at h
      · cases h
      · obtain ⟨ts, hts, rfl⟩ := ok_of_map h
        exact (composed_join (composed_nestedFields fs hts)).enclosed.2
  | null | bool | number | text | alien => exact hv.elim

/-! ## Texts that stop too early -/

theorem prefix_trim_of_stops {q : CodePoint → Bool} (h : t.Stops q) : t.trim q <+: t := by
  have hkeep : t.dropWhile q = t := by
    cases t with
    | nil => rfl
    | cons c t => rw [List.dropWhile_cons_of_neg (by rw [h c rfl]; exact Bool.false_ne_true)]
  rw [Text.trim, hkeep, ← List.reverse_suffix, List.reverse_reverse]
  exact List.dropWhile_suffix q

/-- Nothing is read from a text in brackets that is cut off before its end. -/
theorem Enclosed.not_read {p : Text} (ht : Enclosed t) (hp : p <+: t) (hne : p ≠ t) (v : Value) : read p ≠ .ok v := by
  intro hread
  obtain ⟨r, hv, hr⟩ := read_sound hread
  obtain ⟨x, hx, hkeeps⟩ := spans_derives hv 0
  obtain ⟨c, c', u, rfl, hc, -, hu⟩ := ht
  obtain ⟨b, w, hbegins, hb, -⟩ := begins_derives hv
  have hstops : p.Stops CodePoint.isBlank := by
    intro a ha
    rcases List.prefix_cons_iff.1 hp with rfl | ⟨q, rfl, -⟩
    · cases ha
    · cases ha
      rcases hc with rfl | rfl <;> rfl
  have hxp : x <+: p := (hx ▸ List.prefix_append x r).trans (prefix_trim_of_stops hstops)
  cases x with
  | nil =>
      rw [hbegins] at hx
      cases hx.symm
      have := hr b (List.mem_cons_self ..)
      rw [hb] at this
      cases this
  | cons a x =>
      have hpc : p.length < (c :: (u ++ [c'])).length :=
        Nat.lt_of_le_of_ne hp.length_le fun hlen => hne (hp.eq_of_length hlen)
      obtain ⟨rfl, hxu⟩ := List.cons_prefix_cons.1 (hxp.trans hp)
      have hxu : x <+: u := by
        refine (List.prefix_concat_iff.1 hxu).resolve_left ?_
        rintro rfl
        have := hxp.length_le
        omega
      cases hkeeps with
      | cons _ hkeeps =>
          rw [Standing.next_opening hc 0] at hkeeps
          obtain ⟨s, hs⟩ := (hu 1 1 (Nat.le_refl 1)).cut hxu
          have hopened := hs.le_opened
          rw [hs.unique hkeeps] at hopened
          cases hopened

end Pausable.Wire
