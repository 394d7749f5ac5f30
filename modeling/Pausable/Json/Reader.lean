import Pausable.Json.Token
import Pausable.Value.Container

/-!
Reading JSON text, with the words for NaN and the infinities. Containers that are still open are kept on
a stack. Each step leaves less text: `length_readScalar_lt`, `length_readName_lt`.
-/
namespace Pausable.Json

theorem length_skipBlanks_le (c : Cursor) : (skipBlanks c).rest.length ≤ c.rest.length :=
  c.length_skipRun_le _

theorem length_readQuoted_lt {start : Nat} {c a : Cursor} {out t : Text}
    (h : readQuoted start c out = .ok (t, a)) : a.rest.length < c.rest.length := by
  fun_induction readQuoted start c out generalizing t a with
  | case1 => simp at h
  | case2 c out r hc =>
    simp only [Except.ok.injEq, Prod.mk.injEq] at h
    rw [← h.2]; simp [hc]
  | case3 => simp at h
  | case4 c out r m after he hc hne ih =>
    have h1 := ih h
    have h2 := length_readEscape_le he
    simp only [Cursor.rest_skip, hc, List.length_drop, List.length_cons] at h2 ⊢
    omega
  | case5 => simp at h
  | case6 c out d r hc hq hb hctl ih =>
    have := ih h
    simp only [Cursor.rest_skip, hc, List.length_drop, List.length_cons] at this ⊢
    omega

theorem length_readString_lt {c a : Cursor} {t : Text} (h : readString c = .ok (t, a)) :
    a.rest.length < c.rest.length :=
  Nat.lt_of_lt_of_le (length_readQuoted_lt h) (c.length_skip_le 1)

theorem length_takeWhole_lt {c : Cursor} (h : (takeWhole c).1.isEmpty = false) :
    (takeWhole c).2.rest.length < c.rest.length := by
  unfold takeWhole at h ⊢
  split
  next hz => exact Cursor.length_skip_lt (by decide) (Cursor.ne_nil_of_next hz)
  next hz =>
    rw [if_neg hz] at h
    refine Cursor.length_takeRun_lt ?_
    cases hc : c.rest with
    | nil => simp [Cursor.takeRun, hc] at h
    | cons d t =>
      simp only [Cursor.next, hc, List.head?_cons, Option.any_some]
      cases hd : d.isAsciiDigit
      · simp [Cursor.takeRun, hc, hd] at h
      · rfl

theorem length_takeFraction_le (c : Cursor) : (takeFraction c).2.rest.length ≤ c.rest.length := by
  unfold takeFraction; split
  · exact Nat.le_trans (Cursor.length_takeRun_le _ _) (c.length_skip_le 1)
  · exact Nat.le_refl _

theorem length_takeExponent_le (c : Cursor) : (takeExponent c).2.rest.length ≤ c.rest.length := by
  have h1 := c.length_skip_le 1
  have h2 := (c.skip 1).length_skip_le 1
  have h3 := ((c.skip 1).skip 1).length_takeRun_le CodePoint.isAsciiDigit
  have h4 := (c.skip 1).length_takeRun_le CodePoint.isAsciiDigit
  simp only [takeExponent]
  split
  · split <;> split <;> simp only [Nat.le_refl] <;> omega
  · exact Nat.le_refl _

theorem length_readNumber_lt {c a : Cursor} {n : Number} (h : readNumber c = .ok (n, a)) :
    a.rest.length < c.rest.length := by
  simp only [readNumber] at h
  split at h
  · simp at h
  next hw =>
    have hw : (takeWhole c.takeMinus.2).1.isEmpty = false := by simpa [takeNumber] using hw
    have : (takeNumber c).2.rest.length < c.rest.length :=
      Nat.lt_of_le_of_lt (Nat.le_trans (length_takeExponent_le _) (length_takeFraction_le _))
        (Nat.lt_of_lt_of_le (length_takeWhole_lt hw) c.length_takeMinus_le)
    split at h
    · simp only [Except.ok.injEq, Prod.mk.injEq] at h
      rw [← h.2]; exact this
    · simp at h

theorem length_constant_lt {c a : Cursor} {v : Value} (h : constant? c = some (v, a)) :
    a.rest.length < c.rest.length := by
  obtain ⟨⟨word, w⟩, hmem, hw⟩ := List.exists_of_findSome?_eq_some h
  split at hw
  next hword =>
    simp only [Option.some.injEq, Prod.mk.injEq] at hw
    have hpos : 0 < word.length := by
      simp only [constants, List.mem_cons, Prod.mk.injEq, List.not_mem_nil, or_false] at hmem
      rcases hmem with h | h | h | h | h | h <;> rw [h.1] <;> decide
    rw [← hw.2]
    refine Cursor.length_skip_lt hpos ?_
    intro hnil
    simp only [hnil, List.take_nil] at hword
    simp [← hword] at hpos
  · simp at hw

theorem length_readScalar_lt {c a : Cursor} {v : Value} (h : readScalar c = .ok (v, a)) :
    a.rest.length < c.rest.length := by
  simp only [readScalar] at h
  split at h
  · cases ht : readString c <;> simp only [ht, Except.map, reduceCtorEq, Except.ok.injEq] at h
    simp only [Prod.mk.injEq] at h
    rw [← h.2]; exact length_readString_lt ht
  · split at h
    next r hr =>
      simp only [Except.ok.injEq] at h
      subst h
      exact length_constant_lt hr
    · cases ht : readNumber c <;> simp only [ht, Except.map, reduceCtorEq, Except.ok.injEq] at h
      simp only [Prod.mk.injEq] at h
      rw [← h.2]; exact length_readNumber_lt ht

theorem length_readName_lt {c a : Cursor} {t : Text} (h : readName c = .ok (t, a)) :
    a.rest.length < c.rest.length := by
  simp only [readName] at h
  split at h
  · split at h
    · simp at h
    next name after hs =>
      have h1 := length_readString_lt hs
      have h2 := length_skipBlanks_le after
      split at h
      · simp only [Except.ok.injEq, Prod.mk.injEq] at h
        rw [← h.2]
        have h3 := (skipBlanks after).length_skip_le 1
        have h4 := length_skipBlanks_le ((skipBlanks after).skip 1)
        omega
      · simp at h
  · simp at h

/-- Reads a scalar, an empty container, or the beginning of a container up to its first value. -/
def readOpening (c : Cursor) : Reading Opening :=
  if c.next (· = '[') then
    let inside := skipBlanks (c.skip 1)
    if inside.next (· = ']') then .ok (.value (.list []), inside.skip 1)
    else .ok (.container (.list []), inside)
  else if c.next (· = '\x7b') then
    let inside := skipBlanks (c.skip 1)
    if inside.next (· = '\x7d') then .ok (.value (.record []), inside.skip 1)
    else (readName inside).map fun r => (.container (.record [] r.1), r.2)
  else (readScalar c).map fun r => (.value r.1, r.2)

theorem length_readOpening_lt {c a : Cursor} {o : Opening} (h : readOpening c = .ok (o, a)) :
    a.rest.length < c.rest.length := by
  have hinside {p} (hp : c.next p = true) :
      (skipBlanks (c.skip 1)).rest.length < c.rest.length :=
    Nat.lt_of_le_of_lt (length_skipBlanks_le _)
      (Cursor.length_skip_lt (by decide) (Cursor.ne_nil_of_next hp))
  simp only [readOpening] at h
  split at h
  next hp =>
    have := hinside hp
    split at h <;> simp only [Except.ok.injEq, Prod.mk.injEq] at h <;> rw [← h.2]
    · exact Nat.lt_of_le_of_lt (Cursor.length_skip_le _ 1) this
    · exact this
  · split at h
    next hp =>
      have := hinside hp
      split at h
      · simp only [Except.ok.injEq, Prod.mk.injEq] at h
        rw [← h.2]
        exact Nat.lt_of_le_of_lt (Cursor.length_skip_le _ 1) this
      · cases hk : readName (skipBlanks (c.skip 1)) <;>
          simp only [hk, Except.map, reduceCtorEq, Except.ok.injEq, Prod.mk.injEq] at h
        rw [← h.2]
        exact Nat.lt_trans (length_readName_lt hk) this
    · cases hs : readScalar c <;>
        simp only [hs, Except.map, reduceCtorEq, Except.ok.injEq, Prod.mk.injEq] at h
      rw [← h.2]
      exact length_readScalar_lt hs

/-- What follows a comma: nothing yet in a list, the next name in a record. -/
def proceed (c : Cursor) : Container → Reading Container
  | .list items => .ok (.list items, c)
  | .record fields _ => (readName c).map fun r => (.record fields r.1, r.2)

theorem length_proceed_le {c a : Cursor} {k k' : Container} (h : proceed c k = .ok (k', a)) :
    a.rest.length ≤ c.rest.length := by
  cases k with
  | list items =>
    simp only [proceed, Except.ok.injEq, Prod.mk.injEq] at h
    exact Nat.le_of_eq (by rw [h.2])
  | record fields key =>
    cases hk : readName c <;>
      simp only [proceed, hk, Except.map, reduceCtorEq, Except.ok.injEq, Prod.mk.injEq] at h
    rw [← h.2]
    exact Nat.le_of_lt (length_readName_lt hk)

/-- Reads one value, with the containers that are open around it, innermost first. -/
def readOpen (task : Task) (stack : List Container) (c : Cursor) : Reading Value :=
  match task with
  | .seek =>
    match _ho : readOpening c with
    | .error e => .error e
    | .ok (.value v, after) => readOpen (.store v) stack after
    | .ok (.container k, after) => readOpen .seek (k :: stack) after
  | .store v =>
    match stack with
    | [] => .ok (v, c)
    | k :: below =>
      let k := k.add v
      match _hc : (skipBlanks c).rest with
      | [] => .error (.problem .noComma (skipBlanks c).position)
      | d :: _ =>
        if d = k.closer then readOpen (.store k.close) below ((skipBlanks c).skip 1)
        else if d = ',' then
          match _hp : proceed (skipBlanks ((skipBlanks c).skip 1)) k with
          | .error e => .error e
          | .ok (k, after) => readOpen .seek (k :: below) after
        else .error (.problem .noComma (skipBlanks c).position)
termination_by c.rest.length
decreasing_by
  · exact length_readOpening_lt _ho
  · exact length_readOpening_lt _ho
  · have h2 := length_skipBlanks_le c
    have h3 := Cursor.length_skip_lt (n := 1) (c := skipBlanks c) (by decide) (by simp [_hc])
    omega
  · have h1 := length_proceed_le _hp
    have h2 := length_skipBlanks_le c
    have h3 := Cursor.length_skip_lt (n := 1) (c := skipBlanks c) (by decide) (by simp [_hc])
    have h4 := length_skipBlanks_le ((skipBlanks c).skip 1)
    omega

/-- Why a text is not read: a problem with its place, or an integer with too many digits. -/
inductive ReadError where
  | problem (p : Problem) (line column position : Nat)
  | numeralTooLong (digits : Nat)
deriving DecidableEq

def ReadError.message : ReadError → Text
  | problem p line column position =>
    p.message ++ ": line " ++ Numeral.ofNat line ++ " column " ++ Numeral.ofNat column ++ " (char "
      ++ Numeral.ofNat position ++ ")"
  | numeralTooLong digits =>
    "Exceeds the limit (4300 digits) for integer string conversion: value has " ++
      Numeral.ofNat digits ++ " digits; use sys.set_int_max_str_digits() to increase the limit"

/-- Gives a problem its line and column, both counted from one. -/
def Refusal.locate (t : Text) : Refusal → ReadError
  | numeralTooLong digits => .numeralTooLong digits
  | problem p position =>
    let before := t.take position
    let lineFeed := CodePoint.ofChar '\n'
    .problem p (before.count lineFeed + 1)
      ((before.reverse.takeWhile (· ≠ lineFeed)).length + 1) position

/-- Reads a text that holds one value and blanks around it. -/
def readAll (t : Text) : Except Refusal Value :=
  if t.head? = some '\uFEFF' then .error (.problem .byteOrderMark 0)
  else
    match readOpen .seek [] (skipBlanks (Cursor.start t)) with
    | .error e => .error e
    | .ok (v, c) =>
      let c := skipBlanks c
      if c.rest.isEmpty then .ok v else .error (.problem .extraData c.position)

/-- The value of a JSON text. -/
def read (t : Text) : Except ReadError Value := (readAll t).mapError (·.locate t)

end Pausable.Json
