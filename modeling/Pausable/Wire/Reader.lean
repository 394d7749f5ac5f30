import Pausable.Value.Container
import Pausable.Wire.Token

/-!
Reading snapshot text. Containers that are still open are kept on a stack, so that nesting costs no
recursion. Each step leaves less text: `length_readScalar_lt`, `length_readKey_lt`.
-/
namespace Pausable.Wire

theorem length_readQuoted_lt {c a : Cursor} {out t : Text} (h : readQuoted c out = .ok (t, a)) :
    a.rest.length < c.rest.length := by
  fun_induction readQuoted c out generalizing t a with
  | case1 => simp at h
  | case2 c out r hc =>
    simp only [Except.ok.injEq, Prod.mk.injEq] at h
    rw [← h.2]; simp [hc]
  | case3 => simp at h
  | case4 c out r m after he hc hne ih =>
    have h1 := ih h
    have h2 := length_readEscape_le he
    simp only [Cursor.rest_skip, hc, List.length_drop, List.length_cons] at h2 ⊢
    omega
  | case5 c out d r hc hne hne' ih =>
    have := ih h
    simp only [Cursor.rest_skip, hc, List.length_drop, List.length_cons] at this ⊢
    omega

theorem length_readText_lt {c a : Cursor} {t : Text} (h : readText c = .ok (t, a)) :
    a.rest.length < c.rest.length :=
  Nat.lt_of_lt_of_le (length_readQuoted_lt h) (c.length_skip_le 1)

theorem length_takeFraction_le (c : Cursor) : (takeFraction c).2.rest.length ≤ c.rest.length := by
  unfold takeFraction; split
  · exact Nat.le_trans (Cursor.length_takeRun_le _ _) (c.length_skip_le 1)
  · exact Nat.le_refl _

theorem length_takeExponent_le (c : Cursor) : (takeExponent c).2.rest.length ≤ c.rest.length := by
  unfold takeExponent; split
  · refine Nat.le_trans (Cursor.length_takeRun_le _ _) ?_
    split
    · exact Nat.le_trans (Cursor.length_skip_le _ 1) (c.length_skip_le 1)
    · exact c.length_skip_le 1
  · exact Nat.le_refl _

theorem length_takeNumber_lt {c : Cursor} (h : c.next (fun d => d = '-' ∨ d.isDigit) = true) :
    (takeNumber c).2.rest.length < c.rest.length := by
  have hw : (c.takeMinus.2.takeRun CodePoint.isDigit).2.rest.length < c.rest.length := by
    by_cases hm : c.next (· = '-') = true
    · refine Nat.lt_of_le_of_lt (Cursor.length_takeRun_le _ _) ?_
      simp only [Cursor.takeMinus, hm, ↓reduceIte]
      exact Cursor.length_skip_lt (by decide) (Cursor.ne_nil_of_next h)
    · simp only [Cursor.takeMinus, hm]
      refine Cursor.length_takeRun_lt ?_
      cases hc : c.rest with
      | nil => simp [Cursor.next, hc] at h
      | cons d t => simp_all [Cursor.next]
  exact Nat.lt_of_le_of_lt
    (Nat.le_trans (length_takeExponent_le _) (length_takeFraction_le _)) hw

theorem length_readNumber_lt {c a : Cursor} {n : Number}
    (hc : c.next (fun d => d = '-' ∨ d.isDigit) = true) (h : readNumber c = .ok (n, a)) :
    a.rest.length < c.rest.length := by
  simp only [readNumber] at h
  split at h
  · simp only [Except.ok.injEq, Prod.mk.injEq] at h
    rw [← h.2]; exact length_takeNumber_lt hc
  · simp at h

theorem length_constant_lt {c a : Cursor} {v : Value} (h : constant? c = some (v, a)) :
    a.rest.length < c.rest.length := by
  obtain ⟨⟨word, w⟩, hmem, hw⟩ := List.exists_of_findSome?_eq_some h
  simp only [Option.map_eq_some_iff, keyword?] at hw
  obtain ⟨after, ha, hp⟩ := hw
  split at ha
  next hword =>
    simp only [Option.some.injEq] at ha
    simp only [Prod.mk.injEq] at hp
    have hpos : 0 < word.length := by
      simp only [constants, List.mem_cons, Prod.mk.injEq, List.not_mem_nil, or_false] at hmem
      rcases hmem with h | h | h | h | h | h <;> rw [h.1] <;> decide
    rw [← hp.2, ← ha]
    refine Cursor.length_skip_lt hpos ?_
    intro hnil
    simp only [hnil, List.take_nil] at hword
    simp [← hword.1] at hpos
  · simp at ha

theorem length_readScalar_lt {c a : Cursor} {v : Value} (h : readScalar c = .ok (v, a)) :
    a.rest.length < c.rest.length := by
  simp only [readScalar] at h
  split at h
  next r hr =>
    simp only [Except.ok.injEq] at h
    subst h
    exact length_constant_lt hr
  · split at h
    · simp at h
    next d t hc =>
      split at h
      · cases ht : readText c <;> simp only [ht, Except.map, reduceCtorEq, Except.ok.injEq] at h
        simp only [Prod.mk.injEq] at h
        rw [← h.2]; exact length_readText_lt ht
      · split at h
        next hd =>
          cases ht : readNumber c <;> simp only [ht, Except.map, reduceCtorEq, Except.ok.injEq] at h
          simp only [Prod.mk.injEq] at h
          rw [← h.2]
          exact length_readNumber_lt (by simpa [Cursor.next, hc] using hd) ht
        · simp at h

theorem length_readName_lt {c a : Cursor} {t : Text} (h : readName c = .ok (t, a)) :
    a.rest.length < c.rest.length := by
  simp only [readName] at h
  split at h
  · simp at h
  next hne =>
    simp only [Except.ok.injEq, Prod.mk.injEq] at h
    rw [← h.2]
    refine Cursor.length_takeRun_lt ?_
    cases hc : c.rest with
    | nil => simp [Cursor.takeRun, hc] at hne
    | cons d t =>
      simp only [Cursor.next, hc, List.head?_cons, Option.any_some]
      cases hd : d.isWordChar
      · simp [Cursor.takeRun, hc, hd] at hne
      · rfl

theorem length_readKey_lt {c a : Cursor} {t : Text} (h : readKey c = .ok (t, a)) :
    a.rest.length < c.rest.length := by
  have hb := c.length_skipBlanks_le
  simp only [readKey] at h
  split at h
  · simp at h
  · split at h
    · simp at h
    next key after hk =>
      have hlt : after.rest.length < c.skipBlanks.rest.length := by
        split at hk
        · exact length_readText_lt hk
        · exact length_readName_lt hk
      have h1 := after.length_skipBlanks_le
      split at h
      · simp only [Except.ok.injEq, Prod.mk.injEq] at h
        rw [← h.2]
        have := after.skipBlanks.length_skip_le 1
        omega
      · simp at h

/-- What follows a comma: nothing yet in a list, the next key in a record. -/
def proceed (c : Cursor) : Container → Reading Container
  | .list items => .ok (.list items, c)
  | .record fields _ => (readKey c).map fun r => (.record fields r.1, r.2)

/-- Reads a scalar, an empty container, or the beginning of a container up to its first value. -/
def readOpening (c : Cursor) : Reading Opening :=
  if c.next (· = '[') then
    let inside := (c.skip 1).skipBlanks
    if inside.next (· = ']') then .ok (.value (.list []), inside.skip 1)
    else .ok (.container (.list []), inside)
  else if c.next (· = '\x7b') then
    let inside := (c.skip 1).skipBlanks
    if inside.next (· = '\x7d') then .ok (.value (.record []), inside.skip 1)
    else (readKey inside).map fun r => (.container (.record [] r.1), r.2)
  else (readScalar c).map fun r => (.value r.1, r.2)

theorem length_readOpening_lt {c a : Cursor} {o : Opening} (h : readOpening c = .ok (o, a)) :
    a.rest.length < c.rest.length := by
  have hinside {p} (hp : c.next p = true) :
      (c.skip 1).skipBlanks.rest.length < c.rest.length :=
    Nat.lt_of_le_of_lt (Cursor.length_skipBlanks_le _)
      (Cursor.length_skip_lt (by decide) (Cursor.ne_nil_of_next hp))
  simp only [readOpening] at h
  split at h
  next hp =>
    have := hinside hp
    split at h <;> simp only [Except.ok.injEq, Prod.mk.injEq] at h <;> rw [← h.2]
    · exact Nat.lt_of_le_of_lt (Cursor.length_skip_le _ 1) this
    · exact this
  · split at h
    next hp =>
      have := hinside hp
      split at h
      · simp only [Except.ok.injEq, Prod.mk.injEq] at h
        rw [← h.2]
        exact Nat.lt_of_le_of_lt (Cursor.length_skip_le _ 1) this
      · cases hk : readKey (c.skip 1).skipBlanks <;>
          simp only [hk, Except.map, reduceCtorEq, Except.ok.injEq, Prod.mk.injEq] at h
        rw [← h.2]
        exact Nat.lt_trans (length_readKey_lt hk) this
    · cases hs : readScalar c <;>
        simp only [hs, Except.map, reduceCtorEq, Except.ok.injEq, Prod.mk.injEq] at h
      rw [← h.2]
      exact length_readScalar_lt hs

theorem length_proceed_le {c a : Cursor} {k k' : Container}
    (h : proceed c k = .ok (k', a)) : a.rest.length ≤ c.rest.length := by
  cases k with
  | list items =>
    simp only [proceed, Except.ok.injEq, Prod.mk.injEq] at h
    exact Nat.le_of_eq (by rw [h.2])
  | record fields key =>
    cases hk : readKey c <;>
      simp only [proceed, hk, Except.map, reduceCtorEq, Except.ok.injEq, Prod.mk.injEq] at h
    rw [← h.2]
    exact Nat.le_of_lt (length_readKey_lt hk)

/-- Reads one value, with the containers that are open around it, innermost first. -/
def readOpen (task : Task) (stack : List Container) (c : Cursor) : Reading Value :=
  match task with
  | .seek =>
    match _hc : c.skipBlanks.rest with
    | [] => .error ⟨.unexpectedEnd, c.skipBlanks.position⟩
    | _ :: _ =>
      match _ho : readOpening c.skipBlanks with
      | .error e => .error e
      | .ok (.value v, after) => readOpen (.store v) stack after
      | .ok (.container k, after) => readOpen .seek (k :: stack) after
  | .store v =>
    match stack with
    | [] => .ok (v, c)
    | k :: below =>
      let k := k.add v
      match _hc : c.skipBlanks.rest with
      | [] => .error ⟨.unterminated k.shape, c.skipBlanks.position⟩
      | d :: _ =>
        if d = ',' then
          match _hp : proceed (c.skipBlanks.skip 1) k with
          | .error e => .error e
          | .ok (k, after) => readOpen .seek (k :: below) after
        else if d = k.closer then readOpen (.store k.close) below (c.skipBlanks.skip 1)
        else .error ⟨.noSeparator k.shape c.skipBlanks.position, c.skipBlanks.position⟩
termination_by c.rest.length
decreasing_by
  · exact Nat.lt_of_lt_of_le (length_readOpening_lt _ho) c.length_skipBlanks_le
  · exact Nat.lt_of_lt_of_le (length_readOpening_lt _ho) c.length_skipBlanks_le
  · have h1 := length_proceed_le _hp
    have h2 := c.length_skipBlanks_le
    have h3 := Cursor.length_skip_lt (n := 1) (c := c.skipBlanks) (by decide) (by simp [_hc])
    omega
  · have h2 := c.length_skipBlanks_le
    have h3 := Cursor.length_skip_lt (n := 1) (c := c.skipBlanks) (by decide) (by simp [_hc])
    omega

/-- Reads a text that holds one value and blanks around it; says where it stopped. -/
def readAll (t : Text) : Reading Value :=
  let t := t.trim CodePoint.isBlank
  if t.isEmpty then .error ⟨.empty, 0⟩
  else
    match readOpen .seek [] (Cursor.start t) with
    | .error e => .error e
    | .ok (v, c) =>
      let c := c.skipBlanks
      if c.rest.isEmpty then .ok (v, c) else .error ⟨.trailing c.position, c.position⟩

/-- The value of a snapshot text. -/
def read (t : Text) : Except ReadError Value :=
  match readAll t with
  | .ok (v, _) => .ok v
  | .error e => .error e.error

end Pausable.Wire
