import Pausable.Proofs.Text.Walk
import Pausable.Proofs.Wire.Turns

/-!
The places at which the reader stands, in their order. Beside each reader there is the row of places that it
comes to, one for each of its moves; the row is a walk from where the reader begins to where it ends or stops,
and an error names only places of the walk (`Trail`). Runs are gone over by one code point at a time. The places of
a whole reading are those of its turns, one turn after the other (`openPlaces_turn`, `Comes.openPlaces_eq`).
-/
namespace Pausable.Wire

open Cursor (Walk)

/-- The position that a message names. -/
def ReadError.position? : ReadError → Option Nat
  | noSeparator _ p | trailing p | unexpectedCharacter _ p | noKey p | noColon _ p | unknownEscape _ p
  | badUnit p | badPair p | badNumber _ p => some p
  | notText _ | empty | unexpectedEnd | unterminated _ | unterminatedString | unterminatedEscape | notState => none

/-- The positions stand at the ends of the messages. -/
theorem ReadError.detail_position {e : ReadError} {p : Nat} (h : p ∈ e.position?) :
    ∃ lead : Text, e.detail = lead ++ ("position " ++ Numeral.ofNat p) := by
  cases e with
  | noSeparator shape q =>
      cases h
      cases shape with
      | list => exact ⟨"Expected ',' or ']' in array at ", by simp [detail, Text.ofString]⟩
      | record => exact ⟨"Expected ',' or '\x7d' in object at ", by simp [detail, Text.ofString]⟩
  | trailing q => cases h; exact ⟨"Unexpected content after value at ", by simp [detail, Text.ofString]⟩
  | unexpectedCharacter c q =>
      cases h
      exact ⟨"Unexpected character '" ++ [c] ++ "' at ", by simp [detail, Text.ofString]⟩
  | noKey q => cases h; exact ⟨"Expected identifier at ", by simp [detail, Text.ofString]⟩
  | noColon key q =>
      cases h
      exact ⟨"Expected ':' after key '" ++ key ++ "' at ", by simp [detail, Text.ofString]⟩
  | unknownEscape c q =>
      cases h
      exact ⟨"Unknown escape '\\" ++ [c] ++ "' at ", by simp [detail, Text.ofString]⟩
  | badUnit q => cases h; exact ⟨"Invalid \\u escape at ", by simp [detail, Text.ofString]⟩
  | badPair q => cases h; exact ⟨"Invalid surrogate pair at ", by simp [detail, Text.ofString]⟩
  | badNumber t q =>
      cases h
      exact ⟨"Invalid number '" ++ t ++ "' at ", by simp [detail, Text.ofString]⟩
  | notText | empty | unexpectedEnd | unterminated | unterminatedString | unterminatedEscape | notState => cases h

variable {β γ : Type}

/-- The reader goes over the row of places and ends at the last one. -/
inductive Trail (c : Cursor) (ps : List Cursor) : Reading β → Prop where
  | ok {x : β} {a : Cursor} : Walk c ps a → Trail c ps (.ok (x, a))
  | error {e : ReadError} {a : Cursor} : Walk c ps a → (∀ p ∈ e.position?, ∃ b ∈ c :: ps, b.position = p) →
      Trail c ps (.error ⟨e, a.position⟩)

namespace Trail

variable {c a : Cursor} {ps qs : List Cursor} {r : Reading β} {r' : Reading γ}

/-- An error that names the place where the reader stops. -/
theorem stop {e : ReadError} (h : Walk c ps a) (he : e.position? = some a.position) :
    Trail c ps (.error ⟨e, a.position⟩ : Reading β) := by
  refine .error h fun p hp => ⟨a, h.mem_last, ?_⟩
  rw [he] at hp
  exact Option.some.inj hp

/-- An error that names no place. -/
theorem quit {e : ReadError} (h : Walk c ps a) (he : e.position? = none) :
    Trail c ps (.error ⟨e, a.position⟩ : Reading β) := by
  refine .error h fun p hp => ?_
  rw [he] at hp
  cases hp

theorem after (h : Walk c ps a) (h' : Trail a qs r) : Trail c (ps ++ qs) r := by
  cases h' with
  | ok hwalk => exact .ok (h.append hwalk)
  | error hwalk hnamed =>
      refine .error (h.append hwalk) fun p hp => ?_
      obtain ⟨b, hb, hbp⟩ := hnamed p hp
      rcases List.mem_cons.1 hb with rfl | hb
      · -- where the second part begins, the first one ends
        refine ⟨b, ?_, hbp⟩
        rcases List.mem_cons.1 h.mem_last with rfl | hlast
        · exact List.mem_cons_self ..
        · exact List.mem_cons_of_mem _ (List.mem_append_left _ hlast)
      · exact ⟨b, List.mem_cons_of_mem _ (List.mem_append_right _ hb), hbp⟩

theorem walk {x : β} (h : Trail c ps r) (hr : r = .ok (x, a)) : Walk c ps a := by
  cases h with
  | ok hwalk => cases hr; exact hwalk
  | error => cases hr

/-- A reader that fails as another one does. -/
theorem fail {e : Refusal} (h : Trail c ps r) (hr : r = .error e) : Trail c ps (.error e : Reading γ) := by
  cases h with
  | ok => cases hr
  | error hwalk hnamed => cases hr; exact .error hwalk hnamed

theorem map (f : β → γ) (h : Trail c ps r) : Trail c ps (r.map fun x => (f x.1, x.2)) := by
  cases h with
  | ok hwalk => exact .ok hwalk
  | error hwalk hnamed => exact .error hwalk hnamed

end Trail

/-! ## Quoted texts -/

/-- The place behind the digits of an escape, if there are four. -/
def unitPlaces (c : Cursor) : List Cursor :=
  match readUnit c with
  | .error _ => []
  | .ok (_, after) => [after]

def unicodePlaces (c : Cursor) : List Cursor :=
  match readUnit c with
  | .error _ => []
  | .ok (high, after) =>
    if CodePoint.isHigh high ∧ after.rest.take 2 = "\\u" then after :: after.skip 1 :: unitPlaces (after.skip 1)
    else [after]

def escapePlaces (c : Cursor) : List Cursor :=
  match c.rest with
  | [] => []
  | e :: _ => if e = 'u' then unicodePlaces c else if (simpleEscape? e).isSome then [c.skip 1] else []

def quotedPlaces (c : Cursor) : List Cursor :=
  match _hc : c.rest with
  | [] => []
  | d :: _ =>
    if d = '"' then [c.skip 1]
    else if d = '\\' then
      match _he : readEscape (c.skip 1) with
      | .error _ => c.skip 1 :: escapePlaces (c.skip 1)
      | .ok (_, after) => c.skip 1 :: (escapePlaces (c.skip 1) ++ quotedPlaces after)
    else c.skip 1 :: quotedPlaces (c.skip 1)
termination_by c.rest.length
decreasing_by
  · have := length_readEscape_le _he
    simp only [Cursor.rest_skip, _hc, List.length_drop, List.length_cons] at this ⊢
    omega
  · simp [_hc]

def textPlaces (c : Cursor) : List Cursor := c.skip 1 :: quotedPlaces (c.skip 1)

/-- The digits of an escape lie in the text. -/
theorem ahead_readUnit {c a : Cursor} {n : Nat} (h : readUnit c = .ok (n, a)) : c.Ahead a := by
  simp only [readUnit] at h
  split at h
  · rename_i m hm
    cases h
    split at hm
    · rename_i hlength
      rw [List.length_take, List.length_drop] at hlength
      exact ⟨5, by omega, rfl⟩
    · cases hm
  · cases h

theorem readUnit_error {c : Cursor} {e : Refusal} (h : readUnit c = .error e) : e = ⟨.badUnit c.position, c.position⟩ := by
  simp only [readUnit] at h
  split at h
  · cases h
  · cases h
    rfl

theorem trail_readUnit (c : Cursor) : Trail c (unitPlaces c) (readUnit c) := by
  rw [unitPlaces]
  cases h : readUnit c with
  | error e =>
      rw [readUnit_error h]
      exact .stop (.nil c) rfl
  | ok r => exact .ok (.single (ahead_readUnit h))

theorem trail_readUnicode (c : Cursor) : Trail c (unicodePlaces c) (readUnicode c) := by
  rw [readUnicode, unicodePlaces]
  cases hu : readUnit c with
  | error e =>
      rw [readUnit_error hu]
      exact .stop (.nil c) rfl
  | ok r =>
      obtain ⟨high, after⟩ := r
      have hwalk : Walk c [after] after := .single (ahead_readUnit hu)
      by_cases hpair : CodePoint.isHigh high = true ∧ after.rest.take 2 = "\\u"
      · have hne : after.rest ≠ [] := by
          intro hnil
          rw [hnil] at hpair
          cases hpair.2
        simp only [if_pos hpair]
        refine .after (hwalk.append (Cursor.walk_one hne)) ?_
        have hlow := trail_readUnit (after.skip 1)
        rw [unitPlaces] at hlow
        cases hl : readUnit (after.skip 1) with
        | error e =>
            rw [hl] at hlow
            exact hlow.fail rfl
        | ok r =>
            rw [hl] at hlow
            have hlast := hlow.walk rfl
            simp only
            split
            · exact .ok hlast
            · exact .stop hlast rfl
      · simp only [if_neg hpair]
        exact .ok hwalk

theorem trail_readEscape (c : Cursor) : Trail c (escapePlaces c) (readEscape c) := by
  rw [readEscape, escapePlaces]
  cases hc : c.rest with
  | nil => exact .quit (.nil c) rfl
  | cons e t =>
      have hone : Walk c [c.skip 1] (c.skip 1) := Cursor.walk_one (by rw [hc]; exact List.cons_ne_nil e t)
      by_cases hu : e = 'u'
      · simp only [if_pos hu]
        exact trail_readUnicode c
      · simp only [if_neg hu]
        cases simpleEscape? e with
        | some d => exact .ok hone
        | none => exact .stop (.nil c) rfl

theorem trail_readQuoted (c : Cursor) (out : Text) : Trail c (quotedPlaces c) (readQuoted c out) := by
  have hone (p : Nat) (d : CodePoint) (t : Text) : Walk ⟨p, d :: t⟩ [⟨p + 1, t⟩] ⟨p + 1, t⟩ :=
    Cursor.walk_one (List.cons_ne_nil d t)
  fun_induction quotedPlaces c generalizing out with
  | case1 c hc =>
      obtain ⟨p, t⟩ := c
      cases hc
      rw [readQuoted]
      exact .quit (.nil _) rfl
  | case2 c t hc =>
      obtain ⟨p, u⟩ := c
      cases hc
      rw [readQuoted]
      exact .ok (hone ..)
  | case3 c t e he hc hquote =>
      obtain ⟨p, u⟩ := c
      cases hc
      rw [readQuoted_backslash, show readEscape ⟨p + 1, t⟩ = .error e from he]
      exact .after (hone ..) ((trail_readEscape _).fail he)
  | case4 c t m after he hc hquote ih =>
      obtain ⟨p, u⟩ := c
      cases hc
      rw [readQuoted_escape (p := p) (t := t) he]
      exact .after (hone ..) (.after ((trail_readEscape _).walk he) (ih _))
  | case5 c d t hc hquote hbackslash ih =>
      obtain ⟨p, u⟩ := c
      cases hc
      rw [readQuoted_plain hquote hbackslash]
      exact .after (hone ..) (ih _)

theorem trail_readText {c : Cursor} (hc : c.rest ≠ []) : Trail c (textPlaces c) (readText c) :=
  .after (Cursor.walk_one hc) (trail_readQuoted _ [])

/-! ## Scalars and keys -/

def fractionPlaces (c : Cursor) : List Cursor :=
  if c.next (· = '.') then c.skip 1 :: (c.skip 1).alongRun CodePoint.isDigit else []

def exponentPlaces (c : Cursor) : List Cursor :=
  if c.next (fun d => d = 'e' ∨ d = 'E') then
    let signed := c.skip 1
    let unsigned := if signed.next (fun d => d = '+' ∨ d = '-') then signed.skip 1 else signed
    signed :: (signed.alongNext (fun d => d = '+' ∨ d = '-') ++ unsigned.alongRun CodePoint.isDigit)
  else []

def numberPlaces (c : Cursor) : List Cursor :=
  let whole := c.takeMinus.2
  let fraction := (whole.takeRun CodePoint.isDigit).2
  let exponent := (takeFraction fraction).2
  c.alongNext (· = '-') ++ (whole.alongRun CodePoint.isDigit ++ (fractionPlaces fraction ++ exponentPlaces exponent))

def scalarPlaces (c : Cursor) : List Cursor :=
  match constant? c with
  | some (_, after) => [after]
  | none =>
    match c.rest with
    | [] => []
    | d :: _ => if d = '"' then textPlaces c else if d = '-' ∨ d.isDigit then numberPlaces c else []

def keyPlaces (c : Cursor) : List Cursor :=
  match c.skipBlanks.rest with
  | [] => c.alongBlanks
  | d :: _ =>
    let passed := c.alongBlanks ++
      if d = '"' then textPlaces c.skipBlanks else c.skipBlanks.alongRun CodePoint.isWordChar
    match if d = '"' then readText c.skipBlanks else readName c.skipBlanks with
    | .error _ => passed
    | .ok (_, after) => passed ++ (after.alongBlanks ++ after.skipBlanks.alongNext (· = ':'))

theorem walk_takeMinus (c : Cursor) : Walk c (c.alongNext (· = '-')) c.takeMinus.2 := by
  unfold Cursor.takeMinus
  split
  · rename_i h
    exact Cursor.walk_alongNext_of_next h
  · rename_i h
    exact Cursor.walk_alongNext_of_not h

theorem walk_takeFraction (c : Cursor) : Walk c (fractionPlaces c) (takeFraction c).2 := by
  unfold fractionPlaces takeFraction
  split
  · rename_i h
    exact (Cursor.walk_one (Cursor.ne_nil_of_next h)).append (Cursor.walk_alongRun ..)
  · exact .nil c

theorem walk_takeExponent (c : Cursor) : Walk c (exponentPlaces c) (takeExponent c).2 := by
  unfold exponentPlaces takeExponent
  split
  · rename_i h
    refine (Cursor.walk_one (Cursor.ne_nil_of_next h)).append (Walk.append ?_ (Cursor.walk_alongRun ..))
    split
    · rename_i hsign
      exact Cursor.walk_alongNext_of_next hsign
    · rename_i hsign
      exact Cursor.walk_alongNext_of_not hsign
  · exact .nil c

theorem walk_takeNumber (c : Cursor) : Walk c (numberPlaces c) (takeNumber c).2 :=
  (walk_takeMinus c).append <| (Cursor.walk_alongRun ..).append <| (walk_takeFraction _).append (walk_takeExponent _)

theorem trail_readNumber (c : Cursor) : Trail c (numberPlaces c) (readNumber c) := by
  have hwalk := walk_takeNumber c
  simp only [readNumber]
  split
  · exact .ok hwalk
  · -- the message names the beginning of the number, not where the reader stops
    exact .error hwalk fun p hp => ⟨c, List.mem_cons_self .., Option.some.inj hp⟩

theorem ahead_constant {c a : Cursor} {v : Value} (h : constant? c = some (v, a)) : c.Ahead a := by
  obtain ⟨⟨word, w⟩, -, hw⟩ := List.exists_of_findSome?_eq_some h
  obtain ⟨after, hafter, hpair⟩ := Option.map_eq_some_iff.1 hw
  cases hpair
  simp only [keyword?] at hafter
  split at hafter
  · rename_i hword
    cases hafter
    have hlength := congrArg List.length hword.1
    rw [List.length_take] at hlength
    exact ⟨word.length, by omega, rfl⟩
  · cases hafter

theorem trail_readScalar (c : Cursor) : Trail c (scalarPlaces c) (readScalar c) := by
  rw [readScalar, scalarPlaces]
  cases hconstant : constant? c with
  | some r => exact .ok (.single (ahead_constant hconstant))
  | none =>
      cases hc : c.rest with
      | nil => exact .quit (.nil c) rfl
      | cons d t =>
          have hne : c.rest ≠ [] := by rw [hc]; exact List.cons_ne_nil d t
          by_cases hquote : d = '"'
          · simp only [if_pos hquote]
            exact (trail_readText hne).map _
          · simp only [if_neg hquote]
            by_cases hdigit : d = '-' ∨ d.isDigit = true
            · simp only [if_pos hdigit]
              exact (trail_readNumber c).map _
            · simp only [if_neg hdigit]
              exact .stop (.nil c) rfl

theorem trail_readName (c : Cursor) : Trail c (c.alongRun CodePoint.isWordChar) (readName c) := by
  have hwalk := c.walk_alongRun CodePoint.isWordChar
  simp only [readName]
  split
  · rename_i hempty
    have hnil : (c.takeRun CodePoint.isWordChar).1 = [] := List.isEmpty_iff.1 hempty
    rw [Cursor.alongRun, hnil]
    exact .stop (.nil c) rfl
  · exact .ok hwalk

theorem trail_readKey (c : Cursor) : Trail c (keyPlaces c) (readKey c) := by
  have hblanks := c.walk_alongBlanks
  simp only [readKey, keyPlaces]
  cases hc : c.skipBlanks.rest with
  | nil => exact .quit hblanks rfl
  | cons d t =>
      have hkey : Trail c.skipBlanks
          (if d = '"' then textPlaces c.skipBlanks else c.skipBlanks.alongRun CodePoint.isWordChar)
          (if d = '"' then readText c.skipBlanks else readName c.skipBlanks) := by
        split
        · exact trail_readText (by rw [hc]; exact List.cons_ne_nil d t)
        · exact trail_readName _
      cases hk : if d = '"' then readText c.skipBlanks else readName c.skipBlanks with
      | error e =>
          simp only [hk]
          exact .after hblanks (hkey.fail hk)
      | ok r =>
          obtain ⟨key, after⟩ := r
          simp only [hk]
          refine .after (hblanks.append (hkey.walk hk)) (.after after.walk_alongBlanks ?_)
          split
          · rename_i hcolon
            exact .ok (Cursor.walk_alongNext_of_next hcolon)
          · rename_i hcolon
            exact .stop (Cursor.walk_alongNext_of_not hcolon) rfl

/-! ## Values -/

def proceedPlaces (c : Cursor) : Container → List Cursor
  | .list _ => []
  | .record _ _ => keyPlaces c

def openingPlaces (c : Cursor) : List Cursor :=
  if c.next (· = '[') then
    c.skip 1 :: ((c.skip 1).alongBlanks ++ (c.skip 1).skipBlanks.alongNext (· = ']'))
  else if c.next (· = '\x7b') then
    c.skip 1 :: ((c.skip 1).alongBlanks ++
      if (c.skip 1).skipBlanks.next (· = '\x7d') then [(c.skip 1).skipBlanks.skip 1]
      else keyPlaces (c.skip 1).skipBlanks)
  else scalarPlaces c

theorem trail_proceed (c : Cursor) (k : Container) : Trail c (proceedPlaces c k) (proceed c k) := by
  cases k with
  | list items => exact .ok (.nil c)
  | record fields key => exact (trail_readKey c).map _

theorem trail_readOpening (c : Cursor) : Trail c (openingPlaces c) (readOpening c) := by
  simp only [readOpening, openingPlaces]
  split
  · rename_i hlist
    refine .after (Cursor.walk_one (Cursor.ne_nil_of_next hlist)) ?_
    refine .after (Cursor.walk_alongBlanks _) ?_
    split
    · rename_i hcloser
      exact .ok (Cursor.walk_alongNext_of_next hcloser)
    · rename_i hcloser
      exact .ok (Cursor.walk_alongNext_of_not hcloser)
  · split
    · rename_i hrecord
      refine .after (Cursor.walk_one (Cursor.ne_nil_of_next hrecord)) ?_
      refine .after (Cursor.walk_alongBlanks _) ?_
      split
      · rename_i hcloser
        exact .ok (Cursor.walk_one (Cursor.ne_nil_of_next hcloser))
      · exact (trail_readKey _).map fun key => Opening.container (.record [] key)
    · exact (trail_readScalar c).map _

def openPlaces (task : Task) (stack : List Container) (c : Cursor) : List Cursor :=
  match task with
  | .seek =>
    match _hc : c.skipBlanks.rest with
    | [] => c.alongBlanks
    | _ :: _ =>
      match _ho : readOpening c.skipBlanks with
      | .error _ => c.alongBlanks ++ openingPlaces c.skipBlanks
      | .ok (.value v, after) =>
        c.alongBlanks ++ (openingPlaces c.skipBlanks ++ openPlaces (.store v) stack after)
      | .ok (.container k, after) =>
        c.alongBlanks ++ (openingPlaces c.skipBlanks ++ openPlaces .seek (k :: stack) after)
  | .store v =>
    match stack with
    | [] => []
    | k :: below =>
      let k := k.add v
      match _hc : c.skipBlanks.rest with
      | [] => c.alongBlanks
      | d :: _ =>
        let next := c.skipBlanks.skip 1
        if d = ',' then
          match _hp : proceed next k with
          | .error _ => c.alongBlanks ++ (next :: proceedPlaces next k)
          | .ok (k', after) => c.alongBlanks ++ next :: (proceedPlaces next k ++ openPlaces .seek (k' :: below) after)
        else if d = k.closer then c.alongBlanks ++ next :: openPlaces (.store k.close) below next
        else c.alongBlanks
termination_by c.rest.length
decreasing_by
  · exact Nat.lt_of_lt_of_le (length_readOpening_lt _ho) c.length_skipBlanks_le
  · exact Nat.lt_of_lt_of_le (length_readOpening_lt _ho) c.length_skipBlanks_le
  · have h1 := length_proceed_le _hp
    have h2 := c.length_skipBlanks_le
    have h3 : next.rest.length < c.skipBlanks.rest.length := Cursor.length_skip_lt (by decide) (by simp [_hc])
    omega
  · have h2 := c.length_skipBlanks_le
    have h3 := Cursor.length_skip_lt (n := 1) (c := c.skipBlanks) (by decide) (by simp [_hc])
    omega

/-- The places of one turn. -/
def turnPlaces : Task → List Container → Cursor → List Cursor
  | .seek, _, c => c.alongBlanks ++ if c.skipBlanks.rest = [] then [] else openingPlaces c.skipBlanks
  | .store _, [], _ => []
  | .store v, k :: _, c =>
    c.alongBlanks ++
      match c.skipBlanks.rest with
      | [] => []
      | d :: _ =>
        if d = ',' then c.skipBlanks.skip 1 :: proceedPlaces (c.skipBlanks.skip 1) (k.add v)
        else if d = (k.add v).closer then [c.skipBlanks.skip 1]
        else []

/-- The places from a turn on, behind those of the turn itself. -/
def Turn.places : Turn → List Cursor
  | onward task stack c => openPlaces task stack c
  | done _ => []

theorem openPlaces_turn (task : Task) (stack : List Container) (c : Cursor) :
    openPlaces task stack c = turnPlaces task stack c ++ (turn task stack c).places := by
  fun_cases openPlaces task stack c with
  | case1 stack hc => simp only [turnPlaces, turn, Turn.places, hc, ↓reduceIte, List.append_nil]
  | case2 stack d u hc e ho =>
      simp only [turnPlaces, turn, Turn.places, hc, ho, reduceCtorEq, ↓reduceIte, List.append_nil]
  | case3 stack d u hc v after ho =>
      simp only [turnPlaces, turn, Turn.places, hc, ho, reduceCtorEq, ↓reduceIte, List.append_assoc]
  | case4 stack d u hc k after ho =>
      simp only [turnPlaces, turn, Turn.places, hc, ho, reduceCtorEq, ↓reduceIte, List.append_assoc]
  | case5 v => rfl
  | case6 v k below hc => simp only [turnPlaces, turn, Turn.places, hc, List.append_nil]
  | case7 v k below added u next e hp hc =>
      have hp : proceed (c.skipBlanks.skip 1) (k.add v) = .error e := hp
      simp only [turnPlaces, turn, Turn.places, hc, hp, ↓reduceIte, List.append_nil, next, added]
  | case8 v k below added u next k' after hp hc =>
      have hp : proceed (c.skipBlanks.skip 1) (k.add v) = .ok (k', after) := hp
      simp only [turnPlaces, turn, Turn.places, hc, hp, ↓reduceIte, List.append_assoc, List.cons_append, next, added]
  | case9 v k below added u next hc hcomma =>
      simp only [turnPlaces, turn, Turn.places, hc, if_neg hcomma, ↓reduceIte, List.append_assoc, List.singleton_append,
        next, added]
  | case10 v k below added d u hc hcomma hcloser =>
      have hcloser : ¬ d = (k.add v).closer := hcloser
      simp only [turnPlaces, turn, Turn.places, hc, if_neg hcomma, if_neg hcloser, List.append_nil]

/-- The turn goes over the row of places to where the next one begins, or to where the reading ends. -/
def Turn.Follows (c : Cursor) (ps : List Cursor) : Turn → Prop
  | onward _ _ a => Walk c ps a
  | done r => Trail c ps r

theorem follows_turn (task : Task) (stack : List Container) (c : Cursor) :
    (turn task stack c).Follows c (turnPlaces task stack c) := by
  have hblanks := c.walk_alongBlanks
  have hone {d : CodePoint} {u : Text} (hc : c.skipBlanks.rest = d :: u) :
      Walk c.skipBlanks [c.skipBlanks.skip 1] (c.skipBlanks.skip 1) :=
    Cursor.walk_one (by rw [hc]; exact List.cons_ne_nil d u)
  cases task with
  | seek =>
      rw [turnPlaces]
      cases hc : c.skipBlanks.rest with
      | nil =>
          simp only [turn, hc, ↓reduceIte, List.append_nil]
          exact Trail.quit hblanks rfl
      | cons d u =>
          have htrail := trail_readOpening c.skipBlanks
          simp only [turn, hc, reduceCtorEq, ↓reduceIte]
          cases ho : readOpening c.skipBlanks with
          | error e => exact Trail.after hblanks (htrail.fail ho)
          | ok r => obtain ⟨v | k, a⟩ := r <;> exact hblanks.append (htrail.walk ho)
  | store v =>
      cases stack with
      | nil => exact Trail.ok (.nil c)
      | cons k below =>
          rw [turnPlaces]
          cases hc : c.skipBlanks.rest with
          | nil =>
              simp only [turn, hc, List.append_nil]
              exact Trail.quit hblanks rfl
          | cons d u =>
              simp only [turn, hc]
              by_cases hcomma : d = ','
              · have htrail := trail_proceed (c.skipBlanks.skip 1) (k.add v)
                simp only [if_pos hcomma]
                cases hp : proceed (c.skipBlanks.skip 1) (k.add v) with
                | error e => exact Trail.after hblanks (.after (hone hc) (htrail.fail hp))
                | ok r => exact hblanks.append ((hone hc).append (htrail.walk hp))
              · simp only [if_neg hcomma]
                by_cases hcloser : d = (k.add v).closer
                · simp only [if_pos hcloser]
                  exact hblanks.append (hone hc)
                · simp only [if_neg hcloser, List.append_nil]
                  exact Trail.stop hblanks rfl

/-- The trail of a reading is put together from those of its turns. -/
theorem trail_readOpen (task : Task) (stack : List Container) (c : Cursor) :
    Trail c (openPlaces task stack c) (readOpen task stack c) := by
  have hturn := follows_turn task stack c
  rw [openPlaces_turn, readOpen_turn]
  cases ht : turn task stack c with
  | onward task' stack' a =>
      have hless := length_turn_lt ht
      rw [ht] at hturn
      exact .after hturn (trail_readOpen task' stack' a)
  | done r =>
      rw [ht] at hturn
      rw [Turn.places, List.append_nil]
      exact hturn
termination_by c.rest.length

/-- What the reader has gone over when it comes to a place, and goes over from there on. -/
theorem Comes.openPlaces_eq {t : Text} {task : Task} {stack : List Container} {c : Cursor} (h : Comes t task stack c) :
    ∃ ps, openPlaces .seek [] (.start t) = ps ++ openPlaces task stack c ∧ Walk (.start t) ps c := by
  induction h with
  | start => exact ⟨[], rfl, .nil _⟩
  | @turn task task' stack stack' c a _ hturn ih =>
      obtain ⟨ps, hps, hwalk⟩ := ih
      have hfollows := follows_turn task stack c
      rw [hturn] at hfollows
      refine ⟨ps ++ turnPlaces task stack c, ?_, hwalk.append hfollows⟩
      rw [hps, openPlaces_turn, hturn, Turn.places, List.append_assoc]

/-! ## Whole texts -/

/-- Where the reader of a whole text stands, from the beginning of the trimmed text on. -/
def places (t : Text) : List Cursor :=
  let t := t.trim CodePoint.isBlank
  Cursor.start t ::
    if t.isEmpty then []
    else
      match readOpen .seek [] (.start t) with
      | .error _ => openPlaces .seek [] (.start t)
      | .ok (_, c) => openPlaces .seek [] (.start t) ++ c.alongBlanks

theorem trail_readAll (t : Text) : Trail (.start (t.trim CodePoint.isBlank)) (places t).tail (readAll t) := by
  simp only [readAll, places, List.tail_cons]
  split
  · exact .quit (.nil _) rfl
  · have hopen := trail_readOpen .seek [] (.start (t.trim CodePoint.isBlank))
    cases h : readOpen .seek [] (.start (t.trim CodePoint.isBlank)) with
    | error e => exact hopen.fail h
    | ok r =>
        obtain ⟨v, c⟩ := r
        refine .after (hopen.walk h) ?_
        have hblanks := c.walk_alongBlanks
        simp only
        split
        · exact .ok hblanks
        · exact .stop hblanks rfl

/-- Where a reading ended or stopped. -/
def Reading.stopped : Reading β → Nat
  | .ok (_, a) => a.position
  | .error e => e.stopped

/-- The position that the refusal of a reading names. -/
def Reading.named? : Reading β → Option Nat
  | .ok _ => none
  | .error e => e.error.position?

/-- The reader begins each of its turns at one of the places. -/
theorem Comes.mem_places {t : Text} {task : Task} {stack : List Container} {c : Cursor}
    (h : Comes (t.trim CodePoint.isBlank) task stack c) : c ∈ places t := by
  obtain ⟨ps, hps, hwalk⟩ := h.openPlaces_eq
  have hne : (t.trim CodePoint.isBlank).isEmpty = false := List.isEmpty_eq_false_iff.2 h.ne_nil
  have hmem : c ∈ Cursor.start (t.trim CodePoint.isBlank) :: openPlaces .seek [] (.start (t.trim CodePoint.isBlank)) := by
    rw [hps, ← List.cons_append]
    exact List.mem_append_left _ hwalk.mem_last
  simp only [places, hne, Bool.false_eq_true, ↓reduceIte]
  split
  · exact hmem
  · rw [← List.cons_append]
    exact List.mem_append_left _ hmem

/-- Each turn of the reader begins at one of the places and goes on to the same end. The reader never goes back, stays in
the trimmed text, is at its last place when it ends or stops, and names only positions at which it stood. -/
theorem places_spec (t : Text) :
    (∀ task stack a, Comes (t.trim CodePoint.isBlank) task stack a →
        a ∈ places t ∧ readOpen .seek [] (.start (t.trim CodePoint.isBlank)) = readOpen task stack a) ∧
      (places t).Pairwise (fun a b => a.position ≤ b.position) ∧
      (∀ a ∈ places t, a.position ≤ (t.trim CodePoint.isBlank).length ∧
        a.rest = (t.trim CodePoint.isBlank).drop a.position) ∧
      (places t).getLast?.map (·.position) = some (readAll t).stopped ∧
      ∀ p ∈ (readAll t).named?, ∃ a ∈ places t, a.position = p := by
  have hplaces : places t = .start (t.trim CodePoint.isBlank) :: (places t).tail := rfl
  have hwithin {a : Cursor} (h : Walk (.start (t.trim CodePoint.isBlank)) (places t).tail a) :
      ∀ b ∈ places t, b.position ≤ (t.trim CodePoint.isBlank).length ∧
        b.rest = (t.trim CodePoint.isBlank).drop b.position :=
    fun b hb => (h.mem_ahead b hb).of_start
  refine ⟨fun _ _ _ h => ⟨h.mem_places, h.readOpen_eq⟩, ?_⟩
  have htrail := trail_readAll t
  cases hread : readAll t with
  | ok r =>
      have hwalk := htrail.walk hread
      refine ⟨hwalk.pairwise, hwithin hwalk, ?_, nofun⟩
      rw [hplaces, hwalk.getLast?]
      rfl
  | error e =>
      rw [hread] at htrail
      cases htrail with
      | error hwalk hnamed =>
          refine ⟨hwalk.pairwise, hwithin hwalk, ?_, hnamed⟩
          rw [hplaces, hwalk.getLast?]
          rfl

end Pausable.Wire
