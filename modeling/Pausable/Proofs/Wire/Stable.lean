import Pausable.Proofs.Wire.RoundTrip
import Pausable.Wire.State

/-!
When writing is stable. What is read of a written value is plain, so it is written again as the format has it.
The second text is the first one where no two keys of a record are written alike, and else it is shorter, for a
field is lost (`second_text`).
-/
namespace Pausable

namespace Value

mutual

/-- All texts in a value, keys included. -/
def texts : Value → List Text
  | null | bool _ | number _ | alien _ => []
  | text t => [t]
  | list vs => textsOfItems vs
  | tuple vs => textsOfItems vs
  | record fs => textsOfFields fs

def textsOfItems : List Value → List Text
  | [] => []
  | v :: vs => v.texts ++ textsOfItems vs

def textsOfFields : List (Value × Value) → List Text
  | [] => []
  | (k, v) :: fs => k.texts ++ (v.texts ++ textsOfFields fs)

end

mutual

/-- The fields of all records in a value. -/
def records : Value → List (List (Value × Value))
  | null | bool _ | number _ | text _ | alien _ => []
  | list vs => recordsOfItems vs
  | tuple vs => recordsOfItems vs
  | record fs => fs :: recordsOfFields fs

def recordsOfItems : List Value → List (List (Value × Value))
  | [] => []
  | v :: vs => v.records ++ recordsOfItems vs

def recordsOfFields : List (Value × Value) → List (List (Value × Value))
  | [] => []
  | (_, v) :: fs => v.records ++ recordsOfFields fs

end

end Value

namespace Wire

/-- No two keys of the fields are written alike. -/
def KeysApart (fs : List (Value × Value)) : Prop := (fs.map fun f => fieldKey f.1).Nodup

theorem rereadItems_cons {v : Value} {vs ws : List Value} (h : rereadItems (v :: vs) = some ws) :
    ∃ w us, reread v = some w ∧ rereadItems vs = some us ∧ ws = w :: us := by
  obtain ⟨w, hw, h⟩ := Option.bind_eq_some_iff.1 h
  obtain ⟨us, hus, rfl⟩ := Option.map_eq_some_iff.1 h
  exact ⟨w, us, hw, hus, rfl⟩

theorem rereadFields_cons {l : Text} {v : Value} {fs : List (Value × Value)} {gs : List (Text × Value)}
    (h : rereadFields ((.text l, v) :: fs) = some gs) :
    ∃ s w hs, joined l = some s ∧ reread v = some w ∧ rereadFields fs = some hs ∧ gs = (s, w) :: hs := by
  obtain ⟨s, hs, h⟩ := Option.bind_eq_some_iff.1 h
  obtain ⟨w, hw, h⟩ := Option.bind_eq_some_iff.1 h
  obtain ⟨gs, hgs, rfl⟩ := Option.map_eq_some_iff.1 h
  exact ⟨s, w, gs, hs, hw, hgs, rfl⟩

theorem nestedFields_of_record {fs : List (Value × Value)} {t : Text} (h : nested (.record fs) = .ok t) :
    ∃ ts, nestedFields fs = .ok ts ∧ t = "\x7b" ++ Text.join "," ts ++ "\x7d" := by
  rw [nested] at h
  split at h
  · cases h
  · obtain ⟨ts, hts, rfl⟩ := ok_of_map h
    exact ⟨ts, hts, rfl⟩

/-! ## What is refused -/

mutual

/-- A value comes back just if all its texts are legible. -/
theorem reread_isSome : (v : Value) → {t : Text} → nested v = .ok t →
    ((reread v).isSome = true ↔ ∀ u ∈ v.texts, Legible u)
  | .null, _, _ => by simp [reread, Value.texts]
  | .bool _, _, _ => by simp [reread, Value.texts]
  | .number _, _, _ => by simp [reread, Value.texts]
  | .text u, _, _ => by rw [reread, Option.isSome_map, joined_isSome, Value.texts, List.forall_mem_singleton]
  | .list vs, _, h => by
      obtain ⟨ts, hts, -⟩ := ok_of_map h
      rw [reread, Option.isSome_map, rereadItems_isSome vs hts, Value.texts]
  | .tuple vs, _, h => by
      obtain ⟨ts, hts, -⟩ := ok_of_map h
      rw [reread, Option.isSome_map, rereadItems_isSome vs hts, Value.texts]
  | .record fs, _, h => by
      obtain ⟨ts, hts, -⟩ := nestedFields_of_record h
      rw [reread, Option.isSome_map, rereadFields_isSome fs hts, Value.texts]
  | .alien _, _, h => by cases h

theorem rereadItems_isSome : (vs : List Value) → {ts : List Text} → nestedItems vs = .ok ts →
    ((rereadItems vs).isSome = true ↔ ∀ u ∈ Value.textsOfItems vs, Legible u)
  | [], _, _ => by simp [rereadItems, Value.textsOfItems]
  | v :: vs, _, h => by
      obtain ⟨u, us, hu, hus, -⟩ := nestedItems_cons h
      rw [Value.textsOfItems, List.forall_mem_append, ← reread_isSome v hu, ← rereadItems_isSome vs hus, rereadItems]
      cases reread v <;> simp

theorem rereadFields_isSome : (fs : List (Value × Value)) → {ts : List Text} → nestedFields fs = .ok ts →
    ((rereadFields fs).isSome = true ↔ ∀ u ∈ Value.textsOfFields fs, Legible u)
  | [], _, _ => by simp [rereadFields, Value.textsOfFields]
  | (k, v) :: fs, _, h => by
      obtain ⟨l, u, us, rfl, hu, hus, -⟩ := nestedFields_text h
      rw [Value.textsOfFields, List.forall_mem_append, List.forall_mem_append, ← reread_isSome v hu,
        ← rereadFields_isSome fs hus, Value.texts, List.forall_mem_singleton, ← joined_isSome, rereadFields]
      cases joined l <;> cases reread v <;> simp

end

/-! ## What comes back is plain -/

mutual

theorem plain_reread : (v : Value) → {t : Text} → {w : Value} → nested v = .ok t → reread v = some w →
    w.Plain Number.Short Unjoined
  | .null, _, _, _, hw => by cases hw; trivial
  | .bool _, _, _, _, hw => by cases hw; trivial
  | .number n, _, _, h, hw => by cases hw; exact short_of_writeNumber h
  | .text u, _, _, _, hw => by
      obtain ⟨s, hs, rfl⟩ := Option.map_eq_some_iff.1 hw
      exact unjoined_joined hs
  | .list vs, _, _, h, hw => by
      obtain ⟨ts, hts, -⟩ := ok_of_map h
      obtain ⟨ws, hws, rfl⟩ := Option.map_eq_some_iff.1 hw
      exact plain_rereadItems vs hts hws
  | .tuple vs, _, _, h, hw => by
      obtain ⟨ts, hts, -⟩ := ok_of_map h
      obtain ⟨ws, hws, rfl⟩ := Option.map_eq_some_iff.1 hw
      exact plain_rereadItems vs hts hws
  | .record fs, _, _, h, hw => by
      obtain ⟨ts, hts, -⟩ := nestedFields_of_record h
      obtain ⟨gs, hgs, rfl⟩ := Option.map_eq_some_iff.1 hw
      exact plain_settled (plain_rereadFields fs hts hgs)
  | .alien _, _, _, h, _ => by cases h

theorem plain_rereadItems : (vs : List Value) → {ts : List Text} → {ws : List Value} → nestedItems vs = .ok ts →
    rereadItems vs = some ws → Value.PlainItems Number.Short Unjoined ws
  | [], _, _, _, hws => by cases hws; trivial
  | v :: vs, _, _, h, hws => by
      obtain ⟨u, us, hu, hus, -⟩ := nestedItems_cons h
      obtain ⟨w, ws', hw, hws', rfl⟩ := rereadItems_cons hws
      exact ⟨plain_reread v hu hw, plain_rereadItems vs hus hws'⟩

theorem plain_rereadFields : (fs : List (Value × Value)) → {ts : List Text} → {gs : List (Text × Value)} →
    nestedFields fs = .ok ts → rereadFields fs = some gs →
      ∀ g ∈ gs, Unjoined g.1 ∧ g.2.Plain Number.Short Unjoined
  | [], _, _, _, hgs => by cases hgs; exact nofun
  | (k, v) :: fs, _, _, h, hgs => by
      obtain ⟨l, u, us, rfl, hu, hus, -⟩ := nestedFields_text h
      obtain ⟨s, w, gs', hs, hw, hgs', rfl⟩ := rereadFields_cons hgs
      exact List.forall_mem_cons.2 ⟨⟨unjoined_joined hs, plain_reread v hu hw⟩, plain_rereadFields fs hus hgs'⟩

end

/-! ## The second text -/

/-- The length of members with a comma before each. -/
def rowLength (ts : List Text) : Nat := total (fun t => t.length + 1) ts

theorem length_join_lt {ts us : List Text} (hus : us ≠ []) (h : rowLength us < rowLength ts) :
    (Text.join "," us).length < (Text.join "," ts).length := by
  have hjoin (t : Text) (ts : List Text) : (Text.join "," (t :: ts)).length + 1 = rowLength (t :: ts) := by
    induction ts generalizing t with
    | nil => rfl
    | cons u ts ih =>
        have := ih u
        rw [rowLength, total_cons, ← rowLength, ← this, Text.join, List.length_append, List.length_append]
        · exact show t.length + 1 + _ + 1 = t.length + 1 + (_ + 1) by omega
        · exact nofun
  obtain ⟨u, us, rfl⟩ := List.exists_cons_of_ne_nil hus
  cases ts with
  | nil => exact absurd h (Nat.not_lt_zero _)
  | cons t ts =>
      have := hjoin u us
      have := hjoin t ts
      omega

/-- A field as it stands in a text. -/
def fieldText (k : Text) (v : Value) : Text := keyText k ++ ":" ++ format.text v

theorem fields_append (fs fs' : List (Value × Value)) :
    format.fields (fs ++ fs') = format.fields fs ++ format.fields fs' := by
  induction fs with
  | nil => rfl
  | cons f fs ih =>
      obtain ⟨k, v⟩ := f
      cases k <;> exact congrArg (List.cons _) ih

theorem fields_cons (f : Value × Value) (fs : List (Value × Value)) :
    format.fields (f :: fs) = format.fields [f] ++ format.fields fs := fields_append [f] fs

theorem rowLength_append (ts us : List Text) : rowLength (ts ++ us) = rowLength ts + rowLength us :=
  total_append ..

/-- A field that is set in the place of an old one takes less room than behind it. -/
theorem rowLength_setField {k : Text} {fs : List (Value × Value)} (h : .text k ∈ fs.map (·.1)) (v : Value) :
    rowLength (format.fields (Value.setField (.text k) v fs)) < rowLength (format.fields fs) + rowLength [fieldText k v] := by
  induction fs with
  | nil => cases h
  | cons f fs ih =>
      rw [Value.setField]
      split
      · rename_i hsame
        have hold : 0 < rowLength (format.fields [f]) := by
          obtain ⟨l, w⟩ := f
          cases l <;> exact Nat.lt_of_lt_of_le (Nat.succ_pos _) (Nat.le_add_right ..)
        have hset : format.fields [(f.1, v)] = [fieldText k v] := by
          rw [(Value.same_text f.1 k).1 hsame]
          rfl
        rw [fields_cons (f.1, v), fields_cons f, rowLength_append, rowLength_append, hset]
        omega
      · rename_i hsame
        have hne : Value.text k ≠ f.1 := fun heq => hsame ((Value.same_text f.1 k).2 heq.symm)
        have := ih ((List.mem_cons.1 h).resolve_left hne)
        rw [fields_cons f (Value.setField ..), fields_cons f fs, rowLength_append, rowLength_append]
        omega

/-- Where no key is repeated, all fields stay in their places. -/
theorem fields_settled {gs : List (Text × Value)} (h : (gs.map (·.1)).Nodup) :
    format.fields (settled gs) = gs.map fun g => fieldText g.1 g.2 := by
  rw [settled_nodup h]
  clear h
  induction gs with
  | nil => rfl
  | cons g gs ih => exact congrArg (List.cons _) ih

/-- Where one is repeated, room is lost. -/
theorem rowLength_settled {gs : List (Text × Value)} (h : ¬ (gs.map (·.1)).Nodup) :
    rowLength (format.fields (settled gs)) < rowLength (gs.map fun g => fieldText g.1 g.2) := by
  induction gs using List.reverseRecOn with
  | nil => exact absurd List.nodup_nil h
  | append_singleton gs g ih =>
      rw [settled_append, List.map_append, rowLength_append]
      have hlast : rowLength ([g].map fun g => fieldText g.1 g.2) = rowLength [fieldText g.1 g.2] := rfl
      by_cases hmem : g.1 ∈ gs.map (·.1)
      · have hset := rowLength_setField ((mem_keys_settled gs g.1).2 hmem) g.2
        by_cases hnodup : (gs.map (·.1)).Nodup
        · rw [fields_settled hnodup] at hset
          exact hset
        · have := ih hnodup
          omega
      · have hnodup : ¬ (gs.map (·.1)).Nodup := by
          intro hnodup
          apply h
          rw [List.map_append, List.nodup_append]
          refine ⟨hnodup, List.pairwise_singleton .., ?_⟩
          rintro k hk l hl rfl
          rw [List.mem_singleton.1 hl] at hk
          exact hmem hk
        have := ih hnodup
        rw [Value.setField_of_new fun h => hmem ((mem_keys_settled gs g.1).1 h), fields_append, rowLength_append]
        have hnew : rowLength (format.fields [(.text g.1, g.2)]) = rowLength [fieldText g.1 g.2] := rfl
        omega

theorem fieldKeys_reread : (fs : List (Value × Value)) → {ts : List Text} → {gs : List (Text × Value)} →
    nestedFields fs = .ok ts → rereadFields fs = some gs →
      fs.map (fun f => fieldKey f.1) = (gs.map (·.1)).map fun k => .ok (keyText k)
  | [], _, _, _, hgs => by cases hgs; rfl
  | (k, v) :: fs, _, _, h, hgs => by
      obtain ⟨l, u, us, rfl, hu, hus, -⟩ := nestedFields_text h
      obtain ⟨s, w, gs', hs, hw, hgs', rfl⟩ := rereadFields_cons hgs
      rw [List.map_cons, fieldKeys_reread fs hus hgs', List.map_cons, List.map_cons, keyText_joined hs, fieldKey]

theorem keysApart_iff {fs : List (Value × Value)} {ts : List Text} {gs : List (Text × Value)}
    (h : nestedFields fs = .ok ts) (hgs : rereadFields fs = some gs) : KeysApart fs ↔ (gs.map (·.1)).Nodup := by
  have hplain := plain_rereadFields fs h hgs
  have hunjoined : ∀ k ∈ gs.map (·.1), Unjoined k := by
    intro k hk
    obtain ⟨g, hg, rfl⟩ := List.mem_map.1 hk
    exact (hplain g hg).1
  rw [KeysApart, fieldKeys_reread fs h hgs]
  refine ⟨List.Nodup.of_map _, fun hnodup => hnodup.map_on fun k hk l hl heq => ?_⟩
  exact keyText_inj (hunjoined k hk) (hunjoined l hl) (Except.ok.inj heq)

theorem fields_settled_ne_nil {gs : List (Text × Value)} (h : gs ≠ []) : format.fields (settled gs) ≠ [] := by
  obtain ⟨g, gs, rfl⟩ := List.exists_cons_of_ne_nil h
  have hmem := (mem_keys_settled (g :: gs) g.1).2 (List.mem_cons_self ..)
  cases hs : settled (g :: gs) with
  | nil =>
      rw [hs] at hmem
      cases hmem
  | cons f fs =>
      obtain ⟨k, v⟩ := f
      cases k <;> exact nofun

/-- The second text is the first one where a condition holds, and else it is shorter. -/
inductive Shrinks (apart : Prop) (second first : Text) : Prop where
  | same : apart → second = first → Shrinks apart second first
  | shorter : ¬ apart → second.length < first.length → Shrinks apart second first

theorem Shrinks.append_left {p : Prop} {t u : Text} (h : Shrinks p u t) (r : Text) : Shrinks p (r ++ u) (r ++ t) := by
  cases h with
  | same hp ht => exact .same hp (by rw [ht])
  | shorter hp hlt =>
      refine .shorter hp ?_
      rw [List.length_append, List.length_append]
      exact Nat.add_lt_add_left hlt _

/-- The same for rows of members. -/
inductive ShrinksAll (apart : Prop) (second first : List Text) : Prop where
  | same : apart → second = first → ShrinksAll apart second first
  | shorter : ¬ apart → second ≠ [] → rowLength second < rowLength first → ShrinksAll apart second first

namespace ShrinksAll

variable {p q : Prop} {ts us : List Text}

theorem cons {t u : Text} (h : Shrinks p u t) (h' : ShrinksAll q us ts) : ShrinksAll (p ∧ q) (u :: us) (t :: ts) := by
  have hrow (t : Text) (ts : List Text) : rowLength (t :: ts) = t.length + 1 + rowLength ts := total_cons ..
  cases h with
  | same hp ht =>
      cases h' with
      | same hq hts => exact .same ⟨hp, hq⟩ (by rw [ht, hts])
      | shorter hq _ hlt =>
          refine .shorter (fun h => hq h.2) nofun ?_
          rw [hrow, hrow, ht]
          omega
  | shorter hp hlt =>
      refine .shorter (fun h => hp h.1) nofun ?_
      have hle : rowLength us ≤ rowLength ts := by
        cases h' with
        | same _ hts => rw [hts]
        | shorter _ _ hlt => exact Nat.le_of_lt hlt
      rw [hrow, hrow]
      omega

theorem enclose (h : ShrinksAll p us ts) (opening closing : Text) :
    Shrinks p (opening ++ Text.join "," us ++ closing) (opening ++ Text.join "," ts ++ closing) := by
  cases h with
  | same hp hts => exact .same hp (by rw [hts])
  | shorter hp hne hlt =>
      refine .shorter hp ?_
      have := length_join_lt hne hlt
      simp only [List.length_append]
      omega

/-- A record keeps its fields where no key is repeated, and loses room else. -/
theorem settled {gs : List (Text × Value)} (h : ShrinksAll q (gs.map fun g => fieldText g.1 g.2) ts) :
    ShrinksAll ((gs.map (·.1)).Nodup ∧ q) (format.fields (settled gs)) ts := by
  by_cases hnodup : (gs.map (·.1)).Nodup
  · rw [fields_settled hnodup]
    cases h with
    | same hq hts => exact .same ⟨hnodup, hq⟩ hts
    | shorter hq hne hlt => exact .shorter (fun h => hq h.2) hne hlt
  · have hrow := rowLength_settled hnodup
    have hne : gs ≠ [] := by
      rintro rfl
      exact hnodup .nil
    refine .shorter (fun h => hnodup h.1) (fields_settled_ne_nil hne) ?_
    cases h with
    | same _ hts => rwa [hts] at hrow
    | shorter _ _ hlt => exact Nat.lt_trans hrow hlt

end ShrinksAll

mutual

theorem shrinks_reread : (v : Value) → {t : Text} → {w : Value} → nested v = .ok t → reread v = some w →
    Shrinks (∀ fs ∈ v.records, KeysApart fs) (format.text w) t
  | .null, _, _, h, hw => by cases h; cases hw; exact .same nofun rfl
  | .bool _, _, _, h, hw => by cases h; cases hw; exact .same nofun rfl
  | .number n, _, _, h, hw => by cases hw; exact .same nofun (scalarText_number h)
  | .text u, _, _, h, hw => by
      obtain ⟨s, hs, rfl⟩ := Option.map_eq_some_iff.1 hw
      cases h
      have hquote : quote s = quote u := by rw [quote, quote, flatMap_joined hs]
      exact .same nofun hquote
  | .list vs, _, _, h, hw => by
      obtain ⟨ts, hts, rfl⟩ := ok_of_map h
      obtain ⟨ws, hws, rfl⟩ := Option.map_eq_some_iff.1 hw
      exact ShrinksAll.enclose (shrinks_rereadItems vs hts hws) "[" "]"
  | .tuple vs, _, _, h, hw => by
      obtain ⟨ts, hts, rfl⟩ := ok_of_map h
      obtain ⟨ws, hws, rfl⟩ := Option.map_eq_some_iff.1 hw
      exact ShrinksAll.enclose (shrinks_rereadItems vs hts hws) "[" "]"
  | .record fs, _, _, h, hw => by
      obtain ⟨ts, hts, rfl⟩ := nestedFields_of_record h
      obtain ⟨gs, hgs, rfl⟩ := Option.map_eq_some_iff.1 hw
      rw [Value.records, List.forall_mem_cons, keysApart_iff hts hgs, Format.text]
      exact (ShrinksAll.settled (shrinks_rereadFields fs hts hgs)).enclose "\x7b" "\x7d"
  | .alien _, _, _, h, _ => by cases h

theorem shrinks_rereadItems : (vs : List Value) → {ts : List Text} → {ws : List Value} → nestedItems vs = .ok ts →
    rereadItems vs = some ws →
      ShrinksAll (∀ fs ∈ Value.recordsOfItems vs, KeysApart fs) (format.items ws) ts
  | [], _, _, h, hws => by cases h; cases hws; exact .same nofun rfl
  | v :: vs, _, _, h, hws => by
      obtain ⟨u, us, hu, hus, rfl⟩ := nestedItems_cons h
      obtain ⟨w, ws', hw, hws', rfl⟩ := rereadItems_cons hws
      rw [Value.recordsOfItems, List.forall_mem_append]
      exact .cons (shrinks_reread v hu hw) (shrinks_rereadItems vs hus hws')

theorem shrinks_rereadFields : (fs : List (Value × Value)) → {ts : List Text} → {gs : List (Text × Value)} →
    nestedFields fs = .ok ts → rereadFields fs = some gs →
      ShrinksAll (∀ gs ∈ Value.recordsOfFields fs, KeysApart gs) (gs.map fun g => fieldText g.1 g.2) ts
  | [], _, _, h, hgs => by cases h; cases hgs; exact .same nofun rfl
  | (k, v) :: fs, _, _, h, hgs => by
      obtain ⟨l, u, us, rfl, hu, hus, rfl⟩ := nestedFields_text h
      obtain ⟨s, w, gs', hs, hw, hgs', rfl⟩ := rereadFields_cons hgs
      have hfield := (shrinks_reread v hu hw).append_left (keyText l ++ ":")
      rw [← keyText_joined hs] at hfield ⊢
      rw [Value.recordsOfFields, List.forall_mem_append]
      exact .cons hfield (shrinks_rereadFields fs hus hgs')

end

/-- Whatever is written, the reader takes the text back just if all texts in the value are legible. Writing it
again then gives the same text just if no two keys of a record are written alike. -/
theorem isStable_iff {v : Value} {t : Text} (h : write v = .ok t) :
    ((∃ w, read t = .ok w) ↔ ∀ u ∈ v.texts, Legible u) ∧
      (isStable v = .ok true ↔ (∀ u ∈ v.texts, Legible u) ∧ ∀ fs ∈ v.records, KeysApart fs) ∧
      (isStable v = .ok true ∨ isStable v = .ok false) := by
  have hread := read_written h
  have hnested := (write_eq_nested v).symm.trans h
  rw [← reread_isSome v hnested]
  cases hw : reread v with
  | none =>
      have hstable : isStable v = .ok false := by
        cases hr : read t with
        | error e => simp only [isStable, h, hr]
        | ok w => rw [hr, hw] at hread; cases hread
      refine ⟨⟨fun ⟨w, hok⟩ => ?_, nofun⟩, ⟨fun htrue => ?_, fun hboth => nomatch hboth.1⟩, .inr hstable⟩
      · rw [hok, hw] at hread
        cases hread
      · rw [hstable] at htrue
        cases htrue
  | some w =>
      have hok : read t = .ok w := by
        cases hr : read t with
        | error e => rw [hr, hw] at hread; cases hread
        | ok w' => rw [hr, hw] at hread; cases hread; rfl
      have hstable : isStable v = .ok (decide (t = format.text w)) := by
        simp only [isStable, h, hok, write_plain (plain_reread v hnested hw)]
      have hiff : t = format.text w ↔ ∀ fs ∈ v.records, KeysApart fs := by
        cases shrinks_reread v hnested hw with
        | same hapart ht => exact ⟨fun _ => hapart, fun _ => ht.symm⟩
        | shorter hnot hlt =>
            refine ⟨fun ht => ?_, fun hapart => absurd hapart hnot⟩
            rw [ht] at hlt
            exact absurd hlt (Nat.lt_irrefl _)
      refine ⟨⟨fun _ => rfl, fun _ => ⟨w, hok⟩⟩, ?_, ?_⟩
      · rw [hstable, ← hiff]
        simp
      · rw [hstable]
        cases decide (t = format.text w) <;> simp

/-- The two surrogates of a code point as one key, and the code point as another one. -/
def mergedKeys : Value :=
  .record [(.text [.ofNat 0xD83D, .ofNat 0xDE00], .bool false), (.text [.ofNat 0x1F600], .bool true)]

theorem isStable_iff_mergedKeys :
    (∃ t, write mergedKeys = .ok t ∧ ∃ w, read t = .ok w) ∧ isStable mergedKeys = .ok false := by
  let first : Text := "\x7b\"\\ud83d\\ude00\":FALSE,\"\\ud83d\\ude00\":TRUE\x7d"
  have hwrite : write mergedKeys = .ok first := by decide +kernel
  have hlegible : ∀ u ∈ mergedKeys.texts, Legible u := by decide
  have hmerged : ¬ ∀ fs ∈ mergedKeys.records, KeysApart fs := by
    intro h
    have hnodup := h _ (List.mem_cons_self ..)
    exact (List.nodup_cons.1 hnodup).1 (List.mem_cons_self ..)
  obtain ⟨hread, hstable, htotal⟩ := isStable_iff hwrite
  exact ⟨⟨first, hwrite, hread.2 hlegible⟩, htotal.resolve_left fun h => hmerged (hstable.1 h).2⟩

/-- Two first surrogates are written, and refused by the reader. -/
theorem highs_not_stable :
    let v : Value := .text [.ofNat 0xD800, .ofNat 0xD800]
    write v = .ok "\"\\ud800\\ud800\"" ∧ (read "\"\\ud800\\ud800\"").isOk = false ∧ isStable v = .ok false := by
  decide +kernel

end Wire
end Pausable
