import Pausable.Wire.Nested

/-!
The waiting pieces are written as the rules of the format say: the pieces of a value add its text behind
what is already written, or stop at the same offender (`emits_value`).
-/
namespace Pausable.Wire

/-- Pieces add a text, whatever is written and whatever waits behind them, or they stop with an error. -/
def Emits (ps : List Piece) : Except WriteError Text → Prop
  | .error e => ∀ rest out, emit (ps ++ rest) out = .error e
  | .ok t => ∀ rest out, ∃ out', emit (ps ++ rest) out = emit rest out' ∧
      out'.reverse.flatten = out.reverse.flatten ++ t

/-- One result behind the other one, the first error first. -/
def behind (r r' : Except WriteError Text) : Except WriteError Text :=
  match r with
  | .error e => .error e
  | .ok t => r'.map (t ++ ·)

theorem emit_text (t : Text) (rest : List Piece) (out : List Text) :
    emit (.text t :: rest) out = emit rest (t :: out) := by
  rw [emit]

theorem emits_text (t : Text) : Emits [.text t] (.ok t) :=
  fun rest out => ⟨t :: out, emit_text t rest out, by simp⟩

theorem emits_nil : Emits [] (.ok []) := fun _ out => ⟨out, rfl, by simp⟩

theorem Emits.append {ps qs : List Piece} {r r' : Except WriteError Text} (h : Emits ps r)
    (h' : Emits qs r') : Emits (ps ++ qs) (behind r r') := by
  cases r with
  | error e =>
      intro rest out
      rw [List.append_assoc]
      exact h (qs ++ rest) out
  | ok t =>
      cases r' with
      | error e =>
          intro rest out
          obtain ⟨out₁, h₁, -⟩ := h (qs ++ rest) out
          rw [List.append_assoc, h₁]
          exact h' rest out₁
      | ok u =>
          intro rest out
          obtain ⟨out₁, h₁, hout₁⟩ := h (qs ++ rest) out
          obtain ⟨out₂, h₂, hout₂⟩ := h' rest out₁
          exact ⟨out₂, by rw [List.append_assoc, h₁, h₂], by rw [hout₂, hout₁, List.append_assoc]⟩

theorem emit_value {v : Value} {ps : List Piece} (h : Piece.expand v = .ok ps) (rest : List Piece)
    (out : List Text) : emit (.value v :: rest) out = emit (ps ++ rest) out := by
  rw [emit.eq_def]
  simp only
  split
  · rename_i e he
    rw [h] at he
    cases he
  · rename_i ps' hps
    rw [h] at hps
    cases hps
    rfl

theorem emits_expand {v : Value} {ps : List Piece} {r : Except WriteError Text}
    (h : Piece.expand v = .ok ps) (hps : Emits ps r) : Emits [.value v] r := by
  cases r with
  | error e => exact fun rest out => (emit_value h rest out).trans (hps rest out)
  | ok t =>
      intro rest out
      obtain ⟨out', h', hout⟩ := hps rest out
      exact ⟨out', (emit_value h rest out).trans h', hout⟩

theorem emits_error {v : Value} {e : WriteError} (h : Piece.expand v = .error e) :
    Emits [.value v] (.error e) := by
  intro rest out
  rw [List.singleton_append, emit]
  split
  · rename_i e' he
    rw [h] at he
    cases he
    rfl
  · rename_i ps hps
    rw [h] at hps
    cases hps

/-- Members between brackets. -/
theorem Emits.enclose {ps : List Piece} {r : Except WriteError (List Text)} (h : Emits ps (r.map (Text.join ",")))
    (opening closing : Text) : Emits (.text opening :: ps ++ [.text closing])
      (r.map fun ts => opening ++ Text.join "," ts ++ closing) := by
  have hall := ((emits_text opening).append h).append (emits_text closing)
  cases r with
  | error e => exact hall
  | ok ts => exact hall

theorem nestedItems_cons {v : Value} {vs : List Value} {ts : List Text} (h : nestedItems (v :: vs) = .ok ts) :
    ∃ u us, nested v = .ok u ∧ nestedItems vs = .ok us ∧ ts = u :: us := by
  rw [nestedItems] at h
  cases hv : nested v with
  | error e => rw [hv] at h; cases h
  | ok t =>
      cases hvs : nestedItems vs with
      | error e => rw [hv, hvs] at h; cases h
      | ok us => rw [hv, hvs] at h; cases h; exact ⟨t, us, rfl, rfl, rfl⟩

theorem nestedFields_cons {k v : Value} {fs : List (Value × Value)} {ts : List Text}
    (h : nestedFields ((k, v) :: fs) = .ok ts) : ∃ key u us, fieldKey k = .ok key ∧ nested v = .ok u ∧
      nestedFields fs = .ok us ∧ ts = (key ++ ":" ++ u) :: us := by
  rw [nestedFields] at h
  cases hk : fieldKey k with
  | error e => rw [hk] at h; cases h
  | ok key =>
      cases hv : nested v with
      | error e => rw [hk, hv] at h; cases h
      | ok t =>
          cases hfs : nestedFields fs with
          | error e => rw [hk, hv, hfs] at h; cases h
          | ok us => rw [hk, hv, hfs] at h; cases h; exact ⟨key, t, us, rfl, rfl, rfl, rfl⟩

theorem keyed_cons {k v : Value} {fs : List (Value × Value)} {ms : List (Text × Value)}
    (h : Piece.keyed ((k, v) :: fs) = .ok ms) :
    ∃ t ms', fieldKey k = .ok t ∧ Piece.keyed fs = .ok ms' ∧ ms = (t, v) :: ms' := by
  rw [Piece.keyed] at h
  cases hk : fieldKey k with
  | error e => rw [hk] at h; cases h
  | ok t =>
      cases hfs : Piece.keyed fs with
      | error e => rw [hk, hfs] at h; cases h
      | ok ms' => rw [hk, hfs] at h; cases h; exact ⟨t, ms', rfl, rfl, rfl⟩

mutual

/-- A value is written as its rule says. -/
theorem emits_value : (v : Value) → Emits [.value v] (nested v)
  | .null => emits_expand rfl (emits_text _)
  | .bool b => emits_expand rfl (emits_text _)
  | .number n => by
      rw [nested]
      cases hn : writeNumber n with
      | error e => exact emits_error (by simp only [Piece.expand, hn, Except.map])
      | ok t => exact emits_expand (by simp only [Piece.expand, hn, Except.map]) (emits_text t)
  | .text t => emits_expand rfl (emits_text _)
  | .list vs => by
      rw [nested]
      exact emits_expand rfl ((emits_items vs).enclose "[" "]")
  | .tuple vs => by
      rw [nested]
      exact emits_expand rfl ((emits_items vs).enclose "[" "]")
  | .record fs => by
      rw [nested]
      cases hk : Piece.keyed fs with
      | error e => exact emits_error (by simp only [Piece.expand, hk, Except.map])
      | ok ms =>
          have hall := (emits_fields fs ms hk).enclose "\x7b" "\x7d"
          exact emits_expand (by simp only [Piece.expand, hk, Except.map]) hall
  | .alien name => emits_error rfl

/-- The members of a list are written with commas between them. -/
theorem emits_items : (vs : List Value) →
    Emits (Piece.ofItems vs) ((nestedItems vs).map (Text.join ","))
  | [] => emits_nil
  | [v] => by
      have hv := emits_value v
      rw [nestedItems]
      cases hn : nested v with
      | error e => rwa [hn] at hv
      | ok t => rwa [hn] at hv
  | v :: w :: vs => by
      have hall := (emits_value v).append ((emits_text ",").append (emits_items (w :: vs)))
      rw [nestedItems]
      cases hn : nested v with
      | error e => rwa [hn] at hall
      | ok t =>
          rw [hn] at hall
          cases hw : nestedItems (w :: vs) with
          | error e => rwa [hw] at hall
          | ok ts =>
              obtain ⟨u, us, -, -, rfl⟩ := nestedItems_cons hw
              rw [hw] at hall
              simp only [Except.map, Text.join, List.append_assoc] at hall ⊢
              exact hall

/-- The fields of a record are written with commas between them. -/
theorem emits_fields : (fs : List (Value × Value)) → (ms : List (Text × Value)) →
    Piece.keyed fs = .ok ms → Emits (Piece.ofMembers ms) ((nestedFields fs).map (Text.join ","))
  | [], _, h => by
      cases h
      exact emits_nil
  | [(k, v)], ms, h => by
      obtain ⟨t, ms', ht, hms', rfl⟩ := keyed_cons h
      cases hms'
      have hall := (emits_text (t ++ ":")).append (emits_value v)
      rw [nestedFields, ht]
      cases hn : nested v with
      | error e => rwa [hn] at hall
      | ok u => rwa [hn] at hall
  | (k, v) :: f :: fs, ms, h => by
      obtain ⟨t, ms', ht, hms', rfl⟩ := keyed_cons h
      obtain ⟨u, ms'', hu, hms'', rfl⟩ := keyed_cons hms'
      have hall := ((emits_text (t ++ ":")).append (emits_value v)).append
        ((emits_text ",").append (emits_fields (f :: fs) _ hms'))
      rw [nestedFields, ht]
      cases hn : nested v with
      | error e => rwa [hn] at hall
      | ok x =>
          rw [hn] at hall
          cases hw : nestedFields (f :: fs) with
          | error e => rwa [hw] at hall
          | ok ts =>
              obtain ⟨key, y, ys, -, -, -, rfl⟩ := nestedFields_cons hw
              rw [hw] at hall
              simp only [behind, Except.map, Text.join, List.append_assoc] at hall ⊢
              exact hall

end

/-- The writer follows the rules of the format. -/
theorem write_eq_nested (v : Value) : write v = nested v := by
  have hemits := emits_value v
  cases hn : nested v with
  | error e =>
      rw [hn] at hemits
      have hout := hemits [] []
      rw [List.append_nil] at hout
      rw [write, hout]
      rfl
  | ok t =>
      rw [hn] at hemits
      obtain ⟨out, hout, htext⟩ := hemits [] []
      rw [List.append_nil] at hout
      rw [write, hout, emit, Except.map, htext]
      rfl

end Pausable.Wire
