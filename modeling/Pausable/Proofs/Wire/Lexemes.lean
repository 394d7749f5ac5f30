import Pausable.Proofs.Result
import Pausable.Proofs.Wire.Emitted
import Pausable.Wire.Token

/-!
What snapshot text is put together from. All that is written of a value is a row of tokens, some of them between
brackets (`composed_write`), so that what each token has and brackets keep is found in every text.
-/
namespace Pausable.Wire

/-- A token that is written in one go. -/
inductive Lexeme : Text → Prop
  | constant {t : Text} {v : Value} : (t, v) ∈ constants → Lexeme t
  | number {n : Number} {t : Text} : writeNumber n = .ok t → Lexeme t
  | quoted (t : Text) : Lexeme (quote t)
  | name {k : Text} : isBareKey k = true → Lexeme k
  | comma : Lexeme ","
  | colon : Lexeme ":"

inductive Composed : Text → Prop
  | nil : Composed []
  | lexeme {t : Text} : Lexeme t → Composed t
  | append {t u : Text} : Composed t → Composed u → Composed (t ++ u)
  | list {t : Text} : Composed t → Composed ("[" ++ t ++ "]")
  | record {t : Text} : Composed t → Composed ("\x7b" ++ t ++ "\x7d")

theorem composed_join {ts : List Text} (h : ∀ t ∈ ts, Composed t) : Composed (Text.join "," ts) := by
  induction ts using Text.join.induct with
  | case1 => exact .nil
  | case2 t => exact h t (List.mem_cons_self ..)
  | case3 t ts hne ih =>
      rw [Text.join]
      · exact ((h t (List.mem_cons_self ..)).append (.lexeme .comma)).append
          (ih fun u hu => h u (List.mem_cons_of_mem t hu))
      · exact hne

theorem lexeme_fieldKey {k : Value} {t : Text} (h : fieldKey k = .ok t) : Lexeme t := by
  cases k with
  | text k =>
      cases h
      rw [keyText]
      split
      · rename_i hbare
        exact .name hbare
      · exact .quoted k
  | null | bool | number | list | tuple | record | alien => cases h

mutual

theorem composed_nested : (v : Value) → {t : Text} → nested v = .ok t → Composed t
  | .null, _, h => by
      cases h
      exact .lexeme (.constant (v := .null) (by simp [constants]))
  | .bool b, _, h => by
      cases h
      cases b with
      | true => exact .lexeme (.constant (v := .bool true) (by simp [constants]))
      | false => exact .lexeme (.constant (v := .bool false) (by simp [constants]))
  | .number _, _, h => .lexeme (.number h)
  | .text t, _, h => by
      cases h
      exact .lexeme (.quoted t)
  | .list vs, _, h => by
      obtain ⟨ts, hts, rfl⟩ := ok_of_map h
      exact .list (composed_join (composed_nestedItems vs hts))
  | .tuple vs, _, h => by
      obtain ⟨ts, hts, rfl⟩ := ok_of_map h
      exact .list (composed_join (composed_nestedItems vs hts))
  | .record fs, _, h => by
      rw [nested] at h
      split at h
      · cases h
      · obtain ⟨ts, hts, rfl⟩ := ok_of_map h
        exact .record (composed_join (composed_nestedFields fs hts))
  | .alien _, _, h => by cases h

theorem composed_nestedItems : (vs : List Value) → {ts : List Text} → nestedItems vs = .ok ts → ∀ t ∈ ts, Composed t
  | [], _, h => by
      cases h
      exact nofun
  | v :: vs, _, h => by
      obtain ⟨t, us, hv, hvs, rfl⟩ := nestedItems_cons h
      exact List.forall_mem_cons.2 ⟨composed_nested v hv, composed_nestedItems vs hvs⟩

theorem composed_nestedFields : (fs : List (Value × Value)) → {ts : List Text} → nestedFields fs = .ok ts →
    ∀ t ∈ ts, Composed t
  | [], _, h => by
      cases h
      exact nofun
  | (k, v) :: fs, _, h => by
      obtain ⟨key, t, us, hk, hv, hfs, rfl⟩ := nestedFields_cons h
      have hkey : Composed (key ++ ":") := .append (.lexeme (lexeme_fieldKey hk)) (.lexeme .colon)
      exact List.forall_mem_cons.2 ⟨hkey.append (composed_nested v hv), composed_nestedFields fs hfs⟩

end

theorem composed_write {v : Value} {t : Text} (h : write v = .ok t) : Composed t :=
  composed_nested v ((write_eq_nested v).symm.trans h)

end Pausable.Wire
