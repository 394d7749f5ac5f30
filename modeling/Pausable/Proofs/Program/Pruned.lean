import Pausable.Proofs.Program.Native
import Pausable.Proofs.Program.Nested

/-!
What writing leaves of a record that was read as a tree: at every level the kind and the fields of that kind, in the
order in which they are written (`Node.pruned_ofValue`).
-/
namespace Pausable.Node

variable {α : Type}

mutual

/-- The second record is the first one without the fields that its nodes do not have. -/
inductive Pruned : Value → Value → Prop
  | literal {fs n} : Value.field? "kind" fs = some (.text Kind.literal.name) →
      Value.field? "value" fs = some (.number n) →
      Pruned (.record fs) (fields .literal [Value.named "value" (.number n)])
  | binary {fs s l r vl vr} : Value.field? "kind" fs = some (.text Kind.binary.name) →
      Value.field? "op" fs = some (.text s) → Value.field? "left" fs = some l → Value.field? "right" fs = some r →
      Pruned l vl → Pruned r vr →
      Pruned (.record fs) (fields .binary [Value.named "op" (.text s), Value.named "left" vl, Value.named "right" vr])
  | print {fs e ve} : Value.field? "kind" fs = some (.text Kind.print.name) → Value.field? "expr" fs = some e →
      Pruned e ve → Pruned (.record fs) (fields .print [Value.named "expr" ve])
  | block {fs ss vs} : Value.field? "kind" fs = some (.text Kind.block.name) →
      Value.field? "stmts" fs = some (.list ss) → PrunedAll ss vs →
      Pruned (.record fs) (fields .block [Value.named "stmts" (.list vs)])

inductive PrunedAll : List Value → List Value → Prop
  | nil : PrunedAll [] []
  | cons {v w vs ws} : Pruned v w → PrunedAll vs ws → PrunedAll (v :: vs) (w :: ws)

end

mutual

theorem pruned_nested [Strange α] : (n : Node α) → {v w : Value} → nested v = .ok n → toValue n = .ok w → Pruned v w
  | literal m, v, w, hv, hw => by
      obtain ⟨fs, rfl, hfs⟩ := nestedIn hv
      cases hfs with
      | literal hkind hvalue => cases hw; exact .literal hkind hvalue
  | binary s l r, v, w, hv, hw => by
      obtain ⟨fs, rfl, hfs⟩ := nestedIn hv
      obtain ⟨vl, vr, hl, hr, rfl⟩ := toValue_binary_ok hw
      cases hfs with
      | binary hkind hop hleft hright hnl hnr =>
          exact .binary hkind hop hleft hright (pruned_nested l hnl hl) (pruned_nested r hnr hr)
  | print e, v, w, hv, hw => by
      obtain ⟨fs, rfl, hfs⟩ := nestedIn hv
      obtain ⟨ve, he, rfl⟩ := toValue_print_ok hw
      cases hfs with
      | print hkind hexpr hne => exact .print hkind hexpr (pruned_nested e hne he)
  | block ss, v, w, hv, hw => by
      obtain ⟨fs, rfl, hfs⟩ := nestedIn hv
      obtain ⟨vs, hs, rfl⟩ := toValue_block_ok hw
      cases hfs with
      | block hkind hstmts hnodes => exact .block hkind hstmts (prunedAll_nested ss hnodes hs)
  | foreign a, v, w, hv, hw => by cases hw

theorem prunedAll_nested [Strange α] : (ns : List (Node α)) → {vs ws : List Value} → vs.mapM nested = .ok ns →
    toValues ns = .ok ws → PrunedAll vs ws
  | [], vs, ws, hv, hw => by
      cases List.eq_nil_of_length_eq_zero (length_mapM_nested hv).symm
      cases hw
      exact .nil
  | n :: ns, vs, ws, hv, hw => by
      obtain ⟨w, ws, hn, hs, rfl⟩ := toValues_cons_ok hw
      cases vs with
      | nil => cases hv
      | cons v vs =>
          obtain ⟨_, _, hv, hvs, ⟨⟩⟩ := mapM_nested_ok hv
          exact .cons (pruned_nested n hv hn) (prunedAll_nested ns hvs hs)

end

/-- A record that is read as a tree is pruned by writing the tree. -/
theorem pruned_ofValue [Strange α] {v : Value} {n : Node α} (h : ofValue v = .ok n) :
    ∃ w, toValue n = .ok w ∧ Pruned v w := by
  obtain ⟨w, hw⟩ := n.exists_toValue (native_ofValue h)
  exact ⟨w, hw, pruned_nested n (by rw [← ofValue_nested, h]) hw⟩

end Pausable.Node
