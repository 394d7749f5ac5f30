import Pausable.Program.Nested
import Pausable.Proofs.Program.Written

/-!
The reader with its list of pending items reads a record as the recursion does, whatever else it has to do
(`Node.readPending_nested`).
-/
namespace Pausable

theorem Kind.text_of_ofValue? {v : Value} {k : Kind} (h : Kind.ofValue? v = some k) : v = .text k.name := by
  have hname := List.find?_some h
  cases v with
  | text t => rw [of_decide_eq_true hname]
  | null | bool | number | list | tuple | record | alien => cases hname

namespace Node

variable {α : Type}

namespace Head

/-- The number of children. -/
def arity : Head → Nat
  | literal _ => 0
  | binary _ => 2
  | print => 1
  | block n => n

theorem exists_node {h : Head} {nodes : List (Node α)} (hl : nodes.length = h.arity) (built : List (Node α)) :
    ∃ n, h.node? nodes = some n ∧ h.assemble (nodes.reverse ++ built) = n :: built := by
  cases h with
  | literal n =>
      cases List.eq_nil_of_length_eq_zero hl
      exact ⟨_, rfl, rfl⟩
  | binary s =>
      match nodes, hl with
      | [l, r], _ => exact ⟨_, rfl, rfl⟩
  | print =>
      obtain ⟨e, rfl⟩ := List.length_eq_one_iff.1 hl
      exact ⟨_, rfl, rfl⟩
  | block k =>
      cases hl
      exact ⟨.block nodes, by simp [node?], by simp [assemble, List.take_left', List.drop_left']⟩

end Head

/-- The fields of a record that are read, by its kind: they give the node without its children, and the records of
those. -/
inductive Headed (fs : List (Value × Value)) : Head → List Value → Prop
  | literal {n} : Value.field? "kind" fs = some (.text Kind.literal.name) →
      Value.field? "value" fs = some (.number n) → Headed fs (.literal n) []
  | binary {s l r} : Value.field? "kind" fs = some (.text Kind.binary.name) → Value.field? "op" fs = some (.text s) →
      Value.field? "left" fs = some l → Value.field? "right" fs = some r → Headed fs (.binary s) [l, r]
  | print {e} : Value.field? "kind" fs = some (.text Kind.print.name) → Value.field? "expr" fs = some e →
      Headed fs .print [e]
  | block {vs} : Value.field? "kind" fs = some (.text Kind.block.name) → Value.field? "stmts" fs = some (.list vs) →
      Headed fs (.block vs.length) vs

theorem headed {v : Value} {h : Head} {children : List Value} (hh : head v = .ok (h, children)) :
    ∃ fs, v = .record fs ∧ Headed fs h children := by
  rw [head.eq_def] at hh
  split at hh
  · rename_i fs
    refine ⟨fs, rfl, ?_⟩
    split at hh
    · cases hh
    · rename_i kind hfield
      split at hh
      · cases hh
      · rename_i k hk
        cases Kind.text_of_ofValue? hk
        cases k with
        | literal =>
            simp only [headOfKind] at hh
            split at hh <;> cases hh
            rename_i hvalue
            exact .literal hfield (need_eq_ok hvalue)
        | binary =>
            simp only [headOfKind] at hh
            split at hh
            · cases hh
            · rename_i hop
              split at hh
              · cases hh
              · rename_i hleft
                split at hh <;> cases hh
                rename_i hright
                exact .binary hfield (need_eq_ok hop) (need_eq_ok hleft) (need_eq_ok hright)
            · cases hh
        | print =>
            obtain ⟨e, hexpr, heq⟩ := ok_of_map hh
            cases heq
            exact .print hfield (need_eq_ok hexpr)
        | block =>
            simp only [headOfKind] at hh
            split at hh <;> cases hh
            rename_i hstmts
            exact .block hfield (need_eq_ok hstmts)
  · cases hh

theorem length_children {v : Value} {h : Head} {children : List Value} (hh : head v = .ok (h, children)) :
    children.length = h.arity := by
  obtain ⟨fs, -, hfs⟩ := headed hh
  cases hfs <;> rfl

/-- The recursion without the proofs that it ends. -/
theorem nested_eq (v : Value) : (nested v : Except NodeError (Node α)) =
    match head v with
    | .error e => .error e
    | .ok (h, children) =>
      match children.mapM nested with
      | .error e => .error e
      | .ok nodes => match h.node? nodes with
        | some n => .ok n
        | none => .error (.malformed .nothing) := by
  rw [nested]
  split
  · rename_i h
    rw [h]
  · rename_i children h
    have hmap : (children.attach.mapM fun c => nested c.1 : Except NodeError (List (Node α))) = children.mapM nested := by
      simp only [List.mapM_subtype, List.unattach_attach]
    simp only [h]
    exact hmap ▸ rfl

theorem mapM_nested_cons (v : Value) (vs : List Value) : ((v :: vs).mapM nested : Except NodeError (List (Node α))) =
    match nested v with
    | .error e => .error e
    | .ok n => match vs.mapM nested with
      | .error e => .error e
      | .ok ns => .ok (n :: ns) := by
  rw [List.mapM_cons]
  cases (nested v : Except NodeError (Node α)) with
  | error e => rfl
  | ok n => cases (vs.mapM nested : Except NodeError (List (Node α))) <;> rfl

theorem mapM_nested_ok {v : Value} {vs : List Value} {ns : List (Node α)} (h : (v :: vs).mapM nested = .ok ns) :
    ∃ m ms, nested v = .ok m ∧ vs.mapM nested = .ok ms ∧ ns = m :: ms := by
  rw [mapM_nested_cons] at h
  split at h
  · cases h
  · rename_i m hv
    split at h <;> cases h
    rename_i ms hvs
    exact ⟨m, ms, hv, hvs, rfl⟩

theorem length_mapM_nested {vs : List Value} {ns : List (Node α)} (h : vs.mapM nested = .ok ns) :
    ns.length = vs.length := by
  induction vs generalizing ns with
  | nil => cases h; rfl
  | cons v vs ih =>
      obtain ⟨m, ms, -, hvs, rfl⟩ := mapM_nested_ok h
      rw [List.length_cons, List.length_cons, ih hvs]

theorem readPending_checks {vs : List Value} (hvs : ∀ v ∈ vs, ∀ (rest : List Pending) (built : List (Node α)),
      readPending (.check v :: rest) built = match nested v with
        | .error e => .error e
        | .ok n => readPending rest (n :: built))
    (rest : List Pending) (built : List (Node α)) :
    readPending (vs.map .check ++ rest) built = match vs.mapM nested with
      | .error e => .error e
      | .ok ns => readPending rest (ns.reverse ++ built) := by
  induction vs generalizing built with
  | nil => rfl
  | cons v vs ih =>
      obtain ⟨hv, hvs⟩ := List.forall_mem_cons.1 hvs
      rw [List.map_cons, List.cons_append, hv, mapM_nested_cons]
      cases (nested v : Except NodeError (Node α)) with
      | error e => rfl
      | ok n =>
          simp only [ih hvs]
          cases (vs.mapM nested : Except NodeError (List (Node α))) with
          | error e => rfl
          | ok ns => simp only [List.reverse_cons, List.append_assoc, List.cons_append, List.nil_append]

/-- Checking a record puts its tree on the built ones, or refuses it as the recursion does. -/
theorem readPending_nested (v : Value) (rest : List Pending) (built : List (Node α)) :
    readPending (.check v :: rest) built = match nested v with
      | .error e => .error e
      | .ok n => readPending rest (n :: built) := by
  -- children are smaller records, so the reader treats the row of them as the recursion does
  induction hs : v.size using Nat.strongRecOn generalizing v rest built with
  | ind size ih =>
      cases hh : head v with
      | error e =>
          rw [nested_eq, readPending]
          split
          · rename_i h
            cases hh.symm.trans h
            rw [hh]
          · rename_i h
            cases hh.symm.trans h
      | ok hc =>
          obtain ⟨h, children⟩ := hc
          rw [readPending_check hh, readPending_checks fun c hc rest built =>
            ih c.size (hs ▸ size_lt_of_head hh hc) c rest built rfl, nested_eq]
          cases hnodes : (children.mapM nested : Except NodeError (List (Node α))) with
          | error e => simp only [hh, hnodes]
          | ok nodes =>
              obtain ⟨n, hn, hassemble⟩ :=
                h.exists_node ((length_mapM_nested hnodes).trans (length_children hh)) built
              simp only [readPending_build, hassemble, hh, hnodes, hn]

theorem ofValue_nested (v : Value) : (ofValue v : Except NodeError (Node α)) = nested v := by
  rw [ofValue, readPending_nested]
  cases (nested v : Except NodeError (Node α)) with
  | error e => rfl
  | ok n => simp only [readPending]

/-- What a record holds that is read as a node, and as what its children are read. -/
inductive NestedIn (fs : List (Value × Value)) : Node α → Prop
  | literal {n} : Value.field? "kind" fs = some (.text Kind.literal.name) →
      Value.field? "value" fs = some (.number n) → NestedIn fs (.literal n)
  | binary {s l r vl vr} : Value.field? "kind" fs = some (.text Kind.binary.name) →
      Value.field? "op" fs = some (.text s) → Value.field? "left" fs = some vl → Value.field? "right" fs = some vr →
      nested vl = .ok l → nested vr = .ok r → NestedIn fs (.binary s l r)
  | print {e ve} : Value.field? "kind" fs = some (.text Kind.print.name) → Value.field? "expr" fs = some ve →
      nested ve = .ok e → NestedIn fs (.print e)
  | block {ss vs} : Value.field? "kind" fs = some (.text Kind.block.name) →
      Value.field? "stmts" fs = some (.list vs) → vs.mapM nested = .ok ss → NestedIn fs (.block ss)

theorem nestedIn {v : Value} {n : Node α} (h : nested v = .ok n) : ∃ fs, v = .record fs ∧ NestedIn fs n := by
  rw [nested_eq] at h
  split at h
  · cases h
  · rename_i hh
    obtain ⟨fs, rfl, hfs⟩ := headed hh
    refine ⟨fs, rfl, ?_⟩
    split at h
    · cases h
    · rename_i nodes hnodes
      split at h <;> cases h
      rename_i hn
      cases hfs with
      | literal hkind hvalue =>
          cases hnodes
          cases hn
          exact .literal hkind hvalue
      | binary hkind hop hleft hright =>
          obtain ⟨l, _, hl, hrest, rfl⟩ := mapM_nested_ok hnodes
          obtain ⟨r, _, hr, ⟨⟩, rfl⟩ := mapM_nested_ok hrest
          cases hn
          exact .binary hkind hop hleft hright hl hr
      | print hkind hexpr =>
          obtain ⟨e, _, he, ⟨⟩, rfl⟩ := mapM_nested_ok hnodes
          cases hn
          exact .print hkind hexpr he
      | block hkind hstmts =>
          rw [Head.node?] at hn
          split at hn <;> cases hn
          exact .block hkind hstmts hnodes

theorem need_eq (k : Kind) (name : Text) (fs : List (Value × Value)) :
    need k name fs = match Value.field? name fs with
      | some v => .ok v
      | none => .error (.malformed (.missing k name)) := rfl

theorem head_of_headed {fs : List (Value × Value)} {h : Head} {children : List Value} (hfs : Headed fs h children) :
    head (.record fs) = .ok (h, children) := by
  have hkind (k : Kind) : Kind.ofValue? (.text k.name) = some k := by cases k <;> decide
  cases hfs with
  | literal hk hvalue => simp [head, hk, hkind, headOfKind, need_eq, hvalue]
  | binary hk hop hleft hright => simp [head, hk, hkind, headOfKind, need_eq, hop, hleft, hright]
  | print hk hexpr => simp [head, hk, hkind, headOfKind, need_eq, hexpr, Except.map]
  | block hk hstmts => simp [head, hk, hkind, headOfKind, need_eq, hstmts]

theorem nested_ok_iff {v : Value} {n : Node α} : nested v = .ok n ↔ ∃ fs, v = .record fs ∧ NestedIn fs n := by
  refine ⟨nestedIn, ?_⟩
  rintro ⟨fs, rfl, hfs⟩
  cases hfs with
  | literal hk hvalue => rw [nested_eq, head_of_headed (.literal hk hvalue)]; rfl
  | binary hk hop hleft hright hl hr =>
      rw [nested_eq, head_of_headed (.binary hk hop hleft hright)]
      simp only [mapM_nested_cons, hl, hr]
      rfl
  | print hk hexpr he =>
      rw [nested_eq, head_of_headed (.print hk hexpr)]
      simp only [mapM_nested_cons, he]
      rfl
  | block hk hstmts hnodes =>
      simp [nested_eq (.record fs), head_of_headed (.block hk hstmts), hnodes, Head.node?, length_mapM_nested hnodes]

end Node

end Pausable
