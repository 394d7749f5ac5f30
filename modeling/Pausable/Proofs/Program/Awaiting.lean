import Pausable.Proofs.Program.Offender

/-!
The reader turn by turn. Whatever it has to do next, the built trees are those of the siblings to the left of the
record it stands at, and of the siblings to the left of each record around that one (`Node.Passes.awaits`).
-/
namespace Pausable.Node

variable {α : Type}

/-! ## Turns -/

/-- One turn of the reader, while anything is pending. -/
def turn? (pending : List Pending) (built : List (Node α)) :
    Option (Except NodeError (List Pending × List (Node α))) :=
  match pending with
  | [] => none
  | .build h :: rest => some (.ok (rest, h.assemble built))
  | .check v :: rest => some ((head v).map fun (h, children) => (children.map .check ++ .build h :: rest, built))

theorem readPending_turn (pending : List Pending) (built : List (Node α)) :
    readPending pending built = match turn? pending built with
      | none => .ok built
      | some (.error e) => .error e
      | some (.ok (pending, built)) => readPending pending built := by
  cases pending with
  | nil => rw [readPending]; rfl
  | cons p rest =>
      cases p with
      | build h => rw [readPending_build]; rfl
      | check v =>
          cases hh : head v with
          | error e =>
              rw [readPending_nested, nested_eq]
              simp only [turn?, hh, Except.map]
          | ok hc => rw [readPending_check hh]; simp only [turn?, hh, Except.map]

/-- The reader of a record comes by this list of pending items and these built trees. -/
inductive Passes (root : Value) : List Pending → List (Node α) → Prop
  | start : Passes root [.check root] []
  | turn {pending built pending' built'} : Passes root pending built →
      turn? pending built = some (.ok (pending', built')) → Passes root pending' built'

theorem Passes.readPending_eq {root : Value} {pending : List Pending} {built : List (Node α)}
    (h : Passes root pending built) : readPending [.check root] [] = readPending pending built := by
  induction h with
  | start => rfl
  | turn _ ht ih => rw [ih, readPending_turn, ht]

theorem Passes.finish {root : Value} {pending : List Pending} {built nodes : List (Node α)}
    (h : Passes root pending built) (hread : readPending pending built = .ok nodes) : Passes root [] nodes := by
  fun_induction readPending pending built with
  | case1 built => cases hread; exact h
  | case2 built hd rest ih => exact ih (h.turn rfl) hread
  | case3 => cases hread
  | case4 built v rest hd children hh ih => exact ih (h.turn (by simp only [turn?, hh, Except.map])) hread

/-! ## Finished siblings -/

/-- A record at or below the root, with all that is pending behind it and the trees built before it: for it and each
record around it, the siblings to the right and the parent are pending, and the siblings to the left are built. -/
inductive Within (root : Value) : Value → List Pending → List (Node α) → Prop
  | root : Within root root [] []
  | child {v rest built h before c after nodes} : Within root v rest built →
      head v = .ok (h, before ++ c :: after) → before.mapM nested = .ok nodes →
      Within root c (after.map .check ++ .build h :: rest) (nodes.reverse ++ built)

/-- The built trees are those of the finished siblings that wait for their parents. -/
inductive Awaits (root : Value) : List Pending → List (Node α) → Prop
  | check {v rest built} : Within root v rest built → Awaits root (.check v :: rest) built
  | build {v rest built h children nodes} : Within root v rest built → head v = .ok (h, children) →
      children.mapM nested = .ok nodes → Awaits root (.build h :: rest) (nodes.reverse ++ built)
  | done {n} : nested root = .ok n → Awaits root [] [n]

variable {root v : Value} {rest : List Pending} {built nodes : List (Node α)}

theorem mapM_nested_concat {vs : List Value} {ns : List (Node α)} {n : Node α} (hvs : vs.mapM nested = .ok ns)
    (hv : nested v = .ok n) : (vs ++ [v]).mapM nested = .ok (ns ++ [n]) := by
  induction vs generalizing ns with
  | nil =>
      cases hvs
      simp only [List.nil_append, mapM_nested_cons, hv]
      rfl
  | cons w ws ih =>
      obtain ⟨m, ms, hw, hws, rfl⟩ := mapM_nested_ok hvs
      simp only [List.cons_append, mapM_nested_cons, hw, ih hws]

/-- From the children that are read, the reader goes on to the next child, or else to their parent. -/
theorem Within.awaits_children {h : Head} {before after : List Value} (hv : Within root v rest built)
    (hh : head v = .ok (h, before ++ after)) (hnodes : before.mapM nested = .ok nodes) :
    Awaits root (after.map .check ++ .build h :: rest) (nodes.reverse ++ built) := by
  cases after with
  | nil => exact .build hv (by rwa [List.append_nil] at hh) hnodes
  | cons c after => exact .check (hv.child hh hnodes)

/-- From a record that is read, the reader goes on to the next sibling, or else to their parent. -/
theorem Within.awaits_next {n : Node α} (hv : Within root v rest built) (hn : nested v = .ok n) :
    Awaits root rest (n :: built) := by
  cases hv with
  | root => exact .done hn
  | child hparent hh hnodes =>
      have hawaits := hparent.awaits_children (by rwa [← List.append_cons]) (mapM_nested_concat hnodes hn)
      rwa [List.reverse_append, List.reverse_singleton, List.singleton_append, List.cons_append] at hawaits

theorem nested_of_children {h : Head} {children : List Value} (hh : head v = .ok (h, children))
    (hnodes : children.mapM nested = .ok nodes) (built : List (Node α)) :
    ∃ n, nested v = .ok n ∧ h.assemble (nodes.reverse ++ built) = n :: built := by
  obtain ⟨n, hn, hassemble⟩ := h.exists_node ((length_mapM_nested hnodes).trans (length_children hh)) built
  exact ⟨n, by simp only [nested_eq, hh, hnodes, hn], hassemble⟩

theorem Awaits.turn {pending pending' : List Pending} {built' : List (Node α)} (h : Awaits root pending built)
    (ht : turn? pending built = some (.ok (pending', built'))) : Awaits root pending' built' := by
  cases h with
  | check hv =>
      obtain ⟨⟨h, children⟩, hh, heq⟩ := ok_of_map (Option.some.inj ht)
      cases heq
      have hnone : ([] : List Value).mapM nested = (.ok [] : Except NodeError (List (Node α))) := rfl
      exact hv.awaits_children hh hnone
  | @build _ _ built _ _ _ hv hh hnodes =>
      obtain ⟨n, hn, hassemble⟩ := nested_of_children hh hnodes built
      simp only [turn?, hassemble] at ht
      cases ht
      exact hv.awaits_next hn
  | done => cases ht

theorem Passes.awaits {pending : List Pending} (h : Passes root pending built) : Awaits root pending built := by
  induction h with
  | start => exact .check .root
  | turn _ ht ih => exact ih.turn ht

/-- The reader ends with one tree, the tree of the record. -/
theorem passes_nil_iff : Passes root [] built ↔ ∃ n, built = [n] ∧ ofValue root = .ok n := by
  constructor
  · intro h
    cases h.awaits with
    | done hn => exact ⟨_, rfl, by rw [ofValue_nested, hn]⟩
  · rintro ⟨n, rfl, hn⟩
    have hread : readPending [.check root] [] = .ok [n] := by
      rw [readPending_nested, ← ofValue_nested, hn]
      simp only [readPending]
    exact Passes.start.finish hread

/-- The reader gives what the recursion over the record gives, and fails with what is wrong with the first node that
has something wrong. All along, it comes to what is left to read, and the built trees are those of the finished siblings that wait for their parents, and at
the end there is one. -/
theorem ofValue_reads (root : Value) :
    (ofValue root : Except NodeError (Node α)) = nested root ∧
    (∀ n : Node α, ofValue root = .ok n ↔ ∃ fs, root = .record fs ∧ NestedIn fs n) ∧
    (∀ e, (ofValue root : Except NodeError (Node α)) = .error e ↔ (preorder root).findSome? offence? = some e) ∧
    (∀ (pending : List Pending) (built : List (Node α)), Passes root pending built →
      readPending [.check root] [] = readPending pending built ∧ Awaits root pending built) ∧
    ∀ built : List (Node α), Passes root [] built ↔ ∃ n, built = [n] ∧ ofValue root = .ok n := by
  refine ⟨ofValue_nested root, fun n => ?_, fun e => ?_, fun _ _ h => ⟨h.readPending_eq, h.awaits⟩,
    fun _ => passes_nil_iff⟩
  · rw [ofValue_nested, nested_ok_iff]
  · rw [ofValue_nested, nested_error_iff]

def sevenAndEight : Value :=
  fields .block [Value.named "stmts" (.list
    [fields .literal [Value.named "value" (.number (.int 7))],
     fields .literal [Value.named "value" (.number (.int 8))]])]

/-- After the first of two statements, its tree waits for the second one. -/
theorem ofValue_reads_two :
    Passes sevenAndEight [.check (fields .literal [Value.named "value" (.number (.int 8))]), .build (.block 2)]
      [(literal (.int 7) : Node Empty)] ∧
    Awaits sevenAndEight [.check (fields .literal [Value.named "value" (.number (.int 8))]), .build (.block 2)]
      [(literal (.int 7) : Node Empty)] := by
  have hpasses : Passes sevenAndEight
      [.check (fields .literal [Value.named "value" (.number (.int 8))]), .build (.block 2)]
      [(literal (.int 7) : Node Empty)] := .turn (.turn (.turn .start rfl) rfl) rfl
  exact ⟨hpasses, ((ofValue_reads sevenAndEight).2.2.2.1 _ _ hpasses).2⟩

end Pausable.Node
