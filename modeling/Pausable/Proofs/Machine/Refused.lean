import Pausable.Machine.Restored
import Pausable.Proofs.Result
import Pausable.Proofs.Value.Shown

/-!
What a refusal shows. A record that gives no machine is refused in words, and some of these refusals show the value
that is wrong, its exhibit. Where an integer in the exhibit has too long a numeral the words cannot be made, and
reading ends with that instead (`Machine.told_ofValue`).
-/
namespace Pausable

variable {α β γ : Type}

/-! ## Exhibits -/

namespace Node

/-- The kind of a record, if it is none of the four. -/
def strangeKind? : Value → Option Value
  | .record fs => (Value.field? "kind" fs).filter fun k => (Kind.ofValue? k).isNone
  | _ => none

/-- The kind that the work on pending items stops at. -/
def exhibit? (pending : List Pending) : Option Value :=
  match pending with
  | [] => none
  | .build _ :: rest => exhibit? rest
  | .check v :: rest =>
    match _hh : head v with
    | .error _ => strangeKind? v
    | .ok (h, children) => exhibit? (children.map .check ++ .build h :: rest)
termination_by Pending.totalWeight pending
decreasing_by
  · simp [Pending.weight]
  · have := Pending.totalWeight_children _hh
    simp only [Pending.totalWeight_append, Pending.totalWeight_cons]
    simp only [Pending.weight] at this ⊢
    omega

end Node

namespace Restore

/-- The part of a context that does not tell how far its node got. -/
def contextExhibit? (fs : List (Value × Value)) : Node α → Option Value
  | .literal _ | .foreign _ => none
  | .binary .. => (Value.field? "state" fs).filter fun v => (stageNumber? v).isNone
  | .print _ => (Value.field? "exprDone" fs).filter fun
    | .bool _ => false
    | _ => true
  | .block ss => (Value.field? "index" fs).filter fun v => (index? ss.length v).isNone

/-- What names the node of a frame and names no child in progress, or the kind that its tree is refused for. -/
def nodeExhibit? (below : Option (Frame α)) (v : Value) : Option Value :=
  match below with
  | none => Node.exhibit? [.check v]
  | some f =>
    match f.activity.child? with
    | none => none
    | some (t, _) => if Value.same v t.toValue then none else some v

def frameExhibit? (below : Option (Frame α)) (position : Nat) (v : Value) : Option Value :=
  match v with
  | .record fs =>
    match Value.field? "node" fs, Value.field? "ctx" fs with
    | some nodeValue, some context =>
      match node below position nodeValue with
      | .error _ => nodeExhibit? below nodeValue
      | .ok (_, n) =>
        match context with
        | .record cs => contextExhibit? cs n
        | _ => none
    | _, _ => none
  | _ => none

/-- The exhibit of the first frame that is not rebuilt. -/
def framesExhibit? (built : List (Frame α)) (position : Nat) : List Value → Option Value
  | [] => none
  | v :: vs =>
    match frame built.head? position v with
    | .error _ => frameExhibit? built.head? position v
    | .ok f => framesExhibit? (f :: built) (position + 1) vs

end Restore

/-- The value that the refusal of a record shows; none if the record gives a machine or its refusal shows no value. -/
def Machine.exhibit? (α : Type) (v : Value) : Option Value :=
  match v with
  | .record fs =>
    match Value.field? Wire.stackField fs with
    | some (.list []) => none
    | some (.list vs) =>
      match (Value.field? "halted" fs).getD .null with
      | .bool halted =>
        if halted ∧ 1 < vs.length then none else Restore.framesExhibit? ([] : List (Frame α)) 0 vs
      | w => some w
    | _ => none
  | _ => none

/-! ## Refusals -/

theorem Value.short_or (v : Value) : (∃ t, v.shown? = some t) ∧ v.Short ∨ v.shown? = none ∧ ¬ v.Short := by
  have hv := v.isSome_shown?
  cases h : v.shown? with
  | none => exact .inr ⟨rfl, fun hshort => by rw [h] at hv; cases hv.2 hshort⟩
  | some t => exact .inl ⟨⟨t, rfl⟩, hv.1 (by rw [h]; rfl)⟩

namespace Node

/-- A tree is refused in words, or with an exhibit that cannot be shown. -/
inductive Told : Option Value → NodeError → Prop where
  | words {x : Option Value} {e : NodeError} : e ≠ .numeralTooLong → (∀ u ∈ x, u.Short) → Told x e
  | tooLong {u : Value} : ¬ u.Short → Told (some u) .numeralTooLong

theorem Told.malformed (m : Malformed) : Told none (.malformed m) := .words nofun nofun

theorem told_ofKind (v : Value) : Told (some v) (.ofKind v) := by
  rw [NodeError.ofKind]
  rcases v.short_or with ⟨⟨t, ht⟩, hshort⟩ | ⟨ht, hlong⟩
  · rw [ht]
    refine .words nofun ?_
    rintro _ ⟨⟩
    exact hshort
  · rw [ht]
    exact .tooLong hlong

theorem need_error {k : Kind} {name : Text} {fs : List (Value × Value)} {e : NodeError}
    (h : need k name fs = .error e) : e = .malformed (.missing k name) := by
  rw [need] at h
  split at h
  · cases h
  · cases h
    rfl

theorem headOfKind_error {fs : List (Value × Value)} {k : Kind} {e : NodeError} (h : headOfKind fs k = .error e) :
    ∃ m, e = .malformed m := by
  have of_need {k : Kind} {name : Text} {e' : NodeError} (he : need k name fs = .error e') : ∃ m, e' = .malformed m :=
    ⟨_, need_error he⟩
  cases k with
  | literal =>
      simp only [headOfKind] at h
      split at h
      · rename_i he
        cases h
        exact of_need he
      · cases h
      · cases h
        exact ⟨_, rfl⟩
  | binary =>
      simp only [headOfKind] at h
      split at h
      · rename_i he
        cases h
        exact of_need he
      · split at h
        · rename_i he
          cases h
          exact of_need he
        · split at h
          · rename_i he
            cases h
            exact of_need he
          · cases h
      · cases h
        exact ⟨_, rfl⟩
  | print => exact of_need (error_of_map h)
  | block =>
      simp only [headOfKind] at h
      split at h
      · rename_i he
        cases h
        exact of_need he
      · cases h
      · cases h
        exact ⟨_, rfl⟩

theorem told_head {v : Value} {e : NodeError} (h : head v = .error e) : Told (strangeKind? v) e := by
  unfold head at h
  split at h
  · rename_i fs
    rw [strangeKind?]
    split at h
    · rename_i hkind
      cases h
      rw [hkind]
      exact .malformed _
    · rename_i kind hkind
      rw [hkind]
      split at h
      · rename_i hunknown
        cases h
        rw [Option.filter_some, hunknown]
        exact told_ofKind kind
      · rename_i k hknown
        obtain ⟨m, rfl⟩ := headOfKind_error h
        rw [Option.filter_some, hknown]
        exact .malformed m
  · rename_i hrecord
    cases h
    rw [strangeKind?]
    · exact .malformed _
    · exact hrecord

theorem told_readPending {pending : List Pending} {built : List (Node α)} {e : NodeError}
    (h : readPending pending built = .error e) : Told (exhibit? pending) e := by
  fun_induction readPending pending built with
  | case1 => cases h
  | case2 built hd rest ih =>
      rw [exhibit?]
      exact ih h
  | case3 built v rest e' hh =>
      cases h
      rw [exhibit?]
      split
      · exact told_head hh
      · rename_i hok
        cases hok.symm.trans hh
  | case4 built v rest hd children hh ih =>
      rw [exhibit?]
      split
      · rename_i herror
        cases herror.symm.trans hh
      · rename_i hok
        cases hok.symm.trans hh
        exact ih h

theorem exhibit?_of_ok {pending : List Pending} {built ns : List (Node α)}
    (h : readPending pending built = .ok ns) : exhibit? pending = none := by
  fun_induction readPending pending built with
  | case1 => rw [exhibit?]
  | case2 built hd rest ih =>
      rw [exhibit?]
      exact ih h
  | case3 => cases h
  | case4 built v rest hd children hh ih =>
      rw [exhibit?]
      split
      · rename_i herror
        cases herror.symm.trans hh
      · rename_i hok
        cases hok.symm.trans hh
        exact ih h

end Node

namespace Restore

/-- Reading succeeds, or refuses in words, or its exhibit cannot be shown. -/
inductive Told {β : Type} : Option Value → Except RestoreError β → Prop where
  | ok (b : β) : Told none (.ok b)
  | corrupt {x : Option Value} (c : Corrupt) : (∀ u ∈ x, u.Short) → Told x (.error (.corrupt c))
  | tooLong {u : Value} : ¬ u.Short → Told (some u) (.error .numeralTooLong)

namespace Told

variable {x : Option Value} {r : Except RestoreError β}

theorem words (c : Corrupt) : Told none (.error (.corrupt c) : Except RestoreError β) := .corrupt c nofun

theorem fail {e : RestoreError} (h : Told x r) (hr : r = .error e) : Told x (.error e : Except RestoreError γ) := by
  cases h with
  | ok => cases hr
  | corrupt c hx =>
      cases hr
      exact .corrupt c hx
  | tooLong hu =>
      cases hr
      exact .tooLong hu

theorem of_ok {b : β} (h : Told x r) (hr : r = .ok b) : x = none := by
  cases h with
  | ok => rfl
  | corrupt | tooLong => cases hr

theorem map (f : β → γ) (h : Told x r) : Told x (r.map f) := by
  cases h with
  | ok b => exact .ok (f b)
  | corrupt c hx => exact .corrupt c hx
  | tooLong hu => exact .tooLong hu

end Told

theorem told_refuse (v : Value) (c : Text → Corrupt) : Told (some v) (refuse v c : Except RestoreError β) := by
  rw [refuse]
  rcases v.short_or with ⟨⟨t, ht⟩, hshort⟩ | ⟨ht, hlong⟩
  · rw [ht]
    refine .corrupt (c t) ?_
    rintro _ ⟨⟩
    exact hshort
  · rw [ht]
    exact .tooLong hlong

theorem told_number? (v : Option Value) (c : Text → Corrupt) : Told none (number? v c) := by
  unfold number?
  split
  · exact .ok _
  · exact .ok _
  · exact .ok _
  · exact .words _

theorem told_stage (fs : List (Value × Value)) :
    Told ((Value.field? "state" fs).filter fun v => (stageNumber? v).isNone) (stage fs) := by
  rw [stage, need]
  cases Value.field? "state" fs with
  | none => exact .words _
  | some v =>
      rw [Option.filter_some]
      cases hstage : stageNumber? v with
      | none =>
          simp only [hstage, Option.isNone_none, if_true]
          exact told_refuse v _
      | some n =>
          simp only [hstage, Option.isNone_some, Bool.false_eq_true, if_false]
          cases hleft : number? (Value.field? "left" fs) .leftType with
          | error e => exact (told_number? ..).fail hleft
          | ok left =>
              simp only
              split
              · exact .ok _
              · exact .ok _
              · exact .ok _
              · exact .words _

theorem told_activity (fs : List (Value × Value)) (n : Node α) : Told (contextExhibit? fs n) (activity fs n) := by
  cases n with
  | literal | foreign => exact .ok _
  | binary s l r => exact (told_stage fs).map _
  | print e =>
      rw [contextExhibit?, activity, need]
      cases Value.field? "exprDone" fs with
      | none => exact .words _
      | some v =>
          cases v with
          | bool b => exact .ok _
          | null | number | text | list | tuple | record | alien => exact told_refuse _ _
  | block ss =>
      rw [contextExhibit?, activity, need]
      cases Value.field? "index" fs with
      | none => exact .words _
      | some v =>
          simp only [Option.filter_some]
          cases index? ss.length v with
          | none => exact told_refuse v _
          | some i => exact .ok _

theorem told_node (below : Option (Frame α)) (position : Nat) (v : Value) :
    Told (nodeExhibit? below v) (node below position v) := by
  cases below with
  | none =>
      rw [nodeExhibit?, node, Node.ofValue]
      cases hread : (Node.readPending [.check v] [] : Except NodeError (List (Node α))) with
      | error e =>
          have htold := Node.told_readPending hread
          generalize Node.exhibit? [.check v] = x at htold
          cases htold with
          | words he hx =>
              cases e with
              | numeralTooLong => exact (he rfl).elim
              | unknownKind | malformed => exact .corrupt _ hx
          | tooLong hu => exact .tooLong hu
      | ok ns =>
          rw [Node.exhibit?_of_ok hread]
          cases ns with
          | nil => exact .words _
          | cons n ns => exact .ok _
  | some f =>
      rw [nodeExhibit?, node]
      cases f.activity.child? with
      | none => exact .words _
      | some c =>
          simp only
          split
          · exact .ok _
          · exact told_refuse v _

theorem told_frame (below : Option (Frame α)) (position : Nat) (v : Value) :
    Told (frameExhibit? below position v) (frame below position v) := by
  cases v with
  | record fs =>
      rw [frameExhibit?, frame]
      cases Value.field? "node" fs with
      | none => exact .words _
      | some nodeValue =>
          cases Value.field? "ctx" fs with
          | none => exact .words _
          | some context =>
              have hnode := told_node below position nodeValue
              simp only
              cases hn : node below position nodeValue with
              | error e => exact hnode.fail hn
              | ok r =>
                  cases context with
                  | record cs =>
                      have hactivity := told_activity cs r.2
                      simp only
                      cases ha : activity cs r.2 with
                      | error e => exact hactivity.fail ha
                      | ok a =>
                          simp only
                          rw [hactivity.of_ok ha]
                          exact (told_number? ..).map _
                  | null | bool | number | text | list | tuple | alien => exact .words _
  | null | bool | number | text | list | tuple | alien => exact .words _

theorem told_frames (built : List (Frame α)) (position : Nat) (vs : List Value) :
    Told (framesExhibit? built position vs) (frames built position vs) := by
  induction vs generalizing built position with
  | nil => exact .ok _
  | cons v vs ih =>
      rw [framesExhibit?, frames]
      cases hf : frame built.head? position v with
      | error e => exact (told_frame built.head? position v).fail hf
      | ok f => exact ih (f :: built) (position + 1)

end Restore

/-- What comes of a record, told by its exhibit. -/
theorem Machine.told_ofValue (v : Value) :
    Restore.Told (exhibit? α v) (ofValue v : Except RestoreError (Machine α)) := by
  cases v with
  | record fs =>
      rw [exhibit?, ofValue]
      cases Value.field? Wire.stackField fs with
      | none => exact .words _
      | some stack =>
          cases stack with
          | list vs =>
              cases vs with
              | nil => exact .words _
              | cons v vs =>
                  simp only
                  cases (Value.field? "halted" fs).getD .null with
                  | bool halted =>
                      simp only
                      split
                      · exact .words _
                      · exact (Restore.told_frames ..).map _
                  | null | number | text | list | tuple | record | alien => exact Restore.told_refuse _ _
          | null | bool | number | text | tuple | record | alien => exact .words _
  | null | bool | number | text | list | tuple | alien => exact .words _

/-! ## Where exhibits come from -/

namespace Node

theorem numbers_strangeKind? {v u : Value} (h : strangeKind? v = some u) : u.numbers ⊆ v.numbers := by
  cases v with
  | record fs => exact Value.numbers_field? (Option.filter_eq_some_iff.1 h).1
  | null | bool | number | text | list | tuple | alien => cases h

theorem numbers_headOfKind {fs : List (Value × Value)} {k : Kind} {h : Head} {vs : List Value}
    (hh : headOfKind fs k = .ok (h, vs)) : ∀ v ∈ vs, v.numbers ⊆ (Value.record fs).numbers := by
  cases k with
  | literal =>
      simp only [headOfKind] at hh
      split at hh <;> cases hh
      exact List.forall_mem_nil _
  | binary =>
      simp only [headOfKind] at hh
      split at hh
      · cases hh
      · split at hh
        · cases hh
        · rename_i l hl
          split at hh
          · cases hh
          · rename_i r hr
            cases hh
            exact List.forall_mem_cons.2 ⟨Value.numbers_field? (need_eq_ok hl),
              List.forall_mem_singleton.2 (Value.numbers_field? (need_eq_ok hr))⟩
      · cases hh
  | print =>
      obtain ⟨e, he, hpair⟩ := ok_of_map hh
      cases hpair
      exact List.forall_mem_singleton.2 (Value.numbers_field? (need_eq_ok he))
  | block =>
      simp only [headOfKind] at hh
      split at hh
      · cases hh
      · rename_i us hus
        cases hh
        exact fun v hv => List.Subset.trans (Value.numbers_item hv) (Value.numbers_field? (need_eq_ok hus))
      · cases hh

/-- The children of a record have only numbers of the record. -/
theorem numbers_head {v : Value} {h : Head} {vs : List Value} (hh : head v = .ok (h, vs)) :
    ∀ w ∈ vs, w.numbers ⊆ v.numbers := by
  unfold head at hh
  split at hh
  · split at hh
    · cases hh
    · split at hh
      · cases hh
      · exact numbers_headOfKind hh
  · cases hh

theorem numbers_exhibit? {pending : List Pending} {u : Value} (h : exhibit? pending = some u) :
    ∃ w, Pending.check w ∈ pending ∧ u.numbers ⊆ w.numbers := by
  fun_induction exhibit? pending with
  | case1 => cases h
  | case2 hd rest ih =>
      obtain ⟨w, hw, hu⟩ := ih h
      exact ⟨w, List.mem_cons_of_mem _ hw, hu⟩
  | case3 v rest => exact ⟨v, List.mem_cons_self .., numbers_strangeKind? h⟩
  | case4 v rest hd children hh ih =>
      obtain ⟨w, hw, hu⟩ := ih h
      -- a check for each child goes before the rest, and a build between them
      rcases List.mem_append.1 hw with hw | hw
      · obtain ⟨c, hc, ⟨⟩⟩ := List.mem_map.1 hw
        exact ⟨v, List.mem_cons_self .., List.Subset.trans hu (numbers_head hh w hc)⟩
      · rcases List.mem_cons.1 hw with hw | hw
        · cases hw
        · exact ⟨w, List.mem_cons_of_mem _ hw, hu⟩

end Node

namespace Restore

theorem numbers_contextExhibit? {fs : List (Value × Value)} {n : Node α} {u : Value}
    (h : contextExhibit? fs n = some u) : u.numbers ⊆ (Value.record fs).numbers := by
  cases n with
  | literal | foreign => cases h
  | binary | print | block => exact Value.numbers_field? (Option.filter_eq_some_iff.1 h).1

theorem numbers_nodeExhibit? {below : Option (Frame α)} {v u : Value} (h : nodeExhibit? below v = some u) :
    u.numbers ⊆ v.numbers := by
  cases below with
  | none =>
      obtain ⟨w, hw, hu⟩ := Node.numbers_exhibit? h
      cases List.mem_singleton.1 hw
      exact hu
  | some f =>
      rw [nodeExhibit?] at h
      split at h
      · cases h
      · split at h
        · cases h
        · cases h
          exact List.Subset.refl _

theorem numbers_frameExhibit? {below : Option (Frame α)} {position : Nat} {v u : Value}
    (h : frameExhibit? below position v = some u) : u.numbers ⊆ v.numbers := by
  unfold frameExhibit? at h
  split at h
  · split at h
    · rename_i hnode hcontext
      split at h
      · exact List.Subset.trans (numbers_nodeExhibit? h) (Value.numbers_field? hnode)
      · split at h
        · exact List.Subset.trans (numbers_contextExhibit? h) (Value.numbers_field? hcontext)
        · cases h
    · cases h
  · cases h

theorem numbers_framesExhibit? {built : List (Frame α)} {position : Nat} {vs : List Value} {u : Value}
    (h : framesExhibit? built position vs = some u) : u.numbers ⊆ (Value.list vs).numbers := by
  induction vs generalizing built position with
  | nil => cases h
  | cons v vs ih =>
      rw [framesExhibit?] at h
      split at h
      · exact List.Subset.trans (numbers_frameExhibit? h) (Value.numbers_item (List.mem_cons_self ..))
      · exact List.Subset.trans (ih h) (List.subset_append_right ..)

end Restore

/-- An exhibit shows only numbers of the record. -/
theorem Machine.numbers_exhibit? {v u : Value} (h : exhibit? α v = some u) : u.numbers ⊆ v.numbers := by
  unfold exhibit? at h
  split at h
  · rename_i fs
    split at h
    · cases h
    · rename_i vs hvs
      split at h
      · split at h
        · cases h
        · exact List.Subset.trans (Restore.numbers_framesExhibit? h) (Value.numbers_field? hvs)
      · cases h
        -- a flag that is missing is shown as null
        cases hf : Value.field? "halted" fs with
        | none => exact List.nil_subset _
        | some w => exact Value.numbers_field? hf
    · cases h
  · cases h

end Pausable
