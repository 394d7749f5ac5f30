import Pausable.Proofs.Machine.Paused
import Pausable.Proofs.Value.Respelled

/-!
Copies of machines whose trees have any symbols. A record keeps the symbols; each of the text formats puts the pairs
of surrogates in them in one. Nothing else of a machine is changed by a copy but its counter (`Machine.Linked.copied`).
-/
namespace Pausable

variable {α : Type} {g : Text → Text}

namespace Value

section

variable {p : Number → Prop} {q : Text → Prop}

mutual

/-- Values keep texts that keep their spelling. -/
theorem respelled_plain (hg : ∀ t, q t → g t = t) : (v : Value) → v.Plain p q → v.respelled g = v
  | null, _ | bool _, _ | number _, _ => rfl
  | text t, hv => congrArg text (hg t hv)
  | list vs, hv => congrArg list (respelledItems_plain hg vs hv)
  | record fs, hv => congrArg record (respelledFields_plain hg fs hv.2)
  | tuple _, hv | alien _, hv => hv.elim

theorem respelledItems_plain (hg : ∀ t, q t → g t = t) :
    (vs : List Value) → PlainItems p q vs → respelledItems g vs = vs
  | [], _ => rfl
  | v :: vs, hvs => by rw [respelledItems, respelled_plain hg v hvs.1, respelledItems_plain hg vs hvs.2]

theorem respelledFields_plain (hg : ∀ t, q t → g t = t) :
    (fs : List (Value × Value)) → PlainFields p q fs → respelledFields g fs = fs
  | [], _ => rfl
  | (k, v) :: fs, hfs => by
      obtain ⟨⟨t, rfl, ht⟩, hv, hfs⟩ := hfs
      rw [respelledFields, respelled, hg t ht, respelled_plain hg v hv, respelledFields_plain hg fs hfs]

end

end

theorem respelledFields_named (hg : ∀ t, Json.Scalar t → g t = t) (s : String) (v : Value) (fs : List (Value × Value)) :
    respelledFields g (named s v :: fs) = named s (v.respelled g) :: respelledFields g fs := by
  rw [named, respelledFields, respelled, hg _ (Json.scalar_ofString s), named]

end Value

namespace Node

mutual

/-- The tree with its symbols spelled in another way. -/
def respelled (g : Text → Text) : Node α → Node α
  | literal n => literal n
  | binary s l r => binary (g s) (l.respelled g) (r.respelled g)
  | print e => print (e.respelled g)
  | block ss => block (respelledAll g ss)
  | foreign a => foreign a

def respelledAll (g : Text → Text) : List (Node α) → List (Node α)
  | [] => []
  | s :: ss => s.respelled g :: respelledAll g ss

end

theorem respelledAll_eq_map (g : Text → Text) (ns : List (Node α)) : respelledAll g ns = ns.map (respelled g) := by
  induction ns with
  | nil => rfl
  | cons n ns ih => rw [respelledAll, ih, List.map_cons]

mutual

theorem symbols_respelled (g : Text → Text) : (n : Node α) → (n.respelled g).symbols = n.symbols.map g
  | literal _ | foreign _ => rfl
  | binary s l r => by
      rw [respelled, symbols, symbols, symbols_respelled g l, symbols_respelled g r, List.map_cons, List.map_append]
  | print e => by rw [respelled, symbols, symbols, symbols_respelled g e]
  | block ss => by rw [respelled, symbols, symbols, symbolsAll_respelled g ss]

theorem symbolsAll_respelled (g : Text → Text) :
    (ns : List (Node α)) → symbolsAll (respelledAll g ns) = (symbolsAll ns).map g
  | [] => rfl
  | n :: ns => by
      rw [respelledAll, symbolsAll, symbolsAll, symbols_respelled g n, symbolsAll_respelled g ns, List.map_append]

end

mutual

theorem respelled_id : (n : Node α) → n.respelled id = n
  | literal _ | foreign _ => rfl
  | binary s l r => by rw [respelled, respelled_id l, respelled_id r, id]
  | print e => by rw [respelled, respelled_id e]
  | block ss => by rw [respelled, respelledAll_id ss]

theorem respelledAll_id : (ns : List (Node α)) → respelledAll id ns = ns
  | [] => rfl
  | n :: ns => by rw [respelledAll, respelled_id n, respelledAll_id ns]

end

mutual

theorem respelled_respelled (g g' : Text → Text) : (n : Node α) → (n.respelled g).respelled g' = n.respelled (g' ∘ g)
  | literal _ | foreign _ => rfl
  | binary s l r => by
      rw [respelled, respelled, respelled, respelled_respelled g g' l, respelled_respelled g g' r, Function.comp]
  | print e => by rw [respelled, respelled, respelled, respelled_respelled g g' e]
  | block ss => by rw [respelled, respelled, respelled, respelledAll_respelledAll g g' ss]

theorem respelledAll_respelledAll (g g' : Text → Text) :
    (ns : List (Node α)) → respelledAll g' (respelledAll g ns) = respelledAll (g' ∘ g) ns
  | [] => rfl
  | n :: ns => by
      rw [respelledAll, respelledAll, respelledAll, respelled_respelled g g' n, respelledAll_respelledAll g g' ns]

end

theorem respelled_fields (hg : ∀ t, Json.Scalar t → g t = t) (k : Kind) (rest : List (Value × Value)) :
    (fields k rest).respelled g = fields k (Value.respelledFields g rest) := by
  rw [fields, Value.respelled, Value.respelledFields_named hg, Value.respelled, hg _ (scalar_name k), fields]

section

variable [Strange α]

mutual

/-- The record of a tree in another spelling is that of the tree, in that spelling. -/
theorem toValue_respelled (hg : ∀ t, Json.Scalar t → g t = t) :
    (n : Node α) → (n.respelled g).toValue = n.toValue.map (Value.respelled g)
  | literal n => by
      rw [respelled, toValue, Except.map, respelled_fields hg, Value.respelledFields_named hg]
      rfl
  | binary s l r => by
      rw [respelled, toValue, toValue, toValue_respelled hg l, toValue_respelled hg r]
      cases l.toValue with
      | error e => rfl
      | ok vl =>
          cases r.toValue with
          | error e => rfl
          | ok vr =>
              simp only [Except.map]
              rw [respelled_fields hg, Value.respelledFields_named hg, Value.respelledFields_named hg,
                Value.respelledFields_named hg]
              rfl
  | print e => by
      rw [respelled, toValue, toValue, toValue_respelled hg e]
      cases e.toValue with
      | error e => rfl
      | ok ve =>
          simp only [Except.map]
          rw [respelled_fields hg, Value.respelledFields_named hg]
          rfl
  | block ss => by
      rw [respelled, toValue, toValue, toValues_respelled hg ss]
      cases toValues ss with
      | error e => rfl
      | ok vs =>
          simp only [Except.map]
          rw [respelled_fields hg, Value.respelledFields_named hg]
          rfl
  | foreign _ => rfl

theorem toValues_respelled (hg : ∀ t, Json.Scalar t → g t = t) :
    (ns : List (Node α)) → toValues (respelledAll g ns) = (toValues ns).map (Value.respelledItems g)
  | [] => rfl
  | n :: ns => by
      rw [respelledAll, toValues, toValues, toValues_respelled hg ns, toValue_respelled hg n]
      cases toValues ns with
      | error e => rfl
      | ok vs => cases n.toValue <;> rfl

end

end

end Node

namespace Activity

def respelled (g : Text → Text) : Activity α → Activity α
  | literal n => literal n
  | binary s l r stage => binary (g s) (l.respelled g) (r.respelled g) stage
  | print e begun => print (e.respelled g) begun
  | block begun waiting => block (begun.map (Node.respelled g)) (waiting.map (Node.respelled g))
  | foreign a => foreign a

variable (a : Activity α)

theorem node_respelled : (a.respelled g).node = a.node.respelled g := by
  cases a with
  | literal | binary | print | foreign => rfl
  | block begun waiting =>
      simp only [respelled, node, Node.respelled, Node.respelledAll_eq_map, List.map_append, List.map_reverse]

theorem child?_respelled : (a.respelled g).child? = a.child?.map fun c => (c.1, c.2.respelled g) := by
  cases a with
  | literal | foreign => rfl
  | binary s l r stage => cases stage <;> rfl
  | print e begun => cases begun <;> rfl
  | block begun waiting =>
      cases begun with
      | nil => rfl
      | cons c begun => simp [respelled, child?]

theorem context_respelled : (a.respelled g).context = a.context := by
  cases a with
  | literal | binary | print | foreign => rfl
  | block begun waiting => simp only [respelled, context, List.length_map]

theorem respelled_id : a.respelled id = a := by
  have hmap : (Node.respelled id : Node α → Node α) = id := funext Node.respelled_id
  cases a <;> simp [respelled, Node.respelled_id, hmap]

theorem respelled_respelled (g g' : Text → Text) : (a.respelled g).respelled g' = a.respelled (g' ∘ g) := by
  cases a <;> simp [respelled, Node.respelled_respelled]

end Activity

namespace Frame

def respelled (g : Text → Text) (f : Frame α) : Frame α := { f with activity := f.activity.respelled g }

variable {f below : Frame α}

theorem node_respelled : (f.respelled g).node = f.node.respelled g := f.activity.node_respelled

theorem IsChild.respelled (h : f.IsChild below) : (f.respelled g).IsChild (below.respelled g) := by
  obtain ⟨t, hc, hs, hp⟩ := h
  refine ⟨t, ?_, hs, hp⟩
  rw [Frame.respelled, Activity.child?_respelled, hc, Option.map_some, node_respelled]

theorem continues_respelled : (f.respelled g).continues (below.respelled g) = f.continues below := by
  simp only [continues, respelled, Activity.child?_respelled]
  cases below.activity.child? <;> rfl

theorem toRecord_respelled (hg : ∀ t, Json.Scalar t → g t = t) (v : Value) :
    (f.respelled g).toRecord (v.respelled g) = (f.toRecord v).respelled g := by
  obtain ⟨place, a, slot⟩ := f
  have hcontext : a.context.respelled g = a.context := Value.respelled_plain hg _ (a.plain_context fun _ => id)
  cases slot with
  | none =>
      simp only [respelled, toRecord, Activity.context_respelled]
      rw [Value.respelled, Value.respelledFields_named hg, Value.respelledFields_named hg, hcontext]
      rfl
  | some x =>
      simp only [respelled, toRecord, Activity.context_respelled]
      rw [Value.respelled, Value.respelledFields_named hg, Value.respelledFields_named hg,
        Value.respelledFields_named hg, hcontext]
      rfl

theorem toChildRecord_respelled (hg : ∀ t, Json.Scalar t → g t = t) (position : Nat) :
    (below.respelled g).toChildRecord position (f.respelled g) =
      (below.toChildRecord position f).map (Value.respelled g) := by
  have hchild : (below.respelled g).activity.child? = below.activity.child?.map fun c => (c.1, c.2.respelled g) :=
    below.activity.child?_respelled
  rw [toChildRecord, toChildRecord, continues_respelled, hchild]
  split
  · cases below.activity.child? with
    | none => rfl
    | some c =>
        have hturn : c.1.toValue.respelled g = c.1.toValue :=
          Value.respelled_plain hg _ (c.1.plain_toValue fun _ => id)
        have hrecord := toRecord_respelled (f := f) hg c.1.toValue
        rw [hturn] at hrecord
        exact congrArg Except.ok hrecord
  · rfl

end Frame

namespace Machine

/-- The machine with the symbols of its tree spelled in another way. -/
def respelled (g : Text → Text) (m : Machine α) : Machine α := { m with stack := m.stack.map (Frame.respelled g) }

variable {m : Machine α}

theorem respelled_id (m : Machine α) : m.respelled id = m := by
  have hmap : (Frame.respelled id : Frame α → Frame α) = id :=
    funext fun f => by rw [Frame.respelled, Activity.respelled_id, id]
  rw [respelled, hmap, List.map_id]

theorem respelled_respelled (g g' : Text → Text) (m : Machine α) :
    (m.respelled g).respelled g' = m.respelled (g' ∘ g) := by
  simp only [respelled, List.map_map, Machine.mk.injEq, and_self, and_true]
  exact List.map_congr_left fun f _ => by
    simp only [Function.comp, Frame.respelled, Activity.respelled_respelled]

theorem root?_respelled : (m.respelled g).root? = m.root?.map (Node.respelled g) := by
  simp only [root?, respelled, List.getLast?_map, Option.map_map]
  exact congrArg (Option.map · _) (funext fun f => Frame.node_respelled)

theorem Linked.respelled (h : m.Linked) : (m.respelled g).Linked := by
  obtain ⟨r, hr, hp⟩ := h.path.root
  refine ⟨⟨⟨r.respelled g, ?_, hp⟩, ?_⟩, ?_⟩
  · rw [Machine.respelled, List.getLast?_map, hr, Option.map_some]
  · exact List.isChain_map_of_isChain (Frame.respelled g) (fun _ _ hc => hc.respelled) h.path.chain
  · exact fun hh => (List.length_map ..).trans (h.alone hh)

theorem recordsAbove_respelled (hg : ∀ t, Json.Scalar t → g t = t) (fs : List (Frame α)) (below : Frame α)
    (position : Nat) : recordsAbove (below.respelled g) position (fs.map (Frame.respelled g)) =
      (recordsAbove below position fs).map (Value.respelledItems g) := by
  induction fs generalizing below position with
  | nil => rfl
  | cons f fs ih =>
      rw [List.map_cons, recordsAbove, recordsAbove, Frame.toChildRecord_respelled hg, ih]
      cases below.toChildRecord position f with
      | error e => rfl
      | ok v => cases recordsAbove f (position + 1) fs <;> rfl

theorem records_respelled [Strange α] (hg : ∀ t, Json.Scalar t → g t = t) (fs : List (Frame α)) :
    records (fs.map (Frame.respelled g)) = (records fs).map (Value.respelledItems g) := by
  cases fs with
  | nil => rfl
  | cons root above =>
      rw [List.map_cons, records, records, Frame.node_respelled, Node.toValue_respelled hg,
        recordsAbove_respelled hg above root 1]
      cases root.node.toValue with
      | error e => rfl
      | ok v =>
          cases recordsAbove root 1 above with
          | error e => rfl
          | ok vs => exact congrArg (fun w => Except.ok (w :: _)) (Frame.toRecord_respelled hg v)

/-- The record of a machine in another spelling is that of the machine, in that spelling. -/
theorem toValue_respelled [Strange α] (hg : ∀ t, Json.Scalar t → g t = t) :
    (m.respelled g).toValue = m.toValue.map (Value.respelled g) := by
  have hstack : g Wire.stackField = Wire.stackField := hg _ (Json.scalar_ofString "stateStack")
  rw [toValue, toValue, respelled, ← List.map_reverse, records_respelled hg]
  cases records m.stack.reverse with
  | error e => rfl
  | ok vs =>
      have hkey : (Value.text Wire.stackField).respelled g = .text Wire.stackField := congrArg Value.text hstack
      simp only [Except.map]
      rw [Value.respelled, Value.respelledFields, Value.respelledFields_named hg, hkey]
      rfl

end Machine

/-- How a copy spells the symbols. -/
def Route.spelling : Route → Text → Text
  | .data => id
  | .json | .text => Text.paired

namespace Machine

/-- A copy is the machine, with no steps counted and the symbols of its tree as the route spells them. -/
theorem Linked.copied {m m' : Machine Empty} (h : m.Linked) {r : Route} (hr : m.copy r = .ok m') :
    m' = (m.respelled r.spelling).recounted := by
  obtain ⟨v, hv, hback⟩ := h.reload
  -- the machine with the pairs in one is saved as well, and its record says what the texts are read as
  obtain ⟨w, hw, hpaired⟩ := (h.respelled (g := Text.paired)).reload
  obtain ⟨n, hn⟩ := h.root?
  have hplain : w.Plain (fun _ => True) Text.Unpaired := by
    refine plain_toValue (fun _ ht => ht.unpaired) (by rw [root?_respelled, hn]; rfl) ?_ hw
    rw [Node.symbols_respelled]
    exact List.forall_mem_map.2 fun t _ => Text.unpaired_paired t
  rw [toValue_respelled fun _ ht => ht.paired, hv] at hw
  cases hw
  cases r with
  | data =>
      rw [copy, hv] at hr
      have hm := Except.ok.inj ((congrArg (Except.mapError CopyError.restore) hback).symm.trans hr)
      rw [Route.spelling, respelled_id, ← hm, recounted]
  | json =>
      rw [copy, toJson, hv] at hr
      cases hwrite : Json.write .compact v with
      | error e => simp only [hwrite] at hr; cases hr
      | ok t =>
          have hread := Json.read_paired hplain hwrite
          have hof : ((ofJson t).mapError CopyError.restore : Except _ (Machine Empty)) = .ok m' := by
            simp only [hwrite] at hr
            exact hr
          rw [ofJson, hread] at hof
          exact (Except.ok.inj ((congrArg (Except.mapError CopyError.restore) hpaired).symm.trans hof)).symm
  | text =>
      rw [copy, toText, hv] at hr
      cases hwrite : Wire.write v with
      | error e => simp only [hwrite] at hr; cases hr
      | ok t =>
          have hof : ((ofText t).mapError CopyError.restore : Except _ (Machine Empty)) = .ok m' := by
            simp only [hwrite] at hr
            exact hr
          rw [ofText] at hof
          cases hread : Wire.read t with
          | error e => rw [hread] at hof; cases hof
          | ok u =>
              rw [hread, Wire.read_paired hplain hwrite hread] at hof
              exact (Except.ok.inj ((congrArg (Except.mapError CopyError.restore) hpaired).symm.trans hof)).symm

end Machine
end Pausable
