import Mathlib.Data.List.Basic
import Pausable.Machine.Saved
import Pausable.Proofs.Json.Quoted
import Pausable.Proofs.Program.Written
import Pausable.Proofs.Result
import Pausable.Proofs.Value.Plain

/-!
The record of a machine is plain: its keys are names, and its other texts are names and the symbols of
its tree. So what holds of names and of the symbols holds of all its texts (`Machine.plain_toValue`), and both text
formats can hold it, if its integers are short.
-/
namespace Pausable

/-- A string holds no surrogates. -/
theorem Json.scalar_ofString (s : String) : Scalar s := by
  intro c hc
  obtain ⟨d, -, rfl⟩ := List.mem_map.1 hc
  have hd : d.toNat < 0xD800 ∨ 0xDFFF < d.toNat ∧ d.toNat < 0x110000 := d.valid
  rw [CodePoint.isSurrogate, Bool.and_eq_false_iff, decide_eq_false_iff_not, decide_eq_false_iff_not]
  simp only [CodePoint.ofChar]
  omega

namespace Value

/-- A plain value whose texts hold no surrogates, with any numbers. -/
abbrev Scalar (v : Value) : Prop := v.Plain (fun _ => True) Json.Scalar

theorem plain_ofNumber? {q : Text → Prop} (n : Option Number) : (ofNumber? n).Plain (fun _ => True) q := by
  cases n <;> trivial

/-- A record of fields with different names. -/
theorem plain_record {q : Text → Prop} (hq : ∀ t, Json.Scalar t → q t) (fs : List (String × Value))
    (hk : (fs.map fun f => (f.1 : Text)).Nodup) (hv : (fs.map (·.2)).Forall (Plain (fun _ => True) q)) :
    (record (fs.map fun f => named f.1 f.2)).Plain (fun _ => True) q := by
  constructor
  · have hkeys : (fs.map fun f => named f.1 f.2).map (·.1) = (fs.map fun f => (f.1 : Text)).map text := by
      rw [List.map_map, List.map_map]
      rfl
    rw [hkeys]
    exact List.Pairwise.map text (fun _ _ hne heq => hne (text.inj heq)) hk
  · clear hk
    induction fs with
    | nil => trivial
    | cons f fs ih =>
        obtain ⟨hf, hfs⟩ := (List.forall_cons ..).1 hv
        exact ⟨⟨f.1, rfl, hq _ (Json.scalar_ofString f.1)⟩, hf, ih hfs⟩

end Value

namespace Node

variable {α : Type} {q : Text → Prop}

mutual

/-- The symbols of the operations of a tree. -/
def symbols : Node α → List Text
  | literal _ | foreign _ => []
  | binary s l r => s :: (l.symbols ++ r.symbols)
  | print e => e.symbols
  | block ss => symbolsAll ss

/-- The symbols of a row of trees. -/
def symbolsAll : List (Node α) → List Text
  | [] => []
  | s :: ss => s.symbols ++ symbolsAll ss

end

theorem scalar_name (k : Kind) : Json.Scalar k.name := by
  cases k <;> exact Json.scalar_ofString _

mutual

/-- The record of a tree is plain. -/
theorem plain_toValue [Strange α] (hq : ∀ t, Json.Scalar t → q t) : (n : Node α) → (∀ t ∈ n.symbols, q t) →
    {v : Value} → n.toValue = .ok v → v.Plain (fun _ => True) q
  | literal n, _, v, h => by
      cases h
      exact Value.plain_record hq [("kind", .text Kind.literal.name), ("value", .number n)]
        (show [("kind" : Text), "value"].Nodup by decide) ⟨hq _ (scalar_name _), trivial⟩
  | binary s l r, hs, v, h => by
      rw [symbols, List.forall_mem_cons, List.forall_mem_append] at hs
      obtain ⟨hsymbol, hl, hr⟩ := hs
      obtain ⟨vl, vr, hvl, hvr, rfl⟩ := toValue_binary_ok h
      exact Value.plain_record hq
        [("kind", .text Kind.binary.name), ("op", .text s), ("left", vl), ("right", vr)]
        (show [("kind" : Text), "op", "left", "right"].Nodup by decide)
        ⟨hq _ (scalar_name _), hsymbol, plain_toValue hq l hl hvl, plain_toValue hq r hr hvr⟩
  | print e, hs, v, h => by
      rw [symbols] at hs
      obtain ⟨ve, he, rfl⟩ := toValue_print_ok h
      exact Value.plain_record hq [("kind", .text Kind.print.name), ("expr", ve)]
        (show [("kind" : Text), "expr"].Nodup by decide) ⟨hq _ (scalar_name _), plain_toValue hq e hs he⟩
  | block ss, hs, v, h => by
      rw [symbols] at hs
      obtain ⟨vs, hvs, rfl⟩ := toValue_block_ok h
      exact Value.plain_record hq [("kind", .text Kind.block.name), ("stmts", .list vs)]
        (show [("kind" : Text), "stmts"].Nodup by decide) ⟨hq _ (scalar_name _), plain_toValues hq ss hs hvs⟩
  | foreign a, _, v, h => by cases h

theorem plain_toValues [Strange α] (hq : ∀ t, Json.Scalar t → q t) : (ns : List (Node α)) →
    (∀ t ∈ symbolsAll ns, q t) → {vs : List Value} → toValues ns = .ok vs → Value.PlainItems (fun _ => True) q vs
  | [], _, vs, h => by cases h; trivial
  | n :: ns, hs, vs, h => by
      rw [symbolsAll, List.forall_mem_append] at hs
      obtain ⟨w, ws, hw, hws, rfl⟩ := toValues_cons_ok h
      exact ⟨plain_toValue hq n hs.1 hw, plain_toValues hq ns hs.2 hws⟩

end

theorem Turn.plain_toValue (hq : ∀ t, Json.Scalar t → q t) (t : Turn) : t.toValue.Plain (fun _ => True) q := by
  have hname (s : String) : (Value.record [Value.named "ref" (.text s)]).Plain (fun _ => True) q :=
    Value.plain_record hq [("ref", .text s)] (show [("ref" : Text)].Nodup by decide) (hq _ (Json.scalar_ofString s))
  cases t with
  | left => exact hname "left"
  | right => exact hname "right"
  | operand => exact hname "expr"
  | statement i =>
      exact Value.plain_record hq [("ref", .text "stmts"), ("index", .int i)]
        (show [("ref" : Text), "index"].Nodup by decide) ⟨hq _ (Json.scalar_ofString "stmts"), trivial⟩

end Node

section

variable {α : Type} {q : Text → Prop}

theorem Activity.plain_context (hq : ∀ t, Json.Scalar t → q t) (a : Activity α) :
    a.context.Plain (fun _ => True) q := by
  cases a with
  | literal | foreign => exact Value.plain_record hq [] .nil trivial
  | binary s l r stage =>
      exact Value.plain_record hq [("state", .int stage.number), ("left", .ofNumber? stage.left?)]
        (show [("state" : Text), "left"].Nodup by decide) ⟨trivial, Value.plain_ofNumber? _⟩
  | print e begun =>
      exact Value.plain_record hq [("exprDone", .bool begun)] (show [("exprDone" : Text)].Nodup by decide) trivial
  | block begun waiting =>
      exact Value.plain_record hq [("index", .int begun.length)] (show [("index" : Text)].Nodup by decide) trivial

theorem Frame.plain_toRecord (hq : ∀ t, Json.Scalar t → q t) (f : Frame α) {v : Value}
    (hv : v.Plain (fun _ => True) q) : (f.toRecord v).Plain (fun _ => True) q := by
  obtain ⟨place, a, slot⟩ := f
  cases slot with
  | none =>
      exact Value.plain_record hq [("node", v), ("ctx", a.context)]
        (show [("node" : Text), "ctx"].Nodup by decide) ⟨hv, a.plain_context hq⟩
  | some x =>
      exact Value.plain_record hq [("node", v), ("ctx", a.context), ("value", .number x)]
        (show [("node" : Text), "ctx", "value"].Nodup by decide) ⟨hv, a.plain_context hq, trivial⟩

end

namespace Machine

variable {α : Type} {q : Text → Prop}

theorem plain_recordsAbove (hq : ∀ t, Json.Scalar t → q t) (fs : List (Frame α)) (below : Frame α) (position : Nat)
    {vs : List Value} (h : recordsAbove below position fs = .ok vs) : Value.PlainItems (fun _ => True) q vs := by
  induction fs generalizing below position vs with
  | nil => cases h; trivial
  | cons f fs ih =>
      rw [recordsAbove] at h
      split at h
      · cases h
      · rename_i v hv
        obtain ⟨ws, hrest, rfl⟩ := ok_of_map h
        refine ⟨?_, ih f (position + 1) hrest⟩
        rw [Frame.toChildRecord] at hv
        split at hv
        · split at hv
          · cases hv
            exact f.plain_toRecord hq (Node.Turn.plain_toValue hq _)
          · cases hv
        · cases hv

theorem plain_records [Strange α] (hq : ∀ t, Json.Scalar t → q t) {fs : List (Frame α)} {n : Node α}
    (hr : fs.head?.map Frame.node = some n) (hn : ∀ t ∈ n.symbols, q t) {vs : List Value} (h : records fs = .ok vs) :
    Value.PlainItems (fun _ => True) q vs := by
  cases fs with
  | nil => cases hr
  | cons root above =>
      cases hr
      rw [records] at h
      split at h
      · cases h
      · rename_i v hv
        obtain ⟨ws, hrest, rfl⟩ := ok_of_map h
        exact ⟨root.plain_toRecord hq (Node.plain_toValue hq _ hn hv), plain_recordsAbove hq above root 1 hrest⟩

theorem toValue_ok [Strange α] {m : Machine α} {v : Value} (h : m.toValue = .ok v) :
    ∃ vs, records m.stack.reverse = .ok vs ∧
      v = .record [(.text Wire.stackField, .list vs), Value.named "halted" (.bool m.halted)] := by
  rw [toValue] at h
  obtain ⟨vs, hvs, rfl⟩ := ok_of_map h
  exact ⟨vs, hvs, rfl⟩

theorem toText_ok [Strange α] {m : Machine α} {t : Text} (h : m.toText = .ok t) :
    ∃ v, m.toValue = .ok v ∧ Wire.write v = .ok t := by
  rw [toText] at h
  split at h
  · cases h
  · rename_i v hv
    cases hw : Wire.write v with
    | error e => rw [hw] at h; cases h
    | ok u => rw [hw] at h; cases h; exact ⟨v, hv, hw⟩

/-- The record of a machine is plain. What holds of the symbols of its tree, as of all names, holds of its texts. -/
theorem plain_toValue [Strange α] (hq : ∀ t, Json.Scalar t → q t) {m : Machine α} {n : Node α}
    (hr : m.root? = some n) (hn : ∀ t ∈ n.symbols, q t) {v : Value} (h : m.toValue = .ok v) :
    v.Plain (fun _ => True) q := by
  have hroot : m.stack.reverse.head?.map Frame.node = some n := by
    rw [List.head?_reverse]
    exact hr
  obtain ⟨vs, hrecords, rfl⟩ := toValue_ok h
  exact Value.plain_record hq [("stateStack", .list vs), ("halted", .bool m.halted)]
    (show [("stateStack" : Text), "halted"].Nodup by decide) ⟨plain_records hq hroot hn hrecords, trivial⟩

theorem scalar_toValue [Strange α] {m : Machine α} {n : Node α} (hr : m.root? = some n)
    (hn : ∀ t ∈ n.symbols, Json.Scalar t) {v : Value} (h : m.toValue = .ok v) : v.Scalar :=
  plain_toValue (fun _ => id) hr hn h

end Machine

end Pausable
