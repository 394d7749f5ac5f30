import Pausable.Proofs.Machine.Paused
import Pausable.Proofs.Machine.Work
import Pausable.Proofs.Store.Handle
import Pausable.Proofs.Wire.Printable

/-!
A run does not come by the same state twice. The steps left to do become fewer with each call that does not fail
(`Machine.due_after`), and the record of a machine tells how many they are: its contexts tell how far each frame is, and
with the tree at the root that is all there is to know (`Machine.Linked.due_of_progress`).
-/
namespace Pausable

variable {α σ ε : Type}

/-! ## Progress -/

namespace Value

/-- How far a frame is, as its context tells it; the left operand left out. -/
def contextProgress : Value → List (Option Value)
  | .record cs => [field? "state" cs, field? "exprDone" cs, field? "index" cs]
  | _ => []

def frameProgress : Value → List (Option Value)
  | .record fs => ((field? "ctx" fs).map contextProgress).getD []
  | _ => []

/-- Whether a machine has halted, and how far each of its frames is, as its record tells it. -/
def progress : Value → Option Value × List (List (Option Value))
  | .record fs => (field? "halted" fs, match field? Wire.stackField fs with
    | some (.list vs) => vs.map frameProgress
    | _ => [])
  | _ => (none, [])

end Value

def Frame.progress (f : Frame α) : List (Option Value) := f.activity.context.contextProgress

/-- The record is one of the frame, whatever stands in it for the node. -/
def Frame.Recorded (f : Frame α) (v : Value) : Prop := ∃ node, v = f.toRecord node

theorem Frame.progress_toRecord (f : Frame α) (node : Value) : (f.toRecord node).frameProgress = f.progress := by
  obtain ⟨place, a, slot⟩ := f
  cases slot <;> rfl

namespace Machine

theorem recordsAbove_frames {fs : List (Frame α)} {below : Frame α} {position : Nat} {vs : List Value}
    (h : recordsAbove below position fs = .ok vs) : List.Forall₂ Frame.Recorded fs vs := by
  induction fs generalizing below position vs with
  | nil => cases h; exact .nil
  | cons f fs ih =>
      rw [recordsAbove] at h
      split at h
      · cases h
      · rename_i v hv
        obtain ⟨ws, hws, rfl⟩ := ok_of_map h
        refine .cons ?_ (ih hws)
        rw [Frame.toChildRecord] at hv
        split at hv
        · split at hv <;> cases hv
          exact ⟨_, rfl⟩
        · cases hv

theorem records_frames [Strange α] {fs : List (Frame α)} {vs : List Value} (h : records fs = .ok vs) :
    List.Forall₂ Frame.Recorded fs vs := by
  cases fs with
  | nil => cases h; exact .nil
  | cons f fs =>
      rw [records] at h
      split at h
      · cases h
      · obtain ⟨ws, hws, rfl⟩ := ok_of_map h
        exact .cons ⟨_, rfl⟩ (recordsAbove_frames hws)

def progress (m : Machine α) : Option Value × List (List (Option Value)) :=
  (some (.bool m.halted), m.stack.reverse.map Frame.progress)

theorem map_frameProgress {fs : List (Frame α)} {vs : List Value} (h : List.Forall₂ Frame.Recorded fs vs) :
    vs.map Value.frameProgress = fs.map Frame.progress := by
  induction h with
  | nil => rfl
  | cons hv _ ih =>
      obtain ⟨w, rfl⟩ := hv
      rw [List.map_cons, List.map_cons, Frame.progress_toRecord, ih]

theorem progress_toValue [Strange α] {m : Machine α} {v : Value} (h : m.toValue = .ok v) : v.progress = m.progress := by
  obtain ⟨vs, hvs, rfl⟩ := toValue_ok h
  exact congrArg (Prod.mk _) (map_frameProgress (records_frames hvs))

end Machine

/-! ## Progress and the steps left to do -/

/-- What a context tells says which of the activities of a node it is, up to values. -/
theorem Activity.due_of_progress {a b : Activity α} (hn : a.node = b.node)
    (hp : a.context.contextProgress = b.context.contextProgress) : a.due = b.due ∧ a.child? = b.child? := by
  cases a with
  | literal | foreign => cases b <;> cases hn; exact ⟨rfl, rfl⟩
  | binary s l r stage =>
      cases b with
      | binary s' l' r' stage' =>
          cases hn
          cases stage <;> cases stage' <;> first | exact ⟨rfl, rfl⟩ | cases hp
      | literal | print | block | foreign => cases hn
  | print e begun =>
      cases b with
      | print e' begun' => cases hn; cases hp; exact ⟨rfl, rfl⟩
      | literal | binary | block | foreign => cases hn
  | block begun waiting =>
      cases b with
      | block begun' waiting' =>
          have hlength : begun.length = begun'.length := by
            have hindex : some (Value.int begun.length) = some (Value.int begun'.length) :=
              congrArg (fun fields => fields.getD 2 none) hp
            simpa [Value.int] using hindex
          obtain ⟨hbegun, rfl⟩ := List.append_inj (Node.block.inj hn) (by simpa using hlength)
          cases List.reverse_injective hbegun
          exact ⟨rfl, rfl⟩
      | literal | binary | print | foreign => cases hn

theorem total_due_of_progress {f g : Frame α} {fs gs : List (Frame α)} (hf : (f :: fs).IsChain fun b f => f.IsChild b)
    (hg : (g :: gs).IsChain fun b f => f.IsChild b) (hn : f.node = g.node)
    (hp : (f :: fs).map Frame.progress = (g :: gs).map Frame.progress) :
    total (fun f => f.activity.due) (f :: fs) = total (fun f => f.activity.due) (g :: gs) := by
  induction fs generalizing f g gs with
  | nil =>
      obtain ⟨hfg, hrest⟩ := List.cons.inj hp
      cases List.map_eq_nil_iff.1 hrest.symm
      rw [total_cons, total_cons, (Activity.due_of_progress hn hfg).1]
  | cons f' fs ih =>
      obtain ⟨hfg, hrest⟩ := List.cons.inj hp
      cases gs with
      | nil => cases hrest
      | cons g' gs =>
          obtain ⟨⟨t, hchild, -⟩, hfs⟩ := List.isChain_cons_cons.1 hf
          obtain ⟨⟨u, hchild', -⟩, hgs⟩ := List.isChain_cons_cons.1 hg
          obtain ⟨hdue, hsame⟩ := Activity.due_of_progress hn hfg
          have hnode : f'.node = g'.node := by
            rw [← hsame, hchild] at hchild'
            exact (Prod.mk.inj (Option.some.inj hchild')).2
          have habove := ih hfs hgs hnode hrest
          simp only [total_cons] at habove ⊢
          omega

namespace Machine

/-- The progress that a record tells says how many steps are left to do in a tree. -/
theorem Linked.due_of_progress {m m' : Machine α} (h : m.Linked) (h' : m'.Linked) (hr : m.root? = m'.root?)
    (hp : m.progress = m'.progress) : m.due = m'.due := by
  obtain ⟨hflag, hframes⟩ := Prod.mk.inj hp
  have hhalted : m.halted = m'.halted := Value.bool.inj (Option.some.inj hflag)
  have hchain : m.stack.reverse.IsChain fun b f => f.IsChild b := List.isChain_reverse.2 h.path.chain
  have hchain' : m'.stack.reverse.IsChain fun b f => f.IsChild b := List.isChain_reverse.2 h'.path.chain
  have htotal : total (fun f => f.activity.due) m.stack.reverse = total (fun f => f.activity.due) m'.stack.reverse := by
    rw [Machine.root?, Machine.root?, ← List.head?_reverse, ← List.head?_reverse] at hr
    generalize m.stack.reverse = fs at *
    generalize m'.stack.reverse = gs at *
    cases fs with
    | nil => rw [List.map_eq_nil_iff.1 hframes.symm]
    | cons f fs =>
        cases gs with
        | nil => cases hframes
        | cons g gs => exact total_due_of_progress hchain hchain' (Option.some.inj hr) hframes
  rw [total_reverse, total_reverse] at htotal
  rw [due, due, hhalted, htotal]

end Machine

/-! ## Equal records -/

namespace Value

theorem exists_field_of_same {fs gs : List (Value × Value)} (h : sameFields fs gs = true) {k : Text} {v : Value}
    (hv : (text k, v) ∈ fs) : ∃ w, (text k, w) ∈ gs ∧ same v w = true := by
  induction fs with
  | nil => cases hv
  | cons f fs ih =>
      rw [sameFields, Bool.and_eq_true] at h
      rcases List.mem_cons.1 hv with rfl | hv
      · obtain ⟨⟨key, w⟩, hg, hsame⟩ := List.any_eq_true.1 h.1
        obtain ⟨hkey, hw⟩ := Bool.and_eq_true_iff.1 hsame
        cases key with
        | text u =>
            simp only [same, decide_eq_true_eq] at hkey
            cases hkey
            exact ⟨w, hg, hw⟩
        | null | bool | number | list | tuple | record | alien => simp [same] at hkey
      · exact ih h.2 hv

end Value

theorem Activity.progress_of_same {a b : Activity α} (h : Value.same a.context b.context = true) :
    a.context.contextProgress = b.context.contextProgress := by
  have hleft : ("state" : Text) ≠ "left" := by decide
  have hdone : ("exprDone" : Text) ≠ "index" := by decide
  cases a with
  | literal | foreign =>
      cases b with
      | literal | foreign => rfl
      | binary | print | block => simp [context, Value.same] at h
  | binary s l r stage =>
      cases b with
      | binary s' l' r' stage' =>
          simp [context, Value.same, Value.sameFields, Value.named, Value.number?, Value.int, Number.sameValue, hleft] at h
          exact congrArg (fun n : Nat => [some (Value.int n), none, none]) h.1
      | literal | print | block | foreign => simp [context, Value.same] at h
  | print e begun =>
      cases b with
      | print e' begun' =>
          have hbegun : begun = begun' := by
            cases begun <;> cases begun' <;>
              first
                | rfl
                | simp [context, Value.same, Value.sameFields, Value.named, Value.number?, Number.sameValue] at h
          rw [hbegun]
          rfl
      | block => simp [context, Value.same, Value.sameFields, Value.named, hdone] at h
      | literal | binary | foreign => simp [context, Value.same] at h
  | block begun waiting =>
      cases b with
      | block begun' waiting' =>
          have hlength : begun.length = begun'.length := by
            simpa [context, Value.same, Value.sameFields, Value.named, Value.number?, Value.int, Number.sameValue] using h
          exact congrArg (fun n : Nat => [none, none, some (Value.int n)]) hlength
      | print => simp [context, Value.same, Value.sameFields, Value.named, hdone.symm] at h
      | literal | binary | foreign => simp [context, Value.same] at h

theorem Frame.progress_of_same {f g : Frame α} {w w' : Value}
    (h : Value.same (f.toRecord w) (g.toRecord w') = true) : f.progress = g.progress := by
  have hnode : ("node" : Text) ≠ "ctx" := by decide
  have hvalue : ("value" : Text) ≠ "ctx" := by decide
  rw [toRecord, toRecord, Value.same, Bool.and_eq_true] at h
  obtain ⟨c, hc, hsame⟩ := Value.exists_field_of_same h.2 (k := "ctx") (v := f.activity.context) (by simp [Value.named])
  have hcontext : c = g.activity.context := by
    cases hslot : g.slot <;> simpa [hslot, Value.named, hnode.symm, hvalue.symm] using hc
  rw [hcontext] at hsame
  exact Activity.progress_of_same hsame

namespace Machine

theorem map_progress_of_same {fs gs : List (Frame α)} {vs ws : List Value}
    (hvs : List.Forall₂ Frame.Recorded fs vs) (hws : List.Forall₂ Frame.Recorded gs ws)
    (h : Value.sameItems vs ws = true) :
    fs.map Frame.progress = gs.map Frame.progress := by
  induction hvs generalizing gs ws with
  | nil =>
      cases hws with
      | nil => rfl
      | cons => cases h
  | cons hv _ ih =>
      cases hws with
      | nil => cases h
      | cons hw hws =>
          obtain ⟨w, rfl⟩ := hv
          obtain ⟨w', rfl⟩ := hw
          rw [Value.sameItems, Bool.and_eq_true] at h
          rw [List.map_cons, List.map_cons, Frame.progress_of_same h.1, ih hws h.2]

/-- Records that are equal tell the same progress. -/
theorem progress_of_same [Strange α] {m m' : Machine α} {v v' : Value} (h : m.toValue = .ok v)
    (h' : m'.toValue = .ok v') (hsame : v.same v' = true) : m.progress = m'.progress := by
  have hne : Wire.stackField ≠ "halted" := by decide
  obtain ⟨vs, hvs, rfl⟩ := toValue_ok h
  obtain ⟨ws, hws, rfl⟩ := toValue_ok h'
  rw [Value.same, Bool.and_eq_true] at hsame
  obtain ⟨x, hx, hstack⟩ := Value.exists_field_of_same hsame.2 (List.mem_cons_self ..)
  obtain ⟨y, hy, hflag⟩ := Value.exists_field_of_same hsame.2 (List.mem_cons_of_mem _ (List.mem_singleton_self _))
  have hlist : x = .list ws := by simpa [Value.named, hne] using hx
  have hbool : y = .bool m'.halted := by simpa [Value.named, hne.symm] using hy
  subst hlist hbool
  have hhalted : m.halted = m'.halted := by
    cases hm : m.halted <;> cases hm' : m'.halted <;> simp_all [Value.same, Value.number?, Number.sameValue]
  rw [progress, progress, hhalted, map_progress_of_same (records_frames hvs) (records_frames hws) hstack]

/-! ## Calls -/

theorem root?_ofRoot (n : Node α) : (ofRoot n).root? = some n := by
  simp [root?, ofRoot, Frame.node]

section

variable [Strange α] {host : Host σ ε} {m : Machine α} {s : σ}

theorem root?_after (k : Nat) : (m.after host k s).1.root? = m.root? := by
  induction k with
  | zero => rfl
  | succ k ih => rw [after_succ, call, root?_step, ih]

/-- So many calls of a machine do not fail, and none before the last one halts it. -/
def Goes (host : Host σ ε) (m : Machine α) (s : σ) (k : Nat) : Prop :=
  ∀ j < k, (m.after host j s).1.halted = false ∧ ∃ more, (m.call host j s).result = .ok more

theorem due_after {j k : Nat} (h : m.Goes host s (j + k)) :
    (m.after host (j + k) s).1.due + k = (m.after host j s).1.due := by
  induction k with
  | zero => rfl
  | succ k ih =>
      obtain ⟨hhalted, more, hmore⟩ := h (j + k) (by omega)
      have hstep : (m.after host (j + k + 1) s).1.due + 1 = (m.after host (j + k) s).1.due := by
        rw [after_succ]
        exact due_step hhalted hmore
      have hrest := ih fun i hi => h i (by omega)
      rw [← Nat.add_assoc j k 1]
      omega

end

/-! ## Pauses -/

section

variable {m : Machine Empty} {n : Node Empty} {v : Value}

/-- Where the integers are short and the symbols hold no surrogates, a record has a text, and no two have the same. -/
theorem exists_toText (hr : m.root? = some n) (hn : ∀ t ∈ n.symbols, Json.Scalar t) (hs : m.Short)
    (hv : m.toValue = .ok v) : ∃ t, m.toText = .ok t ∧ Wire.read t = .ok v ∧ t.Printable := by
  have hplain := Value.Plain.imp (fun _ => unjoined_of_scalar) v (scalar_toValue hr hn hv) (hs v hv)
  have hwrite := Wire.write_plain hplain
  refine ⟨_, ?_, Wire.read_text hplain, Wire.printable_write hwrite⟩
  simp only [toText, hv, hwrite]
  rfl

/-- Of two pauses of one run, the records are different, already in what they tell besides values, and so are the texts.
Their handles are the digests of different bytes. -/
theorem pauses_differ (host : Host σ ε) (n : Node Empty) (s : σ) {k k' : Nat} (hk : k < k')
    (h : (ofRoot n).Goes host s k') :
    let m := ((ofRoot n).after host k s).1
    let m' := ((ofRoot n).after host k' s).1
    ∃ v v', m.toValue = .ok v ∧ m'.toValue = .ok v' ∧
      v ≠ v' ∧ v.same v' = false ∧ v.progress ≠ v'.progress ∧
      ((∀ t ∈ n.symbols, Json.Scalar t) → m.Short → m'.Short →
        ∃ t t', m.toText = .ok t ∧ m'.toText = .ok t' ∧ t ≠ t' ∧
          ∃ x x', t.toAscii = .ok x ∧ t'.toAscii = .ok x' ∧ x ≠ x' ∧
            Handle.ofSnapshot t = .ok ⟨Blake2b.digest x⟩ ∧ Handle.ofSnapshot t' = .ok ⟨Blake2b.digest x'⟩) := by
  intro m m'
  have hlinked : m.Linked := (linked_ofRoot n).after k
  have hlinked' : m'.Linked := (linked_ofRoot n).after k'
  have hroot : m.root? = some n := (root?_after k).trans (root?_ofRoot n)
  have hroot' : m'.root? = some n := (root?_after k').trans (root?_ofRoot n)
  obtain ⟨v, hv, -⟩ := hlinked.reload
  obtain ⟨v', hv', -⟩ := hlinked'.reload
  have hdue : m.due ≠ m'.due := by
    obtain ⟨j, rfl⟩ := Nat.exists_eq_add_of_le (Nat.le_of_lt hk)
    have hfewer : m'.due + j = m.due := due_after h
    omega
  have hprogress : m.progress ≠ m'.progress := fun hp =>
    hdue (hlinked.due_of_progress hlinked' (hroot.trans hroot'.symm) hp)
  have hrecords : v.progress ≠ v'.progress := by
    rwa [progress_toValue hv, progress_toValue hv']
  have hne : v ≠ v' := fun heq => hrecords (congrArg _ heq)
  refine ⟨v, v', hv, hv', hne, ?_, hrecords, fun hn hs hs' => ?_⟩
  · exact Bool.eq_false_iff.2 fun hsame => hprogress (progress_of_same hv hv' hsame)
  · obtain ⟨t, ht, hread, hprintable⟩ := exists_toText hroot hn hs hv
    obtain ⟨t', ht', hread', hprintable'⟩ := exists_toText hroot' hn hs' hv'
    have htexts : t ≠ t' := by
      rintro rfl
      exact hne (Except.ok.inj (hread.symm.trans hread'))
    exact ⟨t, t', ht, ht', htexts, Handle.ofSnapshot_of_ne hprintable hprintable' htexts⟩

/-- The same statement twice. -/
def twins : Node Empty := .block [.literal (.int 7), .literal (.int 7)]

theorem pauses_differ_twins :
    let host : Host (List Number) Empty := Host.ofSink List.cons
    let m := ((ofRoot twins).after host 1 []).1
    let m' := ((ofRoot twins).after host 3 []).1
    (ofRoot twins).Goes host [] 3 ∧ (∀ t ∈ twins.symbols, Json.Scalar t) ∧ m.Short ∧ m'.Short ∧
      ∃ v v', m.toValue = .ok v ∧ m'.toValue = .ok v' ∧ v ≠ v' ∧
        ∃ t t', m.toText = .ok t ∧ m'.toText = .ok t' ∧ t ≠ t' := by
  intro host m m'
  have hgoes : (ofRoot twins).Goes host [] 3 := by
    unfold Goes
    decide +kernel
  have hsymbols : ∀ t ∈ twins.symbols, Json.Scalar t := by decide
  have hshort : m.Short := by decide +kernel
  have hshort' : m'.Short := by decide +kernel
  obtain ⟨v, v', hv, hv', hne, -, -, htexts⟩ := pauses_differ host twins [] (show 1 < 3 by decide) hgoes
  obtain ⟨t, t', ht, ht', hdiffer, -⟩ := htexts hsymbols hshort hshort'
  exact ⟨hgoes, hsymbols, hshort, hshort', v, v', hv, hv', hne, t, t', ht, ht', hdiffer⟩

end

end Machine

end Pausable
