import Pausable.Proofs.Machine.Failing
import Pausable.Proofs.Machine.Work

/-!
A block that is a statement of another block gives way to its own statements (`run_flattened`). What it hands on is
the value of the last of them that has one, so the block around it comes to the same value either way.
-/
namespace Pausable

namespace Meaning

theorem ofValue_andThen (v : Option Number) (next : Option Number → Meaning) : (ofValue v).andThen next = next v := rfl

theorem andThen_assoc (μ : Meaning) (f g : Option Number → Meaning) :
    (μ.andThen f).andThen g = μ.andThen fun v => (f v).andThen g := by
  obtain ⟨prints, e | v⟩ := μ
  · rfl
  · simp only [andThen]
    cases (f v).result with
    | error e => rfl
    | ok w => simp only [List.append_assoc]

end Meaning

namespace Node

/-! ## Meanings -/

theorem meaningAll_append (last : Option Number) (ss ts : List (Node Empty)) :
    meaningAll last (ss ++ ts) = (meaningAll last ss).andThen fun v => meaningAll v ts := by
  induction ss generalizing last with
  | nil => rw [List.nil_append, meaningAll, Meaning.ofValue_andThen]
  | cons s ss ih =>
      rw [List.cons_append, meaningAll, meaningAll, Meaning.andThen_assoc]
      exact congrArg _ (funext fun v => ih (v.or last))

/-- The value before some statements is theirs only if none of them has one. -/
theorem meaningAll_last (last : Option Number) (ss : List (Node Empty)) :
    meaningAll last ss = (meaningAll none ss).andThen fun v => .ofValue (v.or last) := by
  induction ss generalizing last with
  | nil => rfl
  | cons s ss ih =>
      rw [meaningAll, meaningAll, Meaning.andThen_assoc]
      refine congrArg _ (funext fun v => ?_)
      rw [ih (v.or last), ih (v.or none), Meaning.andThen_assoc]
      refine congrArg _ (funext fun w => ?_)
      rw [Meaning.ofValue_andThen, Option.or_none, Option.or_assoc]

/-- Behind a block that is a statement all goes on as behind its statements. -/
theorem meaningAll_block (last : Option Number) (ss ts : List (Node Empty)) :
    meaningAll last (block ss :: ts) = meaningAll last (ss ++ ts) := by
  rw [meaningAll, meaning, meaningAll_append, meaningAll_last last ss, Meaning.andThen_assoc]
  rfl

/-! ## Flattening -/

/-- Somewhere in the tree a block that is a statement of another one gives way to its own statements. -/
inductive Flattens : Node Empty → Node Empty → Prop where
  | here (before ss behind : List (Node Empty)) :
      Flattens (block (before ++ block ss :: behind)) (block (before ++ ss ++ behind))
  | left (symbol : Text) {l l' : Node Empty} (r : Node Empty) :
      Flattens l l' → Flattens (binary symbol l r) (binary symbol l' r)
  | right (symbol : Text) (l : Node Empty) {r r' : Node Empty} :
      Flattens r r' → Flattens (binary symbol l r) (binary symbol l r')
  | operand {e e' : Node Empty} : Flattens e e' → Flattens (print e) (print e')
  | statement (before : List (Node Empty)) {s s' : Node Empty} (behind : List (Node Empty)) :
      Flattens s s' → Flattens (block (before ++ s :: behind)) (block (before ++ s' :: behind))

variable {n n' : Node Empty}

theorem Flattens.meaning (h : n.Flattens n') (handsOn : Bool) : n.meaning handsOn = n'.meaning handsOn := by
  induction h generalizing handsOn with
  | here before ss behind =>
      rw [Node.meaning, Node.meaning, List.append_assoc, meaningAll_append, meaningAll_append none before]
      exact congrArg _ (funext fun v => meaningAll_block v ss behind)
  | left symbol r _ ih => rw [Node.meaning, Node.meaning, ih]
  | right symbol l _ ih => rw [Node.meaning, Node.meaning, ih]
  | operand _ ih => rw [Node.meaning, Node.meaning, ih]
  | statement before behind _ ih =>
      rw [Node.meaning, Node.meaning, meaningAll_append, meaningAll_append none before]
      exact congrArg _ (funext fun v => by rw [meaningAll, meaningAll, ih])

/-- Only the block itself is gone. -/
theorem Flattens.count (h : n.Flattens n') : n.count = n'.count + 1 := by
  induction h with
  | here before ss behind =>
      simp only [Node.count, countAll, countAll_append]
      omega
  | left symbol r _ ih =>
      simp only [Node.count]
      omega
  | right symbol l _ ih =>
      simp only [Node.count]
      omega
  | operand _ ih =>
      simp only [Node.count]
      omega
  | statement before behind _ ih =>
      simp only [Node.count, countAll, countAll_append]
      omega

end Node

namespace Machine

variable {σ ε : Type}

/-- A run that does not fail takes the steps of the tree. -/
theorem steps_run {host : Host σ ε} {n : Node Empty} {s : σ} {more : Bool}
    (h : ((ofRoot n).run host s).result = .ok more) : ((ofRoot n).run host s).machine.steps + 1 = 2 * n.count := by
  rcases run_due host (ofRoot n) s with ⟨e, he⟩ | ⟨-, -, hsteps⟩
  · rw [he] at h
    cases h
  · rw [hsteps, due_ofRoot, ← Node.span_succ, Nat.add_assoc]
    exact Nat.zero_add _

/-- Whatever the sink does with what it is handed, the flattened tree hands it the same numbers in the same order, and
comes to the same value or the same fault. If there is no fault, it takes two steps less. -/
theorem run_flattened (print : Number → σ → Except ε Unit × σ) {n n' : Node Empty} (h : n.Flattens n') (s : σ) :
    let o := (ofRoot n).run (.ofPrint print) s
    let o' := (ofRoot n').run (.ofPrint print) s
    o'.world = o.world ∧ o'.result.map (fun _ => o'.machine.value) = o.result.map (fun _ => o.machine.value) ∧
      ((∃ more, o.result = .ok more) → o'.machine.steps + 2 = o.machine.steps) := by
  intro o o'
  obtain ⟨hworld, hresult⟩ := run_performs print n s
  obtain ⟨hworld', hresult'⟩ := run_performs print n' s
  rw [← h.meaning true] at hworld' hresult'
  have hsame : o'.result.map (fun _ => o'.machine.value) = o.result.map (fun _ => o.machine.value) :=
    hresult'.trans hresult.symm
  refine ⟨hworld'.trans hworld.symm, hsame, ?_⟩
  rintro ⟨more, hmore⟩
  cases hmore' : o'.result with
  | error e =>
      rw [hmore, hmore'] at hsame
      cases hsame
  | ok more' =>
      have hsteps : o.machine.steps + 1 = 2 * n.count := steps_run hmore
      have hsteps' : o'.machine.steps + 1 = 2 * n'.count := steps_run hmore'
      have hcount := h.count
      omega

/-- A block that is an operand holds another one, in which nothing has a value but the print. -/
def nestedOperand : Node Empty :=
  .binary "+" (.block [.literal (.int 5), .block [.print (.literal (.int 7)), .block []]]) (.literal (.int 1))

def flatOperand : Node Empty :=
  .binary "+" (.block [.literal (.int 5), .print (.literal (.int 7)), .block []]) (.literal (.int 1))

/-- A sink that keeps what it is handed, and fails at the second number. -/
def keepOne (v : Number) : List Number → Except Text Unit × List Number
  | [] => (.ok (), [v])
  | taken => (.error "full", taken)

theorem run_flattened_nested :
    let o := (ofRoot nestedOperand).run (.ofPrint keepOne) []
    let o' := (ofRoot flatOperand).run (.ofPrint keepOne) []
    nestedOperand.Flattens flatOperand ∧ (∃ more, o.result = .ok more) ∧ o.world = [.int 7] ∧ o'.world = o.world ∧
      o'.machine.steps + 2 = o.machine.steps := by
  intro o o'
  have hflattens : nestedOperand.Flattens flatOperand :=
    .left _ _ (.here [.literal (.int 5)] [.print (.literal (.int 7)), .block []] [])
  obtain ⟨hworld, hresult⟩ := run_performs keepOne nestedOperand []
  have hprints : ((nestedOperand.meaning true).perform keepOne []).1 = [.int 7] := by decide +kernel
  have hvalue : o.result.map (fun _ => o.machine.value) = .ok (some (.int 8)) := hresult.trans (by decide +kernel)
  have hok : ∃ more, o.result = .ok more := by
    cases ho : o.result with
    | ok more => exact ⟨more, rfl⟩
    | error e =>
        rw [ho] at hvalue
        cases hvalue
  obtain ⟨hsame, -, hsteps⟩ := run_flattened keepOne hflattens []
  exact ⟨hflattens, hok, hworld.trans hprints, hsame, hsteps hok⟩

end Machine
end Pausable
