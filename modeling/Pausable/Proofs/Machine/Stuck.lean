import Pausable.Proofs.Machine.Failing
import Pausable.Proofs.Machine.Respelled
import Pausable.Proofs.Machine.Stale
import Pausable.Proofs.Machine.Work

/-!
Machines that are stuck. A step that fails for want of an operator or of a value changes nothing, so every later step
fails as it did, and a copy of the machine is stuck in the same way. Only the symbol that is no operator may be spelled
in another way by then: the text formats put the pairs of surrogates in it in one (`Machine.stuck_after`).
-/
namespace Pausable

variable {α σ ε : Type}

namespace Fault

/-- The faults of the program itself: an operator that is none, and an operand without a value. -/
def OfProgram : Fault ε → Prop
  | unsupportedOperator _ | valuelessOperand _ => True
  | emptyStack | unknownKind _ | integerTooLarge | host _ => False

/-- The fault with the symbol that it names spelled in another way. -/
def respelled (g : Text → Text) : Fault ε → Fault ε
  | unsupportedOperator symbol => unsupportedOperator (g symbol)
  | valuelessOperand c => valuelessOperand c
  | emptyStack => emptyStack
  | unknownKind shown => unknownKind shown
  | integerTooLarge => integerTooLarge
  | host e => host e

theorem respelled_of_keeps {g : Text → Text} {e : Fault ε} (h : ∀ symbol, e = unsupportedOperator symbol → g symbol = symbol) :
    e.respelled g = e := by
  cases e with
  | unsupportedOperator symbol => exact congrArg unsupportedOperator (h symbol rfl)
  | valuelessOperand | emptyStack | unknownKind | integerTooLarge | host => rfl

end Fault

/-- No spelling of pairs makes an operator of what is none, or the other way round. -/
theorem Operator.ofSymbol?_paired (t : Text) : ofSymbol? t.paired = ofSymbol? t := by
  have hiff {s : Text} (hs : ∀ c ∈ s, c.val < 0x10000) (hpaired : s.paired = s) : t.paired = s ↔ t = s :=
    ⟨fun h => Text.eq_of_paired h hs, fun h => h ▸ hpaired⟩
  have hplus : t.paired = "+" ↔ t = "+" := hiff (by decide) rfl
  have htimes : t.paired = "*" ↔ t = "*" := hiff (by decide) rfl
  simp only [ofSymbol?, hplus, htimes]

/-- How copies spell symbols: as they are, or with the pairs in one. -/
def Spelling (g : Text → Text) : Prop := g = id ∨ g = Text.paired

namespace Spelling

variable {g g' : Text → Text}

theorem comp (hg : Spelling g) (hg' : Spelling g') : Spelling (g ∘ g') := by
  rcases hg with rfl | rfl
  · exact hg'
  · rcases hg' with rfl | rfl
    · exact .inr rfl
    · exact .inr (funext Text.paired_paired)

theorem ofSymbol? (hg : Spelling g) (t : Text) : Operator.ofSymbol? (g t) = Operator.ofSymbol? t := by
  rcases hg with rfl | rfl
  · rfl
  · exact Operator.ofSymbol?_paired t

theorem eq_of_unpaired (hg : Spelling g) {t : Text} (ht : t.Unpaired) : g t = t := by
  rcases hg with rfl | rfl
  · rfl
  · exact Text.paired_of_unpaired ht

end Spelling

theorem Route.spelling_spelling (r : Route) : Spelling r.spelling := by
  cases r with
  | data => exact .inl rfl
  | json | text => exact .inr rfl

namespace Frame

/-- The frame reads its slot, but there is no value in it, or no operator to apply. -/
def Stuck (f : Frame α) : Prop := f.Awaits ∧ (f.slot = none ∨ f.Unsupported)

section

variable [Strange α] {host : Host σ ε} {f : Frame α} {below : List (Frame α)} {s : σ} {acted : Acted α σ ε}

theorem Awaits.kind (h : f.Awaits) : ∃ k, (f.kind : Except (Fault ε) Kind) = .ok k := by
  obtain ⟨place, a, slot⟩ := f
  cases a with
  | literal | block | foreign => exact h.elim
  | binary | print => exact ⟨_, rfl⟩

theorem Acts.of_stuck (h : f.Acts host below s acted) (hf : f.Stuck) : acted = ⟨f, s, .error f.missing⟩ := by
  obtain ⟨hawaits, hlacks⟩ := hf
  cases h with
  | literal | statement | last | halt | foreign => exact hawaits.elim
  | left => exact (hawaits rfl).elim
  | operand => cases hawaits
  | noLeft | noOperand => rfl
  | unsupported hop | noRight hop => simp [missing, hop]
  | right | refused | printed => simp [Unsupported] at hlacks
  | tooLarge hop | applied hop => simp [Unsupported, hop] at hlacks

/-- A frame fails with a fault of the program only if it is stuck. -/
theorem Acts.stuck_of_fault {e : Fault ε} (h : f.Acts host below s acted) (he : e.OfProgram)
    (hfault : acted.effect = .error e ∨ acted.effect = .ok (.leave (.error e))) : f.Stuck ∧ e = f.missing := by
  cases h with
  | literal | left | right | applied | operand | statement | last | halt => rcases hfault with h | h <;> cases h
  | noLeft =>
      rcases hfault with h | h <;> cases h
      exact ⟨⟨Nat.succ_ne_zero _, .inl rfl⟩, rfl⟩
  | unsupported hop =>
      rcases hfault with h | h <;> cases h
      exact ⟨⟨Nat.succ_ne_zero _, .inr ⟨_, _, _, _, rfl, hop⟩⟩, by simp [missing, hop]⟩
  | noRight hop =>
      rcases hfault with h | h <;> cases h
      exact ⟨⟨Nat.succ_ne_zero _, .inl rfl⟩, by simp [missing, hop]⟩
  | noOperand =>
      rcases hfault with h | h <;> cases h
      exact ⟨⟨rfl, .inl rfl⟩, rfl⟩
  | tooLarge | refused =>
      rcases hfault with h | h <;> cases h
      exact he.elim
  | @printed _ _ v =>
      rcases hfault with h | h
      · cases h
      · rcases handOn_cases (ε := ε) below with hon | ⟨_, _, -, -, _, hon⟩ <;> rw [hon v] at h <;> cases h
        exact he.elim
  | @foreign _ a =>
      rcases hfault with h | h
      · have he' : (unknownKind (Strange.stranger a) : Fault ε) = e := Except.error.inj h
        unfold unknownKind at he'
        split at he' <;> subst he' <;> exact he.elim
      · cases h

end

theorem Stuck.respelled {g : Text → Text} (hg : Spelling g) {f : Frame α} (h : f.Stuck) :
    (f.respelled g).Stuck ∧ ((f.respelled g).missing : Fault ε) = f.missing.respelled g := by
  obtain ⟨place, a, slot⟩ := f
  obtain ⟨hawaits, hlacks⟩ := h
  cases a with
  | literal | block | foreign => exact hawaits.elim
  | print e begun => exact ⟨⟨hawaits, hlacks.imp_right fun ⟨_, _, _, _, ha, _⟩ => nomatch ha⟩, rfl⟩
  | binary symbol l r stage =>
      refine ⟨⟨hawaits, hlacks.imp_right ?_⟩, ?_⟩
      · rintro ⟨_, _, _, v, ha, hop⟩
        cases ha
        exact ⟨g symbol, _, _, v, rfl, (hg.ofSymbol? symbol).trans hop⟩
      · cases stage with
        | before | onLeft => rfl
        | onRight v =>
            simp only [Frame.respelled, Activity.respelled, missing, hg.ofSymbol?]
            split <;> rfl

end Frame

/-- What befalls a paused machine: a step, or a copy that takes its place. -/
inductive Event where
  | step
  | reload (r : Route)

namespace Machine

/-- The copy of a machine, or the machine itself if it is not copied. -/
def reloaded [Strange α] (m : Machine α) (r : Route) : Machine α :=
  match m.copy r with
  | .ok m' => m'
  | .error _ => m

/-- The machine and the world after some events, whether steps fail or not. -/
def undergo [Strange α] (host : Host σ ε) : List Event → Machine α → σ → Machine α × σ
  | [], m, s => (m, s)
  | .step :: events, m, s => undergo host events (m.step host s).machine (m.step host s).world
  | .reload r :: events, m, s => undergo host events (m.reloaded r) s

/-- The machine is stuck with a fault. -/
def Stuck (m : Machine α) (e : Fault ε) : Prop :=
  m.halted = false ∧ ∃ f below, m.stack = f :: below ∧ f.Stuck ∧ e = f.missing

section

variable {m : Machine Empty} {e : Fault ε} {host : Host σ ε} {s : σ}

theorem Linked.sound (h : m.Linked) : m.Sound := ⟨h, fun n _ => n.native_empty⟩

theorem Linked.reloaded (h : m.Linked) (r : Route) :
    m.reloaded r = m ∨ m.reloaded r = (m.respelled r.spelling).recounted := by
  unfold Machine.reloaded
  cases hr : m.copy r with
  | error e => exact .inl rfl
  | ok m' => exact .inr (h.copied hr)

theorem Linked.reload_keeps (h : m.Linked) (r : Route) : (m.reloaded r).Linked := by
  rcases h.reloaded r with hr | hr <;> rw [hr]
  · exact h
  · have hl : (m.respelled r.spelling).Linked := h.respelled
    exact ⟨hl.path, hl.alone⟩

/-- A step of a machine that is stuck changes nothing. -/
theorem Stuck.step_eq {m : Machine α} [Strange α] (hnote : ∀ n s, host.note n s = s) (h : m.Stuck e) :
    m.step host s = ⟨m, s, .error e⟩ := by
  obtain ⟨stack, halted, steps⟩ := m
  obtain ⟨hm, f, below, hs, hf, rfl⟩ := h
  cases hm; cases hs
  obtain ⟨k, hk⟩ := hf.1.kind (ε := ε)
  rw [step_of_kind hnote hk, (f.acts host below s).of_stuck hf]
  rfl

/-- A step fails with a fault of the program only if the machine is stuck. -/
theorem Linked.stuck_of_fault (h : m.Linked) (he : e.OfProgram) (hr : (m.step host s).result = .error e) :
    m.Stuck e := by
  obtain ⟨f, below, hs⟩ := h.stack_eq
  have hm := not_halted_of_error hr
  obtain ⟨k, acted, -, hacts, hdid⟩ := h.sound.step_did host s hm hs
  obtain ⟨hf, hmissing⟩ := hacts.stuck_of_fault he (hdid.error_iff.1 hr)
  exact ⟨hm, f, below, hs, hf, hmissing⟩

theorem Stuck.respelled {m : Machine α} {g : Text → Text} (hg : Spelling g) (h : m.Stuck e) :
    (m.respelled g).Stuck (e.respelled g) := by
  obtain ⟨hm, f, below, hs, hf, rfl⟩ := h
  obtain ⟨hf', hmissing⟩ := hf.respelled hg
  exact ⟨hm, f.respelled g, below.map (Frame.respelled g), by rw [Machine.respelled, hs, List.map_cons], hf', hmissing.symm⟩

theorem Stuck.recounted {m m' : Machine α} (h : m.Stuck e) (hm : m'.recounted = m.recounted) : m'.Stuck e := by
  obtain ⟨hhalted, f, below, hs, hf⟩ := h
  obtain ⟨hstack, hhalted', -⟩ := Machine.mk.inj hm
  exact ⟨hhalted'.trans hhalted, f, below, hstack.trans hs, hf⟩

theorem respelled_recounted (g : Text → Text) (m : Machine α) : m.recounted.respelled g = (m.respelled g).recounted := rfl

/-- Whatever befalls a machine that is stuck, it is left as it is but for its counter and the spelling of its symbols,
and nothing is printed. -/
theorem Stuck.undergo (hnote : ∀ n s, host.note n s = s) (hl : m.Linked) (h : m.Stuck e) (events : List Event) (s : σ) :
    (m.undergo host events s).2 = s ∧ ∃ g, Spelling g ∧ (m.undergo host events s).1.recounted = (m.respelled g).recounted ∧
      ((∀ r, .reload r ∈ events → r = .data) → g = id) := by
  induction events generalizing m e with
  | nil => exact ⟨rfl, id, .inl rfl, by rw [respelled_id]; rfl, fun _ => rfl⟩
  | cons event events ih =>
      cases event with
      | step =>
          obtain ⟨hworld, g, hg, hmachine, hdata⟩ := ih hl h
          simp only [Machine.undergo, h.step_eq hnote]
          exact ⟨hworld, g, hg, hmachine, fun hr => hdata fun r hmem => hr r (List.mem_cons_of_mem _ hmem)⟩
      | reload r =>
          have hl' := hl.reload_keeps r
          simp only [Machine.undergo]
          rcases hl.reloaded r with hr | hr
          · rw [hr]
            obtain ⟨hworld, g, hg, hmachine, hdata⟩ := ih hl h
            exact ⟨hworld, g, hg, hmachine, fun hr => hdata fun r hmem => hr r (List.mem_cons_of_mem _ hmem)⟩
          · rw [hr] at hl' ⊢
            have hstuck : (m.respelled r.spelling).recounted.Stuck (e.respelled r.spelling) :=
              (h.respelled r.spelling_spelling).recounted rfl
            obtain ⟨hworld, g, hg, hmachine, hdata⟩ := ih hl' hstuck
            refine ⟨hworld, g ∘ r.spelling, hg.comp r.spelling_spelling, ?_, fun hr => ?_⟩
            · rw [hmachine, respelled_recounted, respelled_respelled]
              rfl
            · rw [hdata fun r hmem => hr r (List.mem_cons_of_mem _ hmem), hr r (List.mem_cons_self ..)]
              rfl

/-- A step that fails with a fault of the program leaves the machine and the world as they are. Whatever steps and
copies follow, nothing is printed, and nothing changes but the counter and the spelling of symbols; and the next step
fails in the same way. It names the same symbol unless a text has put the pairs of surrogates in it in one. -/
theorem stuck_after (print : Number → σ → Except ε Unit × σ) {m : Machine Empty} (h : m.Initial) (k : Nat) (s : σ)
    {e : Fault ε} (he : e.OfProgram) (hr : (m.call (.ofPrint print) k s).result = .error e) :
    let host := Host.ofPrint print
    let stuck := (m.after host k s).1
    let world := (m.after host k s).2
    stuck.step host world = ⟨stuck, world, .error e⟩ ∧
      ∀ events, let later := stuck.undergo host events world
        later.2 = world ∧ ∃ g, Spelling g ∧ later.1.recounted = (stuck.respelled g).recounted ∧
          later.1.step host later.2 = ⟨later.1, world, .error (e.respelled g)⟩ ∧
          ((∀ r, .reload r ∈ events → r = .data) ∨ (∀ symbol, e = .unsupportedOperator symbol → symbol.Unpaired) →
            e.respelled g = e) := by
  intro host stuck world
  have hl : stuck.Linked := h.linked.after k
  have hstuck : stuck.Stuck e := hl.stuck_of_fault he hr
  have hnote (n : Note) (s : σ) : host.note n s = s := rfl
  refine ⟨hstuck.step_eq hnote, ?_⟩
  intro events later
  obtain ⟨hworld, g, hg, hmachine, hdata⟩ := hstuck.undergo hnote hl events world
  have hlater : later.1.Stuck (e.respelled g) := (hstuck.respelled hg).recounted hmachine
  refine ⟨hworld, g, hg, hmachine, ?_, ?_⟩
  · rw [hlater.step_eq hnote, hworld]
  · rintro (hroutes | hsymbol)
    · rw [hdata hroutes]
      exact Fault.respelled_of_keeps fun _ _ => rfl
    · exact Fault.respelled_of_keeps fun symbol hs => hg.eq_of_unpaired (hsymbol symbol hs)

end

/-- Two surrogates as the symbol of an operation. -/
def halves : Text := [.ofNat 0xD83D, .ofNat 0xDE00]

def halvesApplied : Node Empty := .binary halves (.literal (.int 1)) (.literal (.int 2))

theorem stuck_after_halves :
    let host : Host (List Number) Empty := .ofPrint fun v s => (.ok (), v :: s)
    let e : Fault Empty := .unsupportedOperator halves
    let stuck := ((ofRoot halvesApplied).after host 4 []).1
    let later := stuck.undergo host [.step, .reload .data, .step] []
    (ofRoot halvesApplied).Initial ∧ e.OfProgram ∧ ((ofRoot halvesApplied).call host 4 []).result = .error e ∧
      stuck.step host [] = ⟨stuck, [], .error e⟩ ∧ later.1.step host later.2 = ⟨later.1, [], .error e⟩ := by
  intro host e stuck later
  have hnew : (ofRoot halvesApplied).Initial := .new (start_ofRoot halvesApplied)
  have hresult : ((ofRoot halvesApplied).call host 4 []).result = .error e := by decide +kernel
  have hworld : ((ofRoot halvesApplied).after host 4 []).2 = [] := by decide +kernel
  have hprogram : e.OfProgram := trivial
  obtain ⟨hstep, hlater⟩ := stuck_after (fun v s => (.ok (), v :: s)) hnew 4 [] hprogram hresult
  obtain ⟨-, g, -, -, hagain, hsame⟩ := hlater [.step, .reload .data, .step]
  rw [hworld] at hstep hagain
  have hdata : ∀ r, Event.reload r ∈ [Event.step, .reload .data, .step] → r = .data := by simp
  rw [hsame (.inl hdata)] at hagain
  exact ⟨hnew, hprogram, hresult, hstep, hagain⟩

/-- A copy by snapshot text fails with another message: it names the code point that the surrogates stand for. -/
theorem halves_renamed :
    let host : Host (List Number) Empty := .ofPrint fun v s => (.ok (), v :: s)
    let stuck := ((ofRoot halvesApplied).after host 4 []).1
    let copied := stuck.undergo host [.reload .text] []
    let before : Fault Empty := .unsupportedOperator halves
    let behind : Fault Empty := .unsupportedOperator [.ofNat 0x1F600]
    (stuck.step host []).result = .error before ∧ (copied.1.step host copied.2).result = .error behind ∧
      before.message nofun ≠ behind.message nofun := by
  decide +kernel

end Machine
end Pausable
