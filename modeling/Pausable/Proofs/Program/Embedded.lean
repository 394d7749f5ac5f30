import Pausable.Proofs.Program.Native

/-!
Trees of the four kinds as trees of a type that may have strangers. There they are native (`Node.native_embed`) and
have as many nodes (`Node.count_embed`).
-/
namespace Pausable.Node

variable {α : Type}

mutual

/-- The same tree where there may be strangers. -/
def embed : Node Empty → Node α
  | literal n => literal n
  | binary s l r => binary s l.embed r.embed
  | print e => print e.embed
  | block ss => block (embedAll ss)
  | foreign e => e.elim

def embedAll : List (Node Empty) → List (Node α)
  | [] => []
  | s :: ss => s.embed :: embedAll ss

end

mutual

/-- Where there are none, nothing changes. -/
theorem embed_self : (n : Node Empty) → n.embed = n
  | literal _ => rfl
  | binary s l r => by rw [embed, embed_self l, embed_self r]
  | print e => by rw [embed, embed_self e]
  | block ss => by rw [embed, embedAll_self ss]
  | foreign e => e.elim

theorem embedAll_self : (ns : List (Node Empty)) → embedAll ns = ns
  | [] => rfl
  | n :: ns => by rw [embedAll, embed_self n, embedAll_self ns]

end

mutual

theorem count_embed : (n : Node Empty) → (n.embed : Node α).count = n.count
  | literal _ => rfl
  | binary s l r => by rw [embed, count, count, count_embed l, count_embed r]
  | print e => by rw [embed, count, count, count_embed e]
  | block ss => by rw [embed, count, count, countAll_embed ss]
  | foreign e => e.elim

theorem countAll_embed : (ns : List (Node Empty)) → countAll (embedAll ns : List (Node α)) = countAll ns
  | [] => rfl
  | n :: ns => by rw [embedAll, countAll, countAll, count_embed n, countAll_embed ns]

end

mutual

theorem native_embed : (n : Node Empty) → (n.embed : Node α).Native
  | literal _ => trivial
  | binary _ l r => ⟨native_embed l, native_embed r⟩
  | print e => native_embed e
  | block ss => nativeAll_embed ss
  | foreign e => e.elim

theorem nativeAll_embed : (ns : List (Node Empty)) → NativeAll (embedAll ns : List (Node α))
  | [] => trivial
  | n :: ns => ⟨native_embed n, nativeAll_embed ns⟩

end

end Pausable.Node
