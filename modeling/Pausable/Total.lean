/-! The sum of a measure over a list. -/
namespace Pausable

variable {β : Type}

def total (f : β → Nat) : List β → Nat
  | [] => 0
  | b :: bs => f b + total f bs

@[simp] theorem total_nil (f : β → Nat) : total f [] = 0 := rfl

@[simp] theorem total_cons (f : β → Nat) (b : β) (bs : List β) :
    total f (b :: bs) = f b + total f bs := rfl

@[simp] theorem total_append (f : β → Nat) (as bs : List β) :
    total f (as ++ bs) = total f as + total f bs := by
  induction as with
  | nil => simp
  | cons a as ih => simp [ih, Nat.add_assoc]

theorem total_map {γ : Type} (f : γ → Nat) (g : β → γ) (bs : List β) :
    total f (bs.map g) = total (fun b => f (g b)) bs := by
  induction bs with
  | nil => rfl
  | cons b bs ih => simp [ih]

theorem total_reverse (f : β → Nat) (bs : List β) : total f bs.reverse = total f bs := by
  induction bs with
  | nil => rfl
  | cons b bs ih => simp [ih, Nat.add_comm]

end Pausable
