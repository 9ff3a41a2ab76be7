import Mathlib.Data.Nat.Notation
import Mathlib.Order.Basic

/-!
# Steps of a relation

A relation is followed for a number of steps. A part of the steps can be followed alone, and where
the steps lead back to an element that was seen, they can be followed for ever.
-/

/-- The relation leads from one element to another in a number of steps. -/
inductive Steps {α : Type} (r : α → α → Prop) : ℕ → α → α → Prop
  | refl (a : α) : Steps r 0 a a
  | step {n : ℕ} {a b c : α} : r a b → Steps r n b c → Steps r (n + 1) a c

namespace Steps

variable {α : Type} {r : α → α → Prop} {m n : ℕ} {a b c : α}

/-- Steps may follow steps. -/
theorem trans (h : Steps r m a b) (h' : Steps r n b c) : Steps r (m + n) a c := by
  induction h with
  | refl a => rwa [Nat.zero_add]
  | step hab _ ih =>
    rw [Nat.add_right_comm]
    exact .step hab (ih h')

/-- The first steps can be followed alone. -/
theorem take (h : Steps r n a c) (hm : m ≤ n) : ∃ b, Steps r m a b := by
  induction h generalizing m with
  | refl a => exact ⟨a, Nat.le_zero.mp hm ▸ .refl a⟩
  | @step n a b c hab _ ih =>
    cases m with
    | zero => exact ⟨a, .refl a⟩
    | succ m =>
      obtain ⟨d, hd⟩ := ih (Nat.le_of_succ_le_succ hm)
      exact ⟨d, .step hab hd⟩

/-- Where each step that is reached is one of another relation, this relation leads to the same
element. -/
theorem imp_of_reached {r' : α → α → Prop} (h : Steps r n a c)
    (himp : ∀ m < n, ∀ b b', Steps r m a b → Steps r' m a b → r b b' → r' b b') :
    Steps r' n a c := by
  induction h with
  | refl a => exact .refl a
  | @step n a b c hab _ ih =>
    have hab' : r' a b := himp 0 (Nat.succ_pos n) a b (.refl a) (.refl a) hab
    exact .step hab' (ih fun m hm d d' hd hd' =>
      himp (m + 1) (Nat.succ_lt_succ hm) d d' (.step hab hd) (.step hab' hd'))

/-- A cycle can be followed several times. -/
theorem repeat_cycle (h : Steps r n a a) (times : ℕ) : Steps r (times * n) a a := by
  induction times with
  | zero =>
    rw [Nat.zero_mul]
    exact .refl a
  | succ times ih =>
    rw [Nat.succ_mul]
    exact ih.trans h

/-- Steps that lead into a cycle can be followed for ever. -/
theorem exists_of_cycle (h : Steps r m a b) (hcycle : Steps r n b b) (hn : 0 < n) (k : ℕ) :
    ∃ c, Steps r k a c := by
  refine (h.trans (hcycle.repeat_cycle k)).take ?_
  calc k = k * 1 := (Nat.mul_one k).symm
    _ ≤ k * n := Nat.mul_le_mul_left k hn
    _ ≤ m + k * n := Nat.le_add_left _ _

end Steps
