import Abyss.Library.Machine

/-!
# Programs that give up

A program may give up with a fault that another program avoids by doing more, as a recursion does
whose depth is bounded. The first one approximates the second if it does the same wherever it does
not give up. The relation is a congruence, so a bounded recursion approximates one with a larger
bound, and where it does not give up a larger bound changes nothing.
-/

namespace Machine

variable {σ ε α β : Type} {e : ε}

/-- A program gives up with the fault `e` at a state. -/
def GivesUp (e : ε) (x : Machine σ ε α) (s : σ) : Prop := (x s).1 = .error e

instance [DecidableEq ε] (x : Machine σ ε α) (s : σ) : Decidable (GivesUp e x s) :=
  match h : (x s).1 with
  | .ok _ => isFalse fun heq => nomatch h.symm.trans heq
  | .error e' => decidable_of_iff (e' = e)
      ⟨fun heq => h.trans (congrArg Except.error heq),
        fun heq => Except.error.inj (h.symm.trans heq)⟩

/-- Where the first program does not give up with the fault `e`, the second one does the same. -/
def Approx (e : ε) (x y : Machine σ ε α) : Prop := ∀ s, GivesUp e x s ∨ x s = y s

namespace Approx

/-- Every program approximates itself. -/
theorem refl (x : Machine σ ε α) : Approx e x x := fun _ => Or.inr rfl

/-- Giving up at once approximates everything. -/
theorem fault (x : Machine σ ε α) : Approx e (Machine.fault e) x := fun _ => Or.inl rfl

/-- Where a program does not give up, what it approximates has its outcome. -/
theorem eq_of_ne {x y : Machine σ ε α} (h : Approx e x y) {s : σ} (hs : ¬GivesUp e x s) :
    y s = x s :=
  ((h s).resolve_left hs).symm

/-- Sequences of approximations approximate the sequence. -/
theorem bind {x y : Machine σ ε α} {f g : α → Machine σ ε β} (hx : Approx e x y)
    (hf : ∀ a, Approx e (f a) (g a)) : Approx e (x >>= f) (y >>= g) := by
  intro s
  rcases hrun : x s with ⟨_ | a, s'⟩
  · unfold GivesUp
    rw [bind_apply_error hrun]
    rcases hx s with hgive | hsame
    · rw [GivesUp, hrun] at hgive
      exact Or.inl (congrArg Except.error (Except.error.inj hgive))
    · rw [hrun] at hsame
      exact Or.inr (bind_apply_error hsame.symm).symm
  · have hsame : y s = (.ok a, s') := by
      refine (hx.eq_of_ne ?_).trans hrun
      rw [GivesUp, hrun]
      exact nofun
    unfold GivesUp
    rw [bind_apply_ok hrun, bind_apply_ok hsame]
    exact hf a s'

/-- After the same beginning only the rest matters. -/
theorem after (x : Machine σ ε α) {f g : α → Machine σ ε β} (hf : ∀ a, Approx e (f a) (g a)) :
    Approx e (x >>= f) (x >>= g) :=
  (refl x).bind hf

/-- Before the same rest only the beginning matters. -/
theorem before {x y : Machine σ ε α} (hx : Approx e x y) (f : α → Machine σ ε β) :
    Approx e (x >>= f) (y >>= f) :=
  hx.bind fun a => refl (f a)

/-- So do the branches of a conditional. -/
theorem ite {c : Prop} [Decidable c] {x x' y y' : Machine σ ε α} (hx : Approx e x x')
    (hy : Approx e y y') : Approx e (if c then x else y) (if c then x' else y') := by
  split
  · exact hx
  · exact hy

/-- So does a guarded program. -/
theorem when {c : Prop} [Decidable c] {x y : Machine σ ε Unit} (h : Approx e x y) :
    Approx e (Machine.when c x) (Machine.when c y) :=
  ite h (refl _)

/-- So does a program for each element of a list. -/
theorem forEach {ι : Type} {f g : ι → Machine σ ε Unit} (h : ∀ i, Approx e (f i) (g i))
    (items : List ι) : Approx e (Machine.forEach f items) (Machine.forEach g items) := by
  induction items with
  | nil => exact refl _
  | cons i rest ih => exact (h i).bind fun _ => ih

end Approx

/-- Steps that do the same at every state of their runs have the same runs. -/
theorem Run.of_eq {ι : Type} {step step' : ι → Machine σ ε Unit} {allowed : σ → ι → Prop}
    {start : σ} (hsame : ∀ s i, Run step allowed start s → allowed s i → step i s = step' i s)
    {s : σ} (h : Run step allowed start s) : Run step' allowed start s := by
  induction h with
  | start => exact .start
  | step hrun hallowed hs ih => exact ih.step hallowed ((hsame _ _ hrun hallowed).symm.trans hs)

end Machine
