import Mathlib.Logic.Basic
import Mathlib.Data.List.Basic

/-!
# Programs that may fail

Inversion of a successful run: what the parts of a program returned when the whole returned.
The lemmas are stated for `Except` and read from left to right, so that a hypothesis about a
`do` block turns into the results of its statements.
-/

namespace Outcome

universe u v w

variable {ε : Type u} {α β : Type v}

/-- A sequence goes on from what its first part returned. -/
theorem ok_bind (a : α) (f : α → Except ε β) : (.ok a >>= f) = f a := rfl

/-- A sequence succeeds when its first part does and the rest does on its result. -/
theorem bind_ok_iff {x : Except ε α} {f : α → Except ε β} {b : β} :
    (x >>= f) = .ok b ↔ ∃ a, x = .ok a ∧ f a = .ok b := by
  cases x <;> simp [bind, Except.bind]

/-- A pure program returns its value. -/
theorem pure_ok_iff {a b : α} : (pure a : Except ε α) = .ok b ↔ a = b := by
  simp [pure, Except.pure]

/-- A conditional program succeeds in the branch that it takes. -/
theorem ite_ok_iff {c : Prop} [Decidable c] {x y : Except ε α} {b : α} :
    (if c then x else y) = .ok b ↔ (c ∧ x = .ok b) ∨ (¬c ∧ y = .ok b) := by
  by_cases h : c <;> simp [h]

/-- A program guarded by an error check succeeds past the check. -/
theorem guard_ok_iff {c : Prop} [Decidable c] {e : ε} {x : Except ε α} {b : α} :
    (if c then .error e else x) = .ok b ↔ ¬c ∧ x = .ok b := by
  by_cases h : c <;> simp [h]

/-- A fold whose steps all act as `step` under the invariant is the fold of `step`. -/
theorem foldlM_ok_invariant {ι : Type w} {f : α → ι → Except ε α} {items : List ι} {s t : α}
    (invariant : List ι → α → Prop) (hfold : items.foldlM f s = .ok t) (hstart : invariant [] s)
    (hstep : ∀ before a s s', invariant before s → f s a = .ok s' → invariant (before ++ [a]) s') :
    invariant items t := by
  suffices h : ∀ before s, invariant before s → items.foldlM f s = .ok t →
      invariant (before ++ items) t by
    simpa using h [] s hstart hfold
  clear hstart hfold
  induction items with
  | nil =>
    intro before s hs hfold
    rw [List.foldlM_nil, pure_ok_iff] at hfold
    simpa [← hfold] using hs
  | cons a items ih =>
    intro before s hs hfold
    rw [List.foldlM_cons, bind_ok_iff] at hfold
    obtain ⟨s', hf, hrest⟩ := hfold
    simpa using ih (before ++ [a]) s' (hstep before a s s' hs hf) hrest

end Outcome
