import Mathlib.Order.MinMax

/-!
# The hull of intervals

A half-open interval is given by its ends. The hull of a list of intervals is found by extending
an interval, which starts inside out, by one after the other: its ends are the least lower and
the greatest upper end. It has no point that is not between two of the intervals.
-/

namespace Hull

variable {α : Type} [LinearOrder α]

/-- A point lies in an interval. -/
def Contains (r : α × α) (a : α) : Prop := r.1 ≤ a ∧ a < r.2

/-- Extend an interval so that it covers another one. -/
def extend (r i : α × α) : α × α := (min r.1 i.1, max r.2 i.2)

/-- An interval covers all of a list, and its ends are ends of some of them. -/
structure IsHull (is : List (α × α)) (r : α × α) : Prop where
  covers : ∀ i ∈ is, r.1 ≤ i.1 ∧ i.2 ≤ r.2
  lower : ∃ i ∈ is, r.1 = i.1
  upper : ∃ i ∈ is, r.2 = i.2

section Fold

variable {is : List (α × α)} {r : α × α}

/-- An interval is only extended. -/
theorem foldl_extend_covers (is : List (α × α)) (r : α × α) :
    ((is.foldl extend r).1 ≤ r.1 ∧ r.2 ≤ (is.foldl extend r).2) ∧
      ∀ i ∈ is, (is.foldl extend r).1 ≤ i.1 ∧ i.2 ≤ (is.foldl extend r).2 := by
  induction is generalizing r with
  | nil => exact ⟨⟨le_rfl, le_rfl⟩, fun _ h => absurd h List.not_mem_nil⟩
  | cons i rest ih =>
    rw [List.foldl_cons]
    obtain ⟨⟨hlower, hupper⟩, hrest⟩ := ih (extend r i)
    refine ⟨⟨hlower.trans (min_le_left ..), (le_max_left ..).trans hupper⟩, ?_⟩
    intro j hj
    rcases List.mem_cons.mp hj with rfl | hj
    · exact ⟨hlower.trans (min_le_right ..), (le_max_right ..).trans hupper⟩
    · exact hrest j hj

/-- An end of the result is an end of what was extended or of an interval. -/
theorem foldl_extend_attained (is : List (α × α)) (r : α × α) :
    ((is.foldl extend r).1 = r.1 ∨ ∃ i ∈ is, (is.foldl extend r).1 = i.1) ∧
      ((is.foldl extend r).2 = r.2 ∨ ∃ i ∈ is, (is.foldl extend r).2 = i.2) := by
  induction is generalizing r with
  | nil => exact ⟨.inl rfl, .inl rfl⟩
  | cons i rest ih =>
    rw [List.foldl_cons]
    obtain ⟨hlower, hupper⟩ := ih (extend r i)
    constructor
    · rcases hlower with hlower | ⟨j, hj, hlower⟩
      · rcases min_choice r.1 i.1 with hmin | hmin
        · exact .inl (hlower.trans hmin)
        · exact .inr ⟨i, List.mem_cons_self, hlower.trans hmin⟩
      · exact .inr ⟨j, List.mem_cons_of_mem i hj, hlower⟩
    · rcases hupper with hupper | ⟨j, hj, hupper⟩
      · rcases max_choice r.2 i.2 with hmax | hmax
        · exact .inl (hupper.trans hmax)
        · exact .inr ⟨i, List.mem_cons_self, hupper.trans hmax⟩
      · exact .inr ⟨j, List.mem_cons_of_mem i hj, hupper⟩

/-- The hull is found from an interval whose ends are beyond those of all others. -/
theorem isHull_foldl_extend (hne : is ≠ []) (hout : ∀ i ∈ is, i.1 ≤ r.1 ∧ r.2 ≤ i.2) :
    IsHull is (is.foldl extend r) := by
  obtain ⟨-, hcovers⟩ := foldl_extend_covers is r
  obtain ⟨hlower, hupper⟩ := foldl_extend_attained is r
  obtain ⟨i, hi⟩ := List.exists_mem_of_ne_nil is hne
  refine ⟨hcovers, hlower.elim (fun heq => ⟨i, hi, ?_⟩) id,
    hupper.elim (fun heq => ⟨i, hi, ?_⟩) id⟩
  · exact le_antisymm (hcovers i hi).1 (heq ▸ (hout i hi).1)
  · exact le_antisymm (heq ▸ (hout i hi).2) (hcovers i hi).2

/-- A point of the hull lies in an interval, or after one and before another. -/
theorem IsHull.between (h : IsHull is r) {a : α} (ha : Contains r a) :
    (∃ i ∈ is, Contains i a) ∨ (∃ i ∈ is, i.2 ≤ a) ∧ ∃ j ∈ is, a < j.1 := by
  obtain ⟨i, hi, hlower⟩ := h.lower
  obtain ⟨j, hj, hupper⟩ := h.upper
  by_cases hia : a < i.2
  · exact .inl ⟨i, hi, hlower ▸ ha.1, hia⟩
  by_cases hja : j.1 ≤ a
  · exact .inl ⟨j, hj, hja, hupper ▸ ha.2⟩
  exact .inr ⟨⟨i, hi, not_lt.mp hia⟩, j, hj, not_le.mp hja⟩

end Fold

end Hull
