import Mathlib.Data.Finset.Card
import Mathlib.Order.Interval.Finset.Nat

/-!
# Counted references

The first `n` nodes may each refer to one target, and a target is used as often as nodes refer
to it. Setting a free reference adds one use of its target, clearing it takes one away, and a
list that names every referring node once counts the uses.
-/

namespace RefCount

variable {n : ℕ} {target target' : ℕ → Option ℕ} {p q : ℕ}

/-- The nodes that refer to a target. -/
def referrers (n : ℕ) (target : ℕ → Option ℕ) (p : ℕ) : Finset ℕ :=
  (Finset.range n).filter fun r => target r = some p

/-- How often a target is used. -/
def uses (n : ℕ) (target : ℕ → Option ℕ) (p : ℕ) : ℕ := (referrers n target p).card

/-- A referrer is one of the first objects, and points to the target. -/
theorem mem_referrers : q ∈ referrers n target p ↔ q < n ∧ target q = some p := by
  simp [referrers]

/-- Only the references of the first `n` nodes count. -/
theorem uses_congr (h : ∀ r < n, target' r = target r) (p : ℕ) :
    uses n target' p = uses n target p := by
  unfold uses referrers
  congr 1
  refine Finset.filter_congr fun r hr => ?_
  rw [h r (Finset.mem_range.mp hr)]

/-- A target that a node refers to is used. -/
theorem uses_pos (hq : q < n) (h : target q = some p) : 0 < uses n target p :=
  Finset.card_pos.mpr ⟨q, mem_referrers.mpr ⟨hq, h⟩⟩

/-- A target is not used if no node refers to it. -/
theorem uses_eq_zero (h : ∀ r < n, target r ≠ some p) : uses n target p = 0 :=
  Finset.card_eq_zero.mpr (Finset.filter_eq_empty_iff.mpr fun r hr => h r (Finset.mem_range.mp hr))

/-- Setting a free reference adds a use of its target. -/
theorem uses_link (hq : q < n) (hfree : target q = none) (hset : target' q = some p)
    (hsame : ∀ r, r ≠ q → target' r = target r) (p' : ℕ) :
    uses n target' p' = uses n target p' + if p' = p then 1 else 0 := by
  by_cases hp : p' = p
  · subst hp
    have hinsert : referrers n target' p' = insert q (referrers n target p') := by
      ext r
      simp only [Finset.mem_insert, mem_referrers]
      by_cases hr : r = q
      · subst hr
        simp [hq, hset]
      · simp [hr, hsame r hr]
    have hnot : q ∉ referrers n target p' := by
      simp [mem_referrers, hfree]
    rw [uses, hinsert, Finset.card_insert_of_notMem hnot, if_pos rfl]
    rfl
  · rw [if_neg hp, Nat.add_zero]
    unfold uses referrers
    congr 1
    refine Finset.filter_congr fun r _ => ?_
    by_cases hr : r = q
    · subst hr
      simp [hset, hfree, Ne.symm hp]
    · rw [hsame r hr]

/-- Clearing a reference takes away a use of its target. -/
theorem uses_unlink (hq : q < n) (hset : target q = some p) (hfree : target' q = none)
    (hsame : ∀ r, r ≠ q → target' r = target r) (p' : ℕ) :
    uses n target p' = uses n target' p' + if p' = p then 1 else 0 :=
  uses_link hq hfree hset (fun r hr => (hsame r hr).symm) p'

/-- A new node that refers to nothing adds no use. -/
theorem uses_succ (h : target n = none) (p : ℕ) : uses (n + 1) target p = uses n target p := by
  unfold uses referrers
  rw [Finset.range_add_one, Finset.filter_insert, if_neg (by simp [h])]

/-- A list that names each referring node once counts the uses. -/
theorem countP_eq_uses {nodes : List ℕ} (hnodup : nodes.Nodup)
    (hmem : ∀ r, target r = some p → (r ∈ nodes ↔ r < n)) :
    nodes.countP (fun r => target r = some p) = uses n target p := by
  have hset : (nodes.filter fun r => target r = some p).toFinset = referrers n target p := by
    ext r
    simp only [List.mem_toFinset, List.mem_filter, decide_eq_true_eq, mem_referrers]
    constructor
    · rintro ⟨hr, htarget⟩
      exact ⟨(hmem r htarget).mp hr, htarget⟩
    · rintro ⟨hr, htarget⟩
      exact ⟨(hmem r htarget).mpr hr, htarget⟩
  rw [List.countP_eq_length_filter, uses, ← hset,
    List.toFinset_card_of_nodup (hnodup.filter _)]

end RefCount
