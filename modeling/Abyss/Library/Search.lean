import Mathlib.Data.List.Infix

/-!
# Searching for strings

A string occurs in another one behind some of its characters, and the first occurrence is behind
the fewest. The first occurrence may be replaced, to one result only.
-/

namespace Search

variable {α : Type}

/-! ## Replacing -/

/-- A string whose first occurrence of another string is replaced; a copy if there is none. -/
inductive ReplacesFirst (s t r : List α) : List α → Prop where
  | copy (h : ¬t <:+: s) : ReplacesFirst s t r s
  | replace (before after : List α) (h : s = before ++ t ++ after)
      (hfirst : ∀ init rest, s = init ++ t ++ rest → before.length ≤ init.length) :
      ReplacesFirst s t r (before ++ r ++ after)

/-- Only one string is a string with its first occurrence replaced. -/
theorem ReplacesFirst.unique {s t r out out' : List α} (h : ReplacesFirst s t r out)
    (h' : ReplacesFirst s t r out') : out = out' := by
  cases h with
  | copy hmiss =>
    cases h' with
    | copy => rfl
    | replace before after hs => exact absurd ⟨before, after, hs.symm⟩ hmiss
  | replace before after hs hfirst =>
    cases h' with
    | copy hmiss => exact absurd ⟨before, after, hs.symm⟩ hmiss
    | replace before' after' hs' hfirst' =>
      have hlen : before.length = before'.length :=
        Nat.le_antisymm (hfirst _ _ hs') (hfirst' _ _ hs)
      have heq : before ++ (t ++ after) = before' ++ (t ++ after') := by
        rw [← List.append_assoc, ← hs, ← List.append_assoc, ← hs']
      obtain ⟨rfl, hrest⟩ := List.append_inj heq hlen
      rw [List.append_cancel_left hrest]

/-! ## The first occurrence -/

variable [DecidableEq α]

/-- `strstr`: where a string occurs in another one for the first time. -/
def strstr : List α → List α → Option ℕ
  | [], t => if t <+: [] then some 0 else none
  | c :: s, t => if t <+: c :: s then some 0 else (strstr s t).map (· + 1)

section Strstr

variable {s t r : List α} {i : ℕ}

/-- A string that is found occurs there, and not before. -/
theorem strstr_eq_some (h : strstr s t = some i) :
    i ≤ s.length ∧ t <+: s.drop i ∧ ∀ j < i, ¬t <+: s.drop j := by
  induction s generalizing i with
  | nil =>
    rw [strstr] at h
    split at h
    · obtain rfl := Option.some.inj h
      exact ⟨Nat.le_refl _, ‹_›, fun j hj => absurd hj (Nat.not_lt_zero j)⟩
    · cases h
  | cons c s ih =>
    rw [strstr] at h
    split at h
    · obtain rfl := Option.some.inj h
      exact ⟨Nat.zero_le _, ‹_›, fun j hj => absurd hj (Nat.not_lt_zero j)⟩
    · rename_i hmiss
      obtain ⟨j, hj, rfl⟩ := Option.map_eq_some_iff.mp h
      obtain ⟨hle, hoccurs, hbefore⟩ := ih hj
      refine ⟨Nat.succ_le_succ hle, hoccurs, fun k hk => ?_⟩
      cases k with
      | zero => exact hmiss
      | succ k => exact hbefore k (Nat.lt_of_succ_lt_succ hk)

/-- A string that is not found does not occur. -/
theorem strstr_eq_none (h : strstr s t = none) : ¬t <:+: s := by
  induction s with
  | nil =>
    rw [strstr] at h
    split at h
    · cases h
    · rename_i hmiss
      rw [List.infix_nil]
      rintro rfl
      exact hmiss (List.prefix_refl [])
  | cons c s ih =>
    rw [strstr] at h
    split at h
    · cases h
    · rename_i hmiss
      rw [List.infix_cons_iff]
      rintro (hpre | hinfix)
      · exact hmiss hpre
      · exact ih (Option.map_eq_none_iff.mp h) hinfix

/-- A string is found at the start exactly if it is a prefix. -/
theorem strstr_eq_zero_iff : strstr s t = some 0 ↔ t <+: s := by
  constructor
  · intro h
    exact (strstr_eq_some h).2.1
  · intro h
    cases s with
    | nil => exact if_pos h
    | cons c s => exact if_pos h

/-- The first occurrence is replaced by what is put between the characters before it and those
behind it. -/
theorem ReplacesFirst.of_strstr (h : strstr s t = some i) (r : List α) :
    ReplacesFirst s t r (s.take i ++ r ++ s.drop (i + t.length)) := by
  obtain ⟨hle, ⟨rest, hrest⟩, hbefore⟩ := strstr_eq_some h
  have hafter : s.drop (i + t.length) = rest := by
    rw [← List.drop_drop, ← hrest, List.drop_left]
  rw [hafter]
  refine .replace _ _ ?_ fun init rest' hinit => ?_
  · rw [List.append_assoc, hrest, List.take_append_drop]
  · rw [List.length_take_of_le hle]
    refine Nat.le_of_not_lt fun hlt => hbefore _ hlt ?_
    rw [hinit, List.append_assoc, List.drop_left]
    exact List.prefix_append ..

end Strstr

end Search
