import Mathlib.Data.List.Nodup
import Mathlib.Logic.Function.Basic

/-!
# Singly linked lists in a heap

A heap maps the addresses that are in use to cells, each with a value and a link to the next
cell. A link holds a list of cells if following it visits these cells and then ends; such a list
is unique and visits no cell twice, and it survives all changes of other cells. A cell that is
still linked but not in use any more leaves the link without any list.
-/

namespace LinkedList

variable {α : Type}

/-- A value and the link to the next cell. -/
structure Cell (α : Type) where
  next : Option ℕ
  value : α

/-- The cells in use, by their address. -/
abbrev Heap (α : Type) := ℕ → Option (Cell α)

/-- From a link on, the heap holds the given cells, each linked to the next one. -/
def Holds (heap : Heap α) : Option ℕ → List (ℕ × α) → Prop
  | link, [] => link = none
  | link, (r, a) :: rest => link = some r ∧ ∃ next, heap r = some ⟨next, a⟩ ∧ Holds heap next rest

section Holds

variable {heap heap' : Heap α} {link : Option ℕ} {items items' : List (ℕ × α)}

/-- A list only depends on its own cells. -/
theorem Holds.congr (h : Holds heap link items) (hsame : ∀ p ∈ items, heap' p.1 = heap p.1) :
    Holds heap' link items := by
  induction items generalizing link with
  | nil => exact h
  | cons p rest ih =>
    obtain ⟨hlink, next, hcell, hrest⟩ := h
    rw [List.forall_mem_cons] at hsame
    exact ⟨hlink, next, hsame.1.trans hcell, ih hrest hsame.2⟩

/-- A link holds one list at most. -/
theorem Holds.unique (h : Holds heap link items) (h' : Holds heap link items') :
    items = items' := by
  induction items generalizing link items' with
  | nil =>
    cases items' with
    | nil => rfl
    | cons p rest => exact absurd (h.symm.trans h'.1) nofun
  | cons p rest ih =>
    obtain ⟨hlink, next, hcell, hrest⟩ := h
    cases items' with
    | nil => exact absurd (h'.symm.trans hlink) nofun
    | cons p' rest' =>
      obtain ⟨hlink', next', hcell', hrest'⟩ := h'
      have haddress : p.1 = p'.1 := Option.some.inj (hlink.symm.trans hlink')
      have hsame : (⟨next, p.2⟩ : Cell α) = ⟨next', p'.2⟩ := by
        rw [haddress] at hcell
        exact Option.some.inj (hcell.symm.trans hcell')
      obtain ⟨rfl, hvalue⟩ := Cell.mk.injEq .. ▸ hsame
      rw [ih hrest hrest', show p = p' from Prod.ext haddress hvalue]

/-- Each cell of a list holds a list that is not longer. -/
theorem Holds.suffix (h : Holds heap link items) {r : ℕ} (hr : r ∈ items.map Prod.fst) :
    ∃ rest, rest.length ≤ items.length ∧ Holds heap (some r) rest := by
  induction items generalizing link with
  | nil => cases hr
  | cons first rest ih =>
    obtain ⟨hlink, next, hcell, hrest⟩ := h
    rcases List.mem_cons.mp hr with rfl | hr
    · exact ⟨first :: rest, Nat.le_refl _, rfl, next, hcell, hrest⟩
    · obtain ⟨suffix, hlen, hsuffix⟩ := ih hrest hr
      exact ⟨suffix, Nat.le_succ_of_le hlen, hsuffix⟩

/-- A list visits no cell twice, since each cell says how the list goes on. -/
theorem Holds.nodup (h : Holds heap link items) : (items.map Prod.fst).Nodup := by
  induction items generalizing link with
  | nil => exact List.nodup_nil
  | cons first rest ih =>
    obtain ⟨hlink, next, hcell, hrest⟩ := h
    refine List.nodup_cons.mpr ⟨fun hr => ?_, ih hrest⟩
    obtain ⟨suffix, hlen, hsuffix⟩ := hrest.suffix hr
    have hsame : suffix = first :: rest :=
      hsuffix.unique ⟨rfl, next, hcell, hrest⟩
    rw [hsame, List.length_cons] at hlen
    omega

/-- Linking a new cell from the last one appends it. -/
theorem Holds.snoc {init : List (ℕ × α)} {last r : ℕ} {a b : α}
    (h : Holds heap link (init ++ [(last, a)])) (hsame : ∀ p ∈ init, heap' p.1 = heap p.1)
    (hlast : heap' last = some ⟨some r, a⟩) (hnew : heap' r = some ⟨none, b⟩) :
    Holds heap' link (init ++ [(last, a), (r, b)]) := by
  induction init generalizing link with
  | nil => exact ⟨h.1, some r, hlast, rfl, none, hnew, rfl⟩
  | cons p rest ih =>
    obtain ⟨hlink, next, hcell, hrest⟩ := h
    rw [List.forall_mem_cons] at hsame
    exact ⟨hlink, next, hsame.1.trans hcell, ih hrest hsame.2⟩

/-- A link that leads to a cell not in use any more holds no list. -/
theorem Holds.dangling {init rest : List (ℕ × α)} {x y : ℕ} {a b : α}
    (h : Holds heap link (init ++ (x, a) :: (y, b) :: rest))
    (hsame : ∀ p ∈ init ++ [(x, a)], heap' p.1 = heap p.1) (hgone : heap' y = none) :
    ¬Holds heap' link items' := by
  induction init generalizing link items' with
  | nil =>
    obtain ⟨hlink, next, hcell, hnext, -⟩ := h
    intro h'
    cases items' with
    | nil => exact absurd (h'.symm.trans hlink) nofun
    | cons p rest' =>
      obtain ⟨hlink', next', hcell', hrest'⟩ := h'
      have hp : x = p.1 := Option.some.inj (hlink.symm.trans hlink')
      have hx : heap' x = heap x := hsame (x, a) List.mem_cons_self
      rw [← hp, hx, hcell] at hcell'
      have hnext' : next = next' := congrArg Cell.next (Option.some.inj hcell')
      rw [← hnext', hnext] at hrest'
      cases rest' with
      | nil => cases hrest'
      | cons q rest'' =>
        obtain ⟨hq, next'', hcell'', -⟩ := hrest'
        rw [← Option.some.inj hq, hgone] at hcell''
        cases hcell''
  | cons first rest ih =>
    obtain ⟨hlink, next, hcell, hrest⟩ := h
    rw [List.cons_append, List.forall_mem_cons] at hsame
    intro h'
    cases items' with
    | nil => exact absurd (h'.symm.trans hlink) nofun
    | cons p rest' =>
      obtain ⟨hlink', next', hcell', hrest'⟩ := h'
      have hp : first.1 = p.1 := Option.some.inj (hlink.symm.trans hlink')
      rw [← hp, hsame.1, hcell] at hcell'
      have hnext : next = next' := congrArg Cell.next (Option.some.inj hcell')
      exact ih hrest hsame.2 (hnext ▸ hrest')

end Holds
end LinkedList
