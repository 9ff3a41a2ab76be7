import Mathlib.Data.List.Pairwise
import Mathlib.Data.List.Basic
import Mathlib.Order.Defs.Unbundled

/-!
# Lists with the deepest elements first

The elements of a list contain each other in a transitive relation, and no element contains one
that follows it. A new element keeps this order behind the last element that it contains, or at
the start if there is none. If the elements that contain a given one contain each other, the
first of them is the deepest one.
-/

namespace DeepestFirst

variable {α : Type} {r : α → α → Prop} {a x : α} {l init rest : List α}

/-- No element contains one that follows it. -/
def Ordered (r : α → α → Prop) (l : List α) : Prop := l.Pairwise fun a b => ¬r a b

/-- A part of an ordered list is ordered. -/
theorem Ordered.sublist {l' : List α} (h : Ordered r l) (hsub : l'.Sublist l) : Ordered r l' :=
  List.Pairwise.sublist hsub h

/-- At the start there is an element that contains none of the others. -/
theorem Ordered.cons (h : Ordered r l) (hx : ∀ b ∈ l, ¬r x b) : Ordered r (x :: l) :=
  List.pairwise_cons.mpr ⟨hx, h⟩

section Trans

variable [IsTrans α r]

/-- Behind the last element that is contained there is room for the one that contains it. -/
theorem Ordered.insertAfter (h : Ordered r (init ++ a :: rest)) (hcontains : r x a)
    (hne : ¬r a x) (hrest : ∀ b ∈ rest, ¬r x b) : Ordered r (init ++ a :: x :: rest) := by
  unfold Ordered at h ⊢
  rw [List.pairwise_append, List.pairwise_cons] at h
  obtain ⟨hinit, ⟨ha, htail⟩, hcross⟩ := h
  rw [List.pairwise_append, List.pairwise_cons, List.pairwise_cons]
  refine ⟨hinit, ⟨?_, hrest, htail⟩, ?_⟩
  · intro b hb
    rcases List.mem_cons.mp hb with rfl | hb
    · exact hne
    · exact ha b hb
  · intro c hc b hb
    rcases List.mem_cons.mp hb with rfl | hb
    · exact hcross c hc b (List.mem_cons_self ..)
    · rcases List.mem_cons.mp hb with rfl | hb
      · -- What contains the new element contains what it contains.
        exact fun hcb => hcross c hc a (List.mem_cons_self ..) (IsTrans.trans _ _ _ hcb hcontains)
      · exact hcross c hc b (List.mem_cons_of_mem _ hb)

/-- An element may be replaced by one that it contains and that contains it. -/
theorem Ordered.replace (h : Ordered r (init ++ a :: rest)) (hxa : r x a) (hax : r a x) :
    Ordered r (init ++ x :: rest) := by
  unfold Ordered at h ⊢
  rw [List.pairwise_append, List.pairwise_cons] at h ⊢
  obtain ⟨hinit, ⟨ha, htail⟩, hcross⟩ := h
  refine ⟨hinit, ⟨fun b hb hxb => ha b hb (IsTrans.trans _ _ _ hax hxb), htail⟩, ?_⟩
  intro c hc b hb
  rcases List.mem_cons.mp hb with rfl | hb
  · exact fun hcb => hcross c hc a (List.mem_cons_self ..) (IsTrans.trans _ _ _ hcb hxa)
  · exact hcross c hc b (List.mem_cons_of_mem _ hb)

end Trans

/-- The first element of a chain is contained in every other one. -/
theorem Ordered.find?_deepest {p : α → Bool} (h : Ordered r l)
    (hchain : ∀ a b, p a = true → p b = true → r a b ∨ r b a) (hfind : l.find? p = some a) :
    ∀ b ∈ l, p b = true → r b a := by
  intro b hb hpb
  obtain ⟨hpa, init, rest, rfl, hinit⟩ := List.find?_eq_some_iff_append.mp hfind
  unfold Ordered at h
  rw [List.pairwise_append, List.pairwise_cons] at h
  rcases List.mem_append.mp hb with hb | hb
  · exact absurd hpb (by simpa using hinit b hb)
  · rcases List.mem_cons.mp hb with rfl | hb
    · exact (hchain b b hpb hpb).elim id id
    · exact (hchain b a hpb hpa).resolve_right (h.2.1.1 b hb)

end DeepestFirst
