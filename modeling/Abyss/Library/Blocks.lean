import Mathlib.Data.List.Nodup
import Mathlib.Logic.Function.Basic

/-!
# Allocated blocks

Every allocation makes a block with an identity of its own, which is live until it is freed. The
identities of what was freed are kept, so that nothing was freed twice exactly if none of them occurs
twice.

A pointer to a kind of block survives an allocation, the end of a block of another kind, and a change
of a block that does not change its kind.
-/

/-- The blocks that were allocated, by their identities, and the history of those that were freed. -/
structure Blocks (β : Type) where
  next : ℕ
  content : ℕ → Option β
  freed : List ℕ

namespace Blocks

variable {β : Type}

/-- No block has been allocated. -/
def empty : Blocks β := ⟨0, fun _ => none, []⟩

/-- Allocate a block; its identity is the next one. -/
def alloc (s : Blocks β) (b : β) : Blocks β :=
  { s with next := s.next + 1, content := Function.update s.content s.next (some b) }

/-- Free a block. -/
def free (s : Blocks β) (i : ℕ) : Blocks β := { s with freed := i :: s.freed }

/-- Change what is in a block. -/
def write (s : Blocks β) (i : ℕ) (b : β) : Blocks β :=
  { s with content := Function.update s.content i (some b) }

/-- A live block with its content. -/
def Holds (s : Blocks β) (i : ℕ) (b : β) : Prop := s.content i = some b ∧ i ∉ s.freed

/-- A live block. -/
def Live (s : Blocks β) (i : ℕ) : Prop := ∃ b, s.Holds i b

/-- A pointer is null, or to a live block of a kind. -/
def Points (s : Blocks β) (kind : β → Prop) (p : Option ℕ) : Prop :=
  ∀ i, p = some i → ∃ b, s.Holds i b ∧ kind b

/-- Only blocks that were allocated have been freed, and none of them twice. -/
structure Sound (s : Blocks β) : Prop where
  bounded : ∀ i b, s.content i = some b → i < s.next
  freed_bounded : ∀ i ∈ s.freed, i < s.next
  once : s.freed.Nodup

variable {s : Blocks β} {i j : ℕ} {b b' : β} {kind : β → Prop} {p : Option ℕ}

/-- Nothing was freed yet. -/
theorem sound_empty : (empty : Blocks β).Sound := ⟨nofun, nofun, List.nodup_nil⟩

/-- A live block was allocated. -/
theorem Holds.lt (hs : s.Sound) (h : s.Holds i b) : i < s.next := hs.bounded i b h.1

/-- What a live block holds is determined. -/
theorem Holds.unique (h : s.Holds i b) (h' : s.Holds i b') : b = b' :=
  Option.some.inj (h.1.symm.trans h'.1)

/-- A freed block is not live. -/
theorem not_live_free : ¬(s.free i).Live i := fun ⟨_, h⟩ => h.2 List.mem_cons_self

/-! ## Allocation -/

/-- The next identity has never been used. -/
theorem Sound.alloc (hs : s.Sound) (b : β) : (s.alloc b).Sound := by
  refine ⟨fun i b' h => ?_, fun i hi => Nat.lt_succ_of_lt (hs.freed_bounded i hi), hs.once⟩
  by_cases hnext : i = s.next
  · exact hnext ▸ Nat.lt_succ_self _
  · have hold : s.content i = some b' := (Function.update_of_ne hnext _ _).symm.trans h
    exact Nat.lt_succ_of_lt (hs.bounded i b' hold)

/-- A new block is live. -/
theorem holds_alloc (hs : s.Sound) (b : β) : (s.alloc b).Holds s.next b :=
  ⟨Function.update_self .., fun h => Nat.lt_irrefl _ (hs.freed_bounded _ h)⟩

/-- Live blocks stay as they are. -/
theorem Holds.alloc (h : s.Holds i b) (hs : s.Sound) (b' : β) : (s.alloc b').Holds i b :=
  ⟨(Function.update_of_ne (Nat.ne_of_lt (h.lt hs)) _ _).trans h.1, h.2⟩

/-- A pointer survives an allocation. -/
theorem Points.alloc (h : s.Points kind p) (hs : s.Sound) (b : β) : (s.alloc b).Points kind p := by
  intro i hi
  obtain ⟨b', hb', hkind⟩ := h i hi
  exact ⟨b', hb'.alloc hs b, hkind⟩

/-- A pointer to a new block. -/
theorem points_alloc (hs : s.Sound) (hb : kind b) : (s.alloc b).Points kind (some s.next) := by
  rintro i ⟨⟩
  exact ⟨b, holds_alloc hs b, hb⟩

/-- The null pointer points to nothing. -/
theorem points_null : s.Points kind none := nofun

/-! ## The end of a block -/

/-- A live block has not been freed before. -/
theorem Sound.free (hs : s.Sound) (h : s.Live i) : (s.free i).Sound := by
  obtain ⟨b, hb⟩ := h
  have hlt : i < s.next := hb.lt hs
  refine ⟨hs.bounded, fun j hj => ?_, List.nodup_cons.mpr ⟨hb.2, hs.once⟩⟩
  rcases List.mem_cons.mp hj with rfl | hmem
  · exact hlt
  · exact hs.freed_bounded j hmem

/-- All other blocks stay live. -/
theorem Holds.free (h : s.Holds i b) (hne : i ≠ j) : (s.free j).Holds i b :=
  ⟨h.1, fun hmem => (List.mem_cons.mp hmem).elim hne h.2⟩

/-- A pointer to a kind of block survives the end of a block of another kind. -/
theorem Points.free (h : s.Points kind p) (hj : s.Holds j b) (hb : ¬kind b) :
    (s.free j).Points kind p := by
  intro i hi
  obtain ⟨b', hb', hkind⟩ := h i hi
  refine ⟨b', hb'.free ?_, hkind⟩
  rintro rfl
  exact hb (hb'.unique hj ▸ hkind)

/-! ## Changes of a block -/

/-- A change of a live block frees nothing. -/
theorem Sound.write (hs : s.Sound) (h : s.Live i) (b : β) : (s.write i b).Sound := by
  obtain ⟨b', hb'⟩ := h
  have hlt : i < s.next := hb'.lt hs
  refine ⟨fun j b'' hj => ?_, hs.freed_bounded, hs.once⟩
  by_cases hself : j = i
  · exact hself ▸ hlt
  · exact hs.bounded j b'' ((Function.update_of_ne hself _ _).symm.trans hj)

/-- A block holds what was written to it. -/
theorem Holds.write (h : s.Holds i b) (b' : β) : (s.write i b').Holds i b' :=
  ⟨Function.update_self .., h.2⟩

/-- All other blocks keep what they hold. -/
theorem Holds.write_other (h : s.Holds i b) (hne : i ≠ j) (b' : β) : (s.write j b').Holds i b :=
  ⟨(Function.update_of_ne hne _ _).trans h.1, h.2⟩

/-- A pointer to a kind of block survives a change that keeps the kind. -/
theorem Points.write (h : s.Points kind p) (hj : s.Holds j b) (hkind : kind b → kind b') :
    (s.write j b').Points kind p := by
  intro i hi
  obtain ⟨b'', hb'', hkind'⟩ := h i hi
  by_cases hself : i = j
  · subst i
    exact ⟨b', hj.write b', hkind (hb''.unique hj ▸ hkind')⟩
  · exact ⟨b'', hb''.write_other hself b', hkind'⟩

end Blocks
