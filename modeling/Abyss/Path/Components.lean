import Abyss.Execve.Path
import Abyss.Library.CString
import Abyss.Library.Separated

/-!
# Paths and their components

An absolute path is a list of components, with a separator before each of them and perhaps one at
the end; the root is the path without components. The translation of `compare_paths2` compares
the texts of two paths, and is right about the prefix order of their components.
-/

namespace Abyss.Paths

open Bytes CString Separated
open Abyss.Execve (Path slash)

/-- The comparison of two paths. -/
inductive Comparison where
  | pathsAreEqual
  | path1IsPrefix
  | path2IsPrefix
  | pathsAreNotComparable
deriving DecidableEq

/-- A character of a string, its terminator included. -/
def charOf (path : Path) (i : ℕ) : Option Byte := (path ++ [0])[i]?

/-- The length of a path without its potential trailing separator. -/
def lengthWithoutTrailing (path : Path) (length : ℕ) : Option ℕ := do
  let last ← charOf path (length - 1)
  some (if last = slash then length - 1 else length)

/-- `compare_paths2`; there is no result where an assertion fails or a character is missing. -/
def comparePaths2 (path1 : Path) (length1 : ℕ) (path2 : Path) (length2 : ℕ) :
    Option Comparison :=
  if length1 = 0 ∨ length2 = 0 then none
  else do
    let length1 ← lengthWithoutTrailing path1 length1
    let length2 ← lengthWithoutTrailing path2 length2
    let lengthMin := if length1 < length2 then length1 else length2
    let sentinel ← charOf (if length1 < length2 then path2 else path1) lengthMin
    -- Optimize obvious cases.
    if sentinel ≠ slash ∧ sentinel ≠ 0 then some .pathsAreNotComparable
    else if ¬strncmpEq path1 path2 lengthMin then some .pathsAreNotComparable
    else if length1 = length2 then some .pathsAreEqual
    else if length1 < length2 then some .path1IsPrefix
    else some .path2IsPrefix

/-- `compare_paths`. -/
def comparePaths (path1 path2 : Path) : Option Comparison :=
  comparePaths2 path1 path1.length path2 path2.length

/-! ## Absolute paths -/

/-- A component of a path, other than "." and "..". -/
structure IsComponent (component : Path) : Prop where
  ne_nil : component ≠ []
  slash_notMem : slash ∉ component
  zero_notMem : (0 : Byte) ∉ component
  ne_dot : component ≠ [46]
  ne_dotDot : component ≠ [46, 46]

/-- An absolute path; all but the root may have a separator at the end. -/
structure AbsolutePath where
  components : List Path
  trailing : Bool
  valid : ∀ component ∈ components, IsComponent component
  trailing_ne_root : trailing = true → components ≠ []

/-- The components, each one behind a separator. -/
def AbsolutePath.stem (p : AbsolutePath) : Path := render slash p.components

/-- The separator at the end, which the root always has. -/
def AbsolutePath.tail (p : AbsolutePath) : Path :=
  if p.components = [] ∨ p.trailing = true then [slash] else []

/-- The string of a path. -/
def AbsolutePath.text (p : AbsolutePath) : Path := p.stem ++ p.tail

/-- A character that is neither a separator nor a terminator nor a dot is a component. -/
theorem isComponent_singleton {c : Byte} (h : c ≠ slash ∧ c ≠ 0 ∧ c ≠ 46) : IsComponent [c] where
  ne_nil := List.cons_ne_nil _ _
  slash_notMem hmem := h.1 (List.mem_singleton.mp hmem).symm
  zero_notMem hmem := h.2.1 (List.mem_singleton.mp hmem).symm
  ne_dot heq := h.2.2 (List.singleton_inj.mp heq)
  ne_dotDot heq := by simp at heq

/-- A path of letters without a separator at the end. -/
def lettersPath (letters : List Byte) (h : ∀ c ∈ letters, c ≠ slash ∧ c ≠ 0 ∧ c ≠ 46) :
    AbsolutePath where
  components := letters.map fun c => [c]
  trailing := false
  valid component hmem := by
    obtain ⟨c, hc, rfl⟩ := List.mem_map.mp hmem
    exact isComponent_singleton (h c hc)
  trailing_ne_root hfalse := by cases hfalse

/-- The prefix order of lists of components. -/
def compareComponents (components1 components2 : List Path) : Comparison :=
  if components1 = components2 then .pathsAreEqual
  else if components1 <+: components2 then .path1IsPrefix
  else if components2 <+: components1 then .path2IsPrefix
  else .pathsAreNotComparable

section Text

variable (p q : AbsolutePath)

/-- No component has a separator. -/
theorem AbsolutePath.slash_notMem : ∀ component ∈ p.components, slash ∉ component :=
  fun component h => (p.valid component h).slash_notMem

/-- No component is empty. -/
theorem AbsolutePath.nil_notMem : [] ∉ p.components := fun h => (p.valid [] h).ne_nil rfl

/-- Behind the components there is nothing, or a separator. -/
theorem AbsolutePath.tail_cases : p.tail = [] ∨ p.tail = [slash] := by
  unfold AbsolutePath.tail
  split
  · exact Or.inr rfl
  · exact Or.inl rfl

/-- The components have no terminator. -/
theorem AbsolutePath.stem_zero : (0 : Byte) ∉ p.stem := by
  unfold AbsolutePath.stem render
  rw [List.mem_flatMap]
  rintro ⟨component, hmem, h⟩
  rcases List.mem_cons.mp h with h | h
  · exact absurd h (by decide)
  · exact (p.valid component hmem).zero_notMem h

/-- The string of a path has no terminator in it. -/
theorem AbsolutePath.text_zero : (0 : Byte) ∉ p.text := by
  unfold AbsolutePath.text
  rw [List.mem_append, not_or]
  refine ⟨p.stem_zero, ?_⟩
  rcases p.tail_cases with h | h <;> rw [h] <;> decide

/-- The text is not empty. -/
theorem AbsolutePath.text_pos : 0 < p.text.length := by
  unfold AbsolutePath.text AbsolutePath.tail
  rw [List.length_append]
  split
  · simp
  · rename_i h
    rw [not_or] at h
    have hstem : p.stem ≠ [] := fun hnil => h.1 (render_eq_nil.mp hnil)
    have := List.length_pos_iff.mpr hstem
    omega

/-- Without the trailing separator the stem is left. -/
theorem AbsolutePath.lengthWithoutTrailing :
    lengthWithoutTrailing p.text p.text.length = some p.stem.length := by
  have hpos := p.text_pos
  have hread : charOf p.text (p.text.length - 1) = p.text.getLast? := by
    rw [charOf, List.getElem?_append_left (by omega), List.getLast?_eq_getElem?]
  unfold Paths.lengthWithoutTrailing
  rw [hread]
  unfold AbsolutePath.text
  rcases p.tail_cases with h | h
  · -- The last character belongs to a component.
    rw [h, List.append_nil]
    have hlast := render_getLast?_ne p.slash_notMem p.nil_notMem
    have hne : p.stem ≠ [] := by
      rintro hnil
      rw [AbsolutePath.text, h, hnil] at hpos
      exact absurd hpos (by decide)
    change (p.stem.getLast?.bind fun last => _) = _
    change p.stem.getLast? ≠ some slash at hlast
    rw [List.getLast?_eq_some_getLast hne] at hlast ⊢
    rw [Option.bind_some, if_neg fun heq => hlast (congrArg some heq)]
  · rw [h, List.getLast?_append_of_ne_nil _ (List.cons_ne_nil _ _)]
    simp

/-- A string starts with its stem. -/
theorem AbsolutePath.take_text {n : ℕ} (hn : n ≤ p.stem.length) :
    (p.text ++ [0]).take n = p.stem.take n := by
  rw [AbsolutePath.text, List.append_assoc, List.take_append_of_le_length hn]

/-- Within the stem a character is that of the stem. -/
theorem AbsolutePath.charOf_text {n : ℕ} (hn : n < p.stem.length) :
    charOf p.text n = some p.stem[n] := by
  rw [charOf, AbsolutePath.text, List.append_assoc, List.getElem?_append_left hn,
    List.getElem?_eq_getElem hn]

/-- Behind the stem there is a separator or the terminator. -/
theorem AbsolutePath.charOf_stem :
    charOf p.text p.stem.length = some slash ∨ charOf p.text p.stem.length = some 0 := by
  have hread : charOf p.text p.stem.length = (p.tail ++ [0])[0]? := by
    rw [charOf, AbsolutePath.text, List.append_assoc, List.getElem?_append_right (Nat.le_refl _),
      Nat.sub_self]
  rw [hread]
  rcases p.tail_cases with h | h <;> rw [h]
  · exact Or.inr rfl
  · exact Or.inl rfl

/-- A shorter stem belongs to a prefix exactly if the other one goes on with a separator. -/
theorem AbsolutePath.components_prefix_iff (hlt : p.stem.length < q.stem.length) :
    p.components <+: q.components ↔
      q.stem[p.stem.length] = slash ∧ p.stem = q.stem.take p.stem.length := by
  rw [← render_prefix_iff p.slash_notMem q.slash_notMem]
  change p.stem ++ [slash] <+: q.stem ++ [slash] ↔ _
  rw [List.prefix_iff_eq_take, List.length_append, List.length_singleton,
    List.take_append_of_le_length hlt, List.take_succ_eq_append_getElem hlt]
  constructor
  · intro heq
    obtain ⟨hstem, hlast⟩ := List.append_inj heq (by simp; omega)
    exact ⟨(List.singleton_inj.mp hlast).symm, hstem⟩
  · rintro ⟨hlast, hstem⟩
    rw [hlast, ← hstem]

/-- A longer path is no prefix. -/
theorem AbsolutePath.length_le_of_isPrefix (h : p.components <+: q.components) :
    p.stem.length ≤ q.stem.length := by
  have hle := ((render_prefix_iff p.slash_notMem q.slash_notMem).mpr h).length_le
  rw [List.length_append, List.length_append] at hle
  exact Nat.le_of_add_le_add_right hle

/-- The components can be read off from the stem. -/
theorem AbsolutePath.stem_inj : p.stem = q.stem ↔ p.components = q.components :=
  render_inj p.slash_notMem q.slash_notMem

/-- Paths whose stems have the same length are equal, or not comparable. -/
theorem compareComponents_same (hlen : p.stem.length = q.stem.length) :
    compareComponents p.components q.components =
      if p.stem = q.stem then .pathsAreEqual else .pathsAreNotComparable := by
  have hpre : ∀ {p q : AbsolutePath}, p.stem.length = q.stem.length →
      p.components <+: q.components → p.stem = q.stem := by
    intro p q hlen h
    have hstem := (render_prefix_iff p.slash_notMem q.slash_notMem).mpr h
    have heq := hstem.eq_of_length (by
      rw [List.length_append, List.length_append]
      exact congrArg (· + 1) hlen)
    exact List.append_cancel_right heq
  unfold compareComponents
  by_cases hstem : p.stem = q.stem
  · rw [if_pos hstem, if_pos ((p.stem_inj q).mp hstem)]
  · rw [if_neg hstem, if_neg fun h => hstem ((p.stem_inj q).mpr h),
      if_neg fun h => hstem (hpre hlen h), if_neg fun h => hstem (hpre hlen.symm h).symm]

/-- Of two stems of different length only the shorter one may belong to a prefix. -/
theorem compareComponents_shorter (hlt : p.stem.length < q.stem.length) :
    compareComponents p.components q.components =
        (if p.components <+: q.components then .path1IsPrefix else .pathsAreNotComparable) ∧
      compareComponents q.components p.components =
        if p.components <+: q.components then .path2IsPrefix else .pathsAreNotComparable := by
  have hne : p.components ≠ q.components := fun heq =>
    absurd (congrArg List.length ((AbsolutePath.stem_inj p q).mpr heq)) (Nat.ne_of_lt hlt)
  have hnot : ¬q.components <+: p.components := fun h =>
    Nat.not_le_of_lt hlt (q.length_le_of_isPrefix p h)
  unfold compareComponents
  rw [if_neg hne, if_neg (Ne.symm hne), if_neg hnot, if_neg hnot]
  exact ⟨rfl, rfl⟩

end Text

/-- The comparison of two texts is that of the components. -/
theorem comparePaths2_text (p q : AbsolutePath) :
    comparePaths2 p.text p.text.length q.text q.text.length =
      some (compareComponents p.components q.components) := by
  have hpos : ¬(p.text.length = 0 ∨ q.text.length = 0) := by
    have := p.text_pos
    have := q.text_pos
    omega
  have hnul : ∀ {r : AbsolutePath} {n : ℕ} (hn : n < r.stem.length), r.stem[n] ≠ 0 := by
    intro r n hn heq
    exact r.stem_zero (heq ▸ List.getElem_mem hn)
  rw [comparePaths2, if_neg hpos, p.lengthWithoutTrailing, q.lengthWithoutTrailing]
  simp only [Option.bind_eq_bind, Option.bind_some]
  rcases Nat.lt_trichotomy p.stem.length q.stem.length with hlt | heq | hgt
  · have hpre := p.components_prefix_iff q hlt
    have hcompare : strncmpEq p.text q.text p.stem.length ↔
        p.stem = q.stem.take p.stem.length := by
      rw [strncmpEq, p.take_text (Nat.le_refl _), q.take_text (Nat.le_of_lt hlt), List.take_length]
    rw [if_pos hlt, if_pos hlt, q.charOf_text hlt, (compareComponents_shorter p q hlt).1,
      Option.bind_some]
    by_cases hslash : q.stem[p.stem.length] = slash
    · rw [if_neg fun h => h.1 hslash]
      by_cases hstem : p.stem = q.stem.take p.stem.length
      · rw [if_neg (not_not_intro (hcompare.mpr hstem)), if_neg (Nat.ne_of_lt hlt), if_pos hlt,
          if_pos (hpre.mpr ⟨hslash, hstem⟩)]
      · rw [if_pos fun h => hstem (hcompare.mp h), if_neg fun h => hstem (hpre.mp h).2]
    · rw [if_pos ⟨hslash, hnul hlt⟩, if_neg fun h => hslash (hpre.mp h).1]
  · have hcompare : strncmpEq p.text q.text q.stem.length ↔ p.stem = q.stem := by
      rw [strncmpEq, p.take_text (Nat.le_of_eq heq.symm), q.take_text (Nat.le_refl _), ← heq,
        List.take_length, heq, List.take_length]
    have hsentinel : ∃ c, charOf p.text q.stem.length = some c ∧ ¬(c ≠ slash ∧ c ≠ 0) := by
      rw [← heq]
      rcases p.charOf_stem with h | h
      · exact ⟨slash, h, fun h => h.1 rfl⟩
      · exact ⟨0, h, fun h => h.2 rfl⟩
    obtain ⟨c, hread, hc⟩ := hsentinel
    rw [if_neg (by omega), if_neg (by omega), hread, compareComponents_same p q heq,
      Option.bind_some, if_neg hc]
    by_cases hstem : p.stem = q.stem
    · rw [if_neg (not_not_intro (hcompare.mpr hstem)), if_pos heq, if_pos hstem]
    · rw [if_pos fun h => hstem (hcompare.mp h), if_neg hstem]
  · have hpre := q.components_prefix_iff p hgt
    have hcompare : strncmpEq p.text q.text q.stem.length ↔
        q.stem = p.stem.take q.stem.length := by
      rw [strncmpEq, p.take_text (Nat.le_of_lt hgt), q.take_text (Nat.le_refl _), List.take_length,
        eq_comm]
    rw [if_neg (by omega), if_neg (by omega), p.charOf_text hgt,
      (compareComponents_shorter q p hgt).2, Option.bind_some]
    by_cases hslash : p.stem[q.stem.length] = slash
    · rw [if_neg fun h => h.1 hslash]
      by_cases hstem : q.stem = p.stem.take q.stem.length
      · rw [if_neg (not_not_intro (hcompare.mpr hstem)), if_neg (by omega), if_neg (by omega),
          if_pos (hpre.mpr ⟨hslash, hstem⟩)]
      · rw [if_pos fun h => hstem (hcompare.mp h), if_neg fun h => hstem (hpre.mp h).2]
    · rw [if_pos ⟨hslash, hnul hgt⟩, if_neg fun h => hslash (hpre.mp h).1]

end Abyss.Paths
