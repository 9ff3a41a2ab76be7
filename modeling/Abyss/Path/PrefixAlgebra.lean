import Abyss.Path.Substitute

/-!
# The algebra of path prefixes

What a substitution means in terms of components: those of the new prefix stand before those that
remain behind the old one. The text that is put together spells these components if nothing is
kept of the path, or if there is one separator between the new prefix and what is kept: the one
at the end of the old prefix has to be made up for by one at the end of the new prefix.
-/

namespace Abyss.Paths

open Bytes CString Machine Separated
open Abyss.Execve (Path slash)

/-- A text is that of an absolute path of some components. -/
def Spells (text : Path) (components : List Path) : Prop :=
  ∃ p : AbsolutePath, p.components = components ∧ p.text = text

section Parts

variable (path old new : AbsolutePath)

/-- The components behind a prefix. -/
def remaining : List Path := path.components.drop old.components.length

/-- The path that a substitution stands for, with a separator at the end if the path has one. -/
def replaced : AbsolutePath where
  components := new.components ++ remaining path old
  trailing := path.trailing && !(new.components ++ remaining path old).isEmpty
  valid component h := (List.mem_append.mp h).elim (new.valid component)
    fun h => path.valid component (List.mem_of_mem_drop h)
  trailing_ne_root h hnil := by simp [hnil] at h

/-- The old prefix ends with a separator, which is not kept. -/
def oldSlash : Bool := if old.components = [] then decide (new.components = []) else old.trailing

end Parts

/-! ## The text of the parts -/

section Text

variable {path old new : AbsolutePath}

/-- Only other paths than the root end with a separator that is not needed. -/
theorem AbsolutePath.trailing_root {p : AbsolutePath} (h : p.components = []) :
    p.trailing = false := by
  by_contra htrailing
  exact p.trailing_ne_root (Bool.not_eq_false _ ▸ htrailing) h

/-- The new part is the stem, perhaps with a separator. -/
theorem newPart_eq (new : AbsolutePath) :
    newPart new = new.stem ++ if new.trailing then [slash] else [] := by
  unfold newPart AbsolutePath.text AbsolutePath.tail
  by_cases hnew : new.components = []
  · have hstem : new.stem = [] := render_eq_nil.mpr hnew
    rw [if_pos hnew, hstem, AbsolutePath.trailing_root hnew]
    rfl
  · rw [if_neg hnew]
    simp only [hnew, false_or]

/-- Behind the stem of a prefix there are the remaining components. -/
theorem text_eq_of_isPrefix (hpre : old.components <+: path.components) :
    path.text = old.stem ++ (render slash (remaining path old) ++ path.tail) := by
  obtain ⟨rest, hrest⟩ := hpre
  have hremaining : remaining path old = rest := by
    rw [remaining, ← hrest, List.drop_left]
  rw [AbsolutePath.text, AbsolutePath.stem, AbsolutePath.stem, ← List.append_assoc, hremaining,
    ← render_append, hrest]

/-- What follows the stem of a prefix starts with a separator. -/
theorem rest_eq_cons (components : List Path) {tail : Path} (htail : tail = [] ∨ tail = [slash])
    (hne : render slash components ++ tail ≠ []) :
    ∃ rest, render slash components ++ tail = slash :: rest := by
  cases components with
  | cons component components => exact ⟨_, rfl⟩
  | nil =>
    rcases htail with rfl | rfl
    · exact absurd rfl hne
    · exact ⟨[], rfl⟩

/-- What is kept, with the separator of the old prefix, spells the remaining components. -/
theorem keptPart_eq (hpre : old.components <+: path.components)
    (hkept : keptPart path old new ≠ []) :
    (if oldSlash old new then [slash] else []) ++ keptPart path old new =
      render slash (remaining path old) ++ path.tail := by
  have htext := text_eq_of_isPrefix hpre
  unfold keptPart at hkept ⊢
  by_cases hbelow : old.components = [] ∧ new.components ≠ []
  · have hslash : oldSlash old new = false := by
      rw [oldSlash, if_pos hbelow.1]
      exact decide_eq_false hbelow.2
    have hstem : old.stem = [] := render_eq_nil.mpr hbelow.1
    rw [if_pos hbelow] at hkept ⊢
    rw [hstem, List.nil_append] at htext
    rw [hslash, if_neg fun h => hkept (if_pos h), htext]
    rfl
  · have hslash : (if oldSlash old new then [slash] else []) = old.tail := by
      unfold oldSlash AbsolutePath.tail
      by_cases hold : old.components = []
      · have hnew : new.components = [] := not_not.mp fun hnew => hbelow ⟨hold, hnew⟩
        rw [if_pos hold, decide_eq_true hnew, if_pos (Or.inl hold)]
        rfl
      · rw [if_neg hold]
        simp only [hold, false_or]
    have hdrop : path.text.drop old.text.length =
        (render slash (remaining path old) ++ path.tail).drop old.tail.length := by
      rw [htext, AbsolutePath.text, List.length_append, ← List.drop_drop, List.drop_left]
    rw [if_neg hbelow, hdrop] at hkept ⊢
    rw [hslash]
    have hne : render slash (remaining path old) ++ path.tail ≠ [] := by
      intro hnil
      rw [hnil] at hkept
      exact hkept List.drop_nil
    obtain ⟨rest, hrest⟩ := rest_eq_cons _ path.tail_cases hne
    rw [hrest]
    rcases old.tail_cases with htail | htail <;> rw [htail] <;> rfl

/-- Nothing is kept exactly if the path is as long as the old prefix. -/
theorem keptPart_eq_nil (hle : old.text.length ≤ path.text.length) :
    keptPart path old new = [] ↔ old.text.length = path.text.length := by
  unfold keptPart
  by_cases hbelow : old.components = [] ∧ new.components ≠ []
  · have hone := old.text_length_eq_one.mpr hbelow.1
    have hne : path.text ≠ [] := List.length_pos_iff.mp path.text_pos
    have hroot := path.text_length_eq_one
    rw [if_pos hbelow, hone, eq_comm (b := path.text.length), hroot]
    simp only [ite_eq_left_iff, hne, imp_false, not_not]
  · rw [if_neg hbelow, List.drop_eq_nil_iff]
    omega

/-! ## Which texts are spelled -/

/-- The stem and a separator at the end make up a path. -/
theorem spells_stem {components : List Path} {tail : Path}
    (hvalid : ∀ component ∈ components, IsComponent component) (htail : tail = [] ∨ tail = [slash])
    (hroot : components = [] → tail = [slash]) :
    Spells (render slash components ++ tail) components := by
  refine ⟨⟨components, decide (components ≠ [] ∧ tail = [slash]), hvalid, ?_⟩, rfl, ?_⟩
  · intro h
    exact (of_decide_eq_true h).1
  · unfold AbsolutePath.text AbsolutePath.stem AbsolutePath.tail
    congr 1
    simp only [decide_eq_true_eq]
    rcases htail with rfl | rfl
    · have hne : components ≠ [] := fun h => absurd (hroot h) (by decide)
      simp [hne]
    · by_cases hnil : components = []
      · simp [hnil]
      · simp [hnil]

/-- A separator too many is not made up for by the one at the end of the path. -/
theorem cons_rest_ne {components : List Path} {tail tail' : Path}
    (hslash : ∀ component ∈ components, slash ∉ component) (hnil : [] ∉ components)
    (htail : tail = [] ∨ tail = [slash]) (htail' : tail' = [] ∨ tail' = [slash])
    (hne : render slash components ++ tail ≠ []) :
    slash :: (render slash components ++ tail) ≠ render slash components ++ tail' := by
  intro heq
  have hlength := congrArg List.length heq
  rw [List.length_cons, List.length_append, List.length_append] at hlength
  rcases htail with rfl | rfl
  · rcases htail' with rfl | rfl
    · rw [List.length_nil] at hlength
      omega
    · rw [List.append_nil] at heq hne
      exact cons_render_ne (fun h => hne (render_eq_nil.mpr h)) hslash hnil heq
  · rcases htail' with rfl | rfl <;> simp at hlength
    omega

/-- Where the path is as long as the old prefix, no component remains. -/
theorem remaining_eq_nil (hpre : old.components <+: path.components)
    (hlength : old.text.length = path.text.length) : remaining path old = [] := by
  by_contra hne
  obtain ⟨component, rest, hcons⟩ := List.exists_cons_of_ne_nil hne
  have hmem : component ∈ path.components :=
    List.mem_of_mem_drop (hcons ▸ List.mem_cons_self .. : component ∈ remaining path old)
  have hpos := List.length_pos_iff.mpr (path.valid component hmem).ne_nil
  have htail : old.tail.length ≤ 1 := by
    rcases old.tail_cases with h | h <;> rw [h] <;> decide
  rw [text_eq_of_isPrefix hpre, hcons, AbsolutePath.text, render_cons] at hlength
  simp only [List.length_append, List.length_cons] at hlength
  omega

/-- Where nothing is kept the new part becomes the path. -/
theorem substituted_of_nil (hkept : keptPart path old new = []) :
    substituted path old new = new.text := by
  rw [substituted, hkept, List.append_nil, newPart]
  by_cases hnew : new.components = []
  · rw [if_pos hnew, if_pos rfl, AbsolutePath.text_root hnew]
  · rw [if_neg hnew, if_neg (List.length_pos_iff.mp new.text_pos)]

/-- What is put together spells the components exactly if there is one separator in between. -/
theorem spells_substituted_iff (hpre : old.components <+: path.components)
    (hle : old.text.length ≤ path.text.length) :
    Spells (substituted path old new) (new.components ++ remaining path old) ↔
      old.text.length = path.text.length ∨ new.trailing = oldSlash old new := by
  have hnone : keptPart path old new = [] ↔ old.text.length = path.text.length :=
    keptPart_eq_nil hle
  rw [← hnone]
  by_cases hkept : keptPart path old new = []
  · refine iff_of_true ⟨new, ?_, (substituted_of_nil hkept).symm⟩ (Or.inl hkept)
    rw [remaining_eq_nil hpre (hnone.mp hkept), List.append_nil]
  have hrest := keptPart_eq hpre hkept
  have hvalid : ∀ component ∈ new.components ++ remaining path old, IsComponent component :=
    (replaced path old new).valid
  have hslash : ∀ component ∈ remaining path old, slash ∉ component := fun component h =>
    path.slash_notMem component (List.mem_of_mem_drop h)
  have hnil : [] ∉ remaining path old := fun h => path.nil_notMem (List.mem_of_mem_drop h)
  have hfull : substituted path old new =
      new.stem ++ ((if new.trailing then [slash] else []) ++ keptPart path old new) := by
    rw [substituted, newPart_eq, List.append_assoc]
    exact if_neg fun h => hkept (List.append_eq_nil_iff.mp (List.append_eq_nil_iff.mp h).2).2
  have htext : ∀ p : AbsolutePath, p.components = new.components ++ remaining path old →
      p.text = new.stem ++ (render slash (remaining path old) ++ p.tail) := by
    intro p hp
    rw [AbsolutePath.text, AbsolutePath.stem, hp, render_append, List.append_assoc]
    rfl
  rw [hfull, or_iff_right hkept]
  constructor
  · rintro ⟨p, hcomponents, hp⟩
    rw [htext p hcomponents] at hp
    have hseam := List.append_cancel_left hp
    -- With a separator on one side only, there is one too many or too few.
    by_contra hne
    cases hnew : new.trailing <;> cases hold : oldSlash old new <;> rw [hnew, hold] at hne <;>
      rw [hnew] at hseam <;> rw [hold] at hrest
    · exact hne rfl
    · change _ = [] ++ keptPart path old new at hseam
      rw [List.nil_append] at hseam
      rw [← hseam] at hrest hkept
      exact cons_rest_ne hslash hnil p.tail_cases path.tail_cases hkept hrest
    · change [] ++ keptPart path old new = _ at hrest
      rw [List.nil_append] at hrest
      rw [hrest] at hseam hkept
      exact cons_rest_ne hslash hnil path.tail_cases p.tail_cases hkept hseam.symm
    · exact hne rfl
  · intro hseam
    rw [hseam, hrest, AbsolutePath.stem, ← List.append_assoc, ← render_append]
    refine spells_stem hvalid path.tail_cases fun hroot => ?_
    have hremaining : remaining path old = [] := (List.append_eq_nil_iff.mp hroot).2
    rw [hremaining] at hrest
    refine path.tail_cases.resolve_left fun htail => ?_
    rw [htail] at hrest
    exact hkept (List.append_eq_nil_iff.mp hrest).2

end Text

/-! ## What a substitution does -/

section Substitution

variable {cpu : Cpu} {path old new : AbsolutePath}

/-- The comparison says that a path is the other one or a prefix of it. -/
def SaysPrefix (old path : AbsolutePath) : Prop :=
  comparePaths2 old.text old.text.length path.text path.text.length = some .pathsAreEqual ∨
    comparePaths2 old.text old.text.length path.text path.text.length = some .path1IsPrefix

/-- The new components take the place of the old ones, or the path that does not fit is left. -/
def Substitutes (cpu : Cpu) (path old new : AbsolutePath) : Prop :=
  ∀ buffer, buffer.length = pathMax → Holds buffer 0 path.text →
    ∃ newLength buffer', substitutePathPrefix cpu old.text.length new.text new.text.length buffer =
        (.ok newLength, buffer') ∧
      ((∃ text, Spells text (new.components ++ remaining path old) ∧ newLength = text.length ∧
          Holds buffer' 0 text) ∨
        newLength = cpu.sizeT (-enametoolong) ∧ buffer' = buffer ∧
          pathMax ≤ (replaced path old new).text.length)

/-- The separators of the old and the new prefix are such that the substitution is right. -/
def SubstitutesWhen (path old new : AbsolutePath) : Prop :=
  old.text.length ≤ path.text.length ∧
    (TooLong path old new → pathMax ≤ (replaced path old new).text.length) ∧
      (¬TooLong path old new →
        old.text.length = path.text.length ∨ new.trailing = oldSlash old new)

/-- The comparison is that of the components. -/
theorem saysPrefix_iff : SaysPrefix old path ↔ old.components <+: path.components := by
  unfold SaysPrefix
  rw [comparePaths2_text, compareComponents]
  by_cases heq : old.components = path.components
  · rw [if_pos heq, heq]
    simp
  · rw [if_neg heq]
    by_cases hpre : old.components <+: path.components
    · simp [hpre]
    · rw [if_neg hpre]
      split_ifs <;> simp [hpre]

/-- A prefix is longer than the path by its separator at most. -/
theorem length_le_succ (hpre : old.components <+: path.components) :
    old.text.length ≤ path.text.length + 1 := by
  have htail : old.tail.length ≤ 1 := by
    rcases old.tail_cases with h | h <;> rw [h] <;> decide
  have hstem := old.length_le_of_isPrefix path hpre
  rw [AbsolutePath.text, AbsolutePath.text, List.length_append, List.length_append]
  omega

/-- A buffer for a path that fits. -/
theorem exists_holds (hpath : path.text.length < pathMax) :
    ∃ buffer, buffer.length = pathMax ∧ Holds buffer 0 path.text := by
  refine ⟨path.text ++ 0 :: List.replicate (pathMax - path.text.length - 1) 0, ?_,
    holds_append path.text_zero [] _⟩
  rw [List.length_append, List.length_cons, List.length_replicate]
  omega

/-- The code that is returned is not a length. -/
theorem pathMax_le_enametoolong (cpu : Cpu) : pathMax ≤ cpu.sizeT (-enametoolong) := by
  cases cpu <;> decide

/-- The substitution is right exactly under its condition. -/
theorem substitutes_iff (hpath : path.text.length < pathMax) (hnew : new.text.length < pathMax)
    (hpre : old.components <+: path.components) :
    Substitutes cpu path old new ↔ SubstitutesWhen path old new := by
  constructor
  · intro h
    obtain ⟨buffer, hbuffer, hholds⟩ := exists_holds hpath
    obtain ⟨newLength, buffer', hrun, houtcome⟩ := h buffer hbuffer hholds
    have hle : old.text.length ≤ path.text.length := by
      by_contra hlong
      have hone := length_le_succ hpre
      rw [substitutePathPrefix_error hholds hbuffer (by omega)] at hrun
      cases (Prod.ext_iff.mp hrun).1
    refine ⟨hle, fun hlong => ?_, fun hfits => ?_⟩
    · rw [substitutePathPrefix_tooLong hholds hbuffer hnew hlong hle, Prod.mk.injEq,
        Except.ok.injEq] at hrun
      obtain ⟨rfl, rfl⟩ := hrun
      rcases houtcome with ⟨text, -, hlength, htext⟩ | ⟨-, -, hmax⟩
      · have hlt := htext.lt
        have hcode := pathMax_le_enametoolong cpu
        omega
      · exact hmax
    · obtain ⟨buffer₁, hrun₁, hholds₁⟩ := substitutePathPrefix_apply hholds hbuffer hnew hfits hle
      rw [hrun₁, Prod.mk.injEq, Except.ok.injEq] at hrun
      obtain ⟨rfl, rfl⟩ := hrun
      rcases houtcome with ⟨text, hspells, -, htext⟩ | ⟨hlength, rfl, -⟩
      · have heq : text = substituted path old new := htext.stringAt.symm.trans hholds₁.stringAt
        exact (spells_substituted_iff hpre hle).mp (heq ▸ hspells)
      · have hlt := hholds₁.lt
        have hcode := pathMax_le_enametoolong cpu
        omega
  · rintro ⟨hle, hlong, hseam⟩ buffer hbuffer hholds
    by_cases hfits : TooLong path old new
    · exact ⟨_, _, substitutePathPrefix_tooLong hholds hbuffer hnew hfits hle,
        Or.inr ⟨rfl, rfl, hlong hfits⟩⟩
    · obtain ⟨buffer', hrun, hholds'⟩ := substitutePathPrefix_apply hholds hbuffer hnew hfits hle
      exact ⟨_, _, hrun,
        Or.inl ⟨_, (spells_substituted_iff hpre hle).mpr (hseam hfits), rfl, hholds'⟩⟩

end Substitution

/-- The comparison is that of the components, and where it finds a prefix the substitution is
right exactly if the separators at the end of the prefixes fit together. -/
theorem prefixAlgebra_iff (cpu : Cpu) (path old new : AbsolutePath)
    (hpath : path.text.length < pathMax) (hnew : new.text.length < pathMax) :
    (comparePaths2 old.text old.text.length path.text path.text.length =
          some (compareComponents old.components path.components) ∧
        (SaysPrefix old path → Substitutes cpu path old new)) ↔
      (old.components <+: path.components → SubstitutesWhen path old new) := by
  rw [saysPrefix_iff]
  constructor
  · rintro ⟨-, h⟩ hpre
    exact (substitutes_iff hpath hnew hpre).mp (h hpre)
  · intro h
    exact ⟨comparePaths2_text old path,
      fun hpre => (substitutes_iff hpath hnew hpre).mpr (h hpre)⟩

/-- "/a" becomes "/c" in "/a/b". -/
theorem prefixAlgebra_iff_letters :
    Substitutes .arm64 (lettersPath [97, 98] (by decide)) (lettersPath [97] (by decide))
      (lettersPath [99] (by decide)) := by
  have hright := (prefixAlgebra_iff .arm64 (lettersPath [97, 98] (by decide))
    (lettersPath [97] (by decide)) (lettersPath [99] (by decide)) (by decide) (by decide)).mpr
    fun _ => ⟨by decide, fun hlong => absurd hlong.2 (by decide), fun _ => Or.inr rfl⟩
  exact hright.2 (Or.inr (by decide))

/-- "/" does not become "/" in "/a", which loses its separator. -/
theorem root_notSubstituted :
    ¬∀ (cpu : Cpu) (path old new : AbsolutePath), path.text.length < pathMax →
      new.text.length < pathMax → SaysPrefix old path → Substitutes cpu path old new := by
  intro h
  have hright := h .arm64 (lettersPath [97] (by decide)) (lettersPath [] (by decide))
    (lettersPath [] (by decide)) (by decide) (by decide) (saysPrefix_iff.mpr List.nil_prefix)
  have hwhen := (substitutes_iff (by decide) (by decide) List.nil_prefix).mp hright
  exact absurd (hwhen.2.2 fun hlong => hlong.1 rfl) (by decide)

end Abyss.Paths
