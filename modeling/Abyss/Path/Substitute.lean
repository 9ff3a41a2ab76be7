import Abyss.Path.Components
import Abyss.Tracee.MemData

/-!
# Substituting the prefix of a path

The translation of `substitute_path_prefix`, which works on the buffer of the path with the lengths
of the old and the new prefix. Lengths are of type `size_t`, so a difference may wrap, and a copy of
such a length leaves the buffer. The roots are special cases, since their only separator is also
the one before the components that follow.
-/

namespace Abyss.Paths

open Bytes CString Machine Separated
open Abyss.Execve (Path slash)

/-- Terminate a path of a new length, which is returned. -/
def terminatePath (newLength : ℕ) : Machine (List Byte) Unit ℕ :=
  if newLength < pathMax then do
    store newLength 0
    pure newLength
  else fault ()

/-- `substitute_path_prefix`, in the buffer that is the state. -/
def substitutePathPrefix (cpu : Cpu) (oldPrefixLength : ℕ) (newPrefix : Path)
    (newPrefixLength : ℕ) : Machine (List Byte) Unit ℕ := do
  let path ← read
  let pathLength := (stringAt path 0).length
  if ¬(oldPrefixLength < pathMax ∧ newPrefixLength < pathMax) then fault ()
  else if newPrefixLength = 1 then do
    -- Special case: "/foo" becomes "/".
    let newLength := cpu.sizeT (pathLength - oldPrefixLength)
    if newLength ≠ 0 then do
      memmove 0 oldPrefixLength newLength
      terminatePath newLength
    else do
      store 0 slash
      terminatePath 1
  else if oldPrefixLength = 1 then do
    -- Special case: "/" becomes "/foo".
    let newLength := cpu.sizeT (newPrefixLength + pathLength)
    if newLength ≥ pathMax then pure (cpu.sizeT (-enametoolong))
    else if pathLength > 1 then do
      memmove newPrefixLength 0 pathLength
      memcpy 0 newPrefix newPrefixLength
      terminatePath newLength
    else do
      memcpy 0 newPrefix newPrefixLength
      terminatePath newPrefixLength
  else do
    let newLength := cpu.sizeT (pathLength - oldPrefixLength + newPrefixLength)
    if newLength ≥ pathMax then pure (cpu.sizeT (-enametoolong))
    else do
      memmove newPrefixLength oldPrefixLength (cpu.sizeT (pathLength - oldPrefixLength))
      memcpy 0 newPrefix newPrefixLength
      terminatePath newLength

/-! ## What is put together -/

section Parts

variable (path old new : AbsolutePath)

/-- What is kept of the path behind the old prefix; all of it, where "/" becomes "/foo". -/
def keptPart : Path :=
  if old.components = [] ∧ new.components ≠ [] then
    if path.components = [] then [] else path.text
  else path.text.drop old.text.length

/-- What is put before it; nothing, where "/foo" becomes "/". -/
def newPart : Path := if new.components = [] then [] else new.text

/-- The path that is put together. -/
def substituted : Path :=
  if newPart new ++ keptPart path old new = [] then [slash]
  else newPart new ++ keptPart path old new

/-- The length that is tested against the limit. -/
def testedLength : ℕ :=
  if old.components = [] then new.text.length + path.text.length
  else new.text.length + (path.text.length - old.text.length)

/-- The new path is too long. -/
def TooLong : Prop := new.components ≠ [] ∧ pathMax ≤ testedLength path old new

end Parts

section Buffer

variable {buffer : List Byte} {s left kept : Path}

/-- What the buffer starts with becomes the path. -/
theorem terminatePath_apply (hs : (0 : Byte) ∉ s) (hpre : s <+: buffer)
    (hbuffer : buffer.length = pathMax) (hfits : s.length < pathMax) :
    ∃ buffer', terminatePath s.length buffer = (.ok s.length, buffer') ∧ Holds buffer' 0 s := by
  refine ⟨buffer.set s.length 0, ?_, holds_set hs hpre (by omega)⟩
  unfold terminatePath
  rw [if_pos hfits, bind_apply_ok (store_apply (by omega))]
  rfl

/-- The kept part is moved to the start. -/
theorem moveToStart_apply {src : ℕ} (hkept : (0 : Byte) ∉ kept)
    (hpre : kept <+: buffer.drop src) (hsrc : src ≤ buffer.length)
    (hbuffer : buffer.length = pathMax) (hfits : kept.length < pathMax) :
    ∃ buffer', (do
        memmove 0 src kept.length
        terminatePath kept.length : Machine (List Byte) Unit ℕ) buffer =
      (.ok kept.length, buffer') ∧ Holds buffer' 0 kept := by
  have hfits₀ : 0 + kept.length ≤ buffer.length := by omega
  rw [bind_apply_ok (memmove_apply hpre hsrc hfits₀)]
  exact terminatePath_apply hkept (prefix_overwrite hfits₀)
    (by rw [overwrite_length hfits₀, hbuffer]) hfits

/-- The new part is put at the start. -/
theorem fill_apply (hleft : (0 : Byte) ∉ left) (hkept : (0 : Byte) ∉ kept)
    (hpre : kept <+: buffer.drop left.length) (hbuffer : buffer.length = pathMax)
    (hfits : left.length + kept.length < pathMax) :
    ∃ buffer', (do
        memcpy 0 left left.length
        terminatePath (left.length + kept.length) : Machine (List Byte) Unit ℕ) buffer =
      (.ok (left ++ kept).length, buffer') ∧ Holds buffer' 0 (left ++ kept) := by
  have hfits₀ : 0 + left.length ≤ buffer.length := by omega
  have hfill : left ++ kept <+: overwrite buffer 0 left := by
    rw [overwrite, List.take_zero, List.nil_append, Nat.zero_add]
    exact (List.prefix_append_right_inj left).mpr hpre
  rw [bind_apply_ok (memcpy_apply hfits₀), ← List.length_append]
  exact terminatePath_apply (fun h => (List.mem_append.mp h).elim hleft hkept) hfill
    (by rw [overwrite_length hfits₀, hbuffer]) (by rw [List.length_append]; exact hfits)

/-- The kept part is moved behind the room for the new one, which is then filled. -/
theorem moveAndFill_apply {src : ℕ} (hleft : (0 : Byte) ∉ left) (hkept : (0 : Byte) ∉ kept)
    (hpre : kept <+: buffer.drop src) (hsrc : src ≤ buffer.length)
    (hbuffer : buffer.length = pathMax) (hfits : left.length + kept.length < pathMax) :
    ∃ buffer', (do
        memmove left.length src kept.length
        memcpy 0 left left.length
        terminatePath (left.length + kept.length) : Machine (List Byte) Unit ℕ) buffer =
      (.ok (left ++ kept).length, buffer') ∧ Holds buffer' 0 (left ++ kept) := by
  have hfits' : left.length + kept.length ≤ buffer.length := by omega
  rw [bind_apply_ok (memmove_apply hpre hsrc hfits')]
  exact fill_apply hleft hkept (prefix_overwrite hfits')
    (by rw [overwrite_length hfits', hbuffer]) hfits

end Buffer

/-! ## What comes of it -/

section Run

variable {path old new : AbsolutePath} {buffer : List Byte} {cpu : Cpu}

/-- The path without components is the root. -/
theorem AbsolutePath.text_root {p : AbsolutePath} (h : p.components = []) : p.text = [slash] := by
  unfold AbsolutePath.text AbsolutePath.stem AbsolutePath.tail
  rw [h, if_pos (Or.inl rfl)]
  rfl

/-- Only the root has a single character. -/
theorem AbsolutePath.text_length_eq_one (p : AbsolutePath) :
    p.text.length = 1 ↔ p.components = [] := by
  constructor
  · intro hone
    by_contra hne
    obtain ⟨component, rest, hcomponents⟩ := List.exists_cons_of_ne_nil hne
    have hcomponent : component ≠ [] :=
      (p.valid component (hcomponents ▸ List.mem_cons_self ..)).ne_nil
    have hpos := List.length_pos_iff.mpr hcomponent
    rw [AbsolutePath.text, AbsolutePath.stem, hcomponents, render_cons] at hone
    simp only [List.cons_append, List.length_cons, List.length_append] at hone
    omega
  · intro hroot
    rw [AbsolutePath.text_root hroot]
    rfl

/-- The lengths of two paths add up to less than a word. -/
theorem pathMax_lt (cpu : Cpu) : pathMax + pathMax < 2 ^ cpu.wordBits := by
  cases cpu <;> decide

/-- The length of the rest of the path, if there is a rest. -/
theorem sizeT_sub {a b : ℕ} (h : b ≤ a) (ha : a < pathMax) : cpu.sizeT (a - b) = a - b := by
  have hmax := pathMax_lt cpu
  rw [← Int.ofNat_sub h, Cpu.sizeT_natCast (by omega)]

/-- A new part that is not the root stands before what is kept. -/
theorem substituted_of_ne_root (hnew : new.components ≠ []) :
    substituted path old new = new.text ++ keptPart path old new := by
  have hne : new.text ≠ [] := List.length_pos_iff.mp new.text_pos
  have hpart : newPart new = new.text := if_neg hnew
  rw [substituted, hpart]
  exact if_neg fun h => hne (List.append_eq_nil_iff.mp h).1

/-- The rest of the path is where it is expected. -/
theorem prefix_drop_text (hholds : Holds buffer 0 path.text) {n : ℕ} (hn : n ≤ path.text.length) :
    path.text.drop n <+: buffer.drop n := by
  have hdrop := (hholds.drop hn).2
  rw [Nat.zero_add] at hdrop
  exact (List.prefix_append ..).trans hdrop

/-- "/foo" becomes "/". -/
theorem substituteRoot_apply (hholds : Holds buffer 0 path.text) (hbuffer : buffer.length = pathMax)
    (hold : old.text.length < pathMax) (hnew : new.components = [])
    (hle : old.text.length ≤ path.text.length) :
    ∃ buffer', substitutePathPrefix cpu old.text.length new.text new.text.length buffer =
      (.ok (substituted path old new).length, buffer') ∧
      Holds buffer' 0 (substituted path old new) := by
  have hlt : path.text.length < pathMax := by
    have := hholds.lt
    omega
  have hone : new.text.length = 1 := new.text_length_eq_one.mpr hnew
  have hkept : keptPart path old new = path.text.drop old.text.length :=
    if_neg fun h => h.2 hnew
  have hpart : substituted path old new =
      if path.text.drop old.text.length = [] then [slash] else path.text.drop old.text.length := by
    unfold substituted newPart
    rw [if_pos hnew, List.nil_append, hkept]
  unfold substitutePathPrefix
  rw [bind_apply_ok (read_apply buffer), hholds.stringAt, hone]
  dsimp only
  rw [if_neg (not_not_intro ⟨hold, by decide⟩), if_pos rfl, sizeT_sub hle hlt, hpart]
  by_cases hnil : path.text.drop old.text.length = []
  · have hzero : path.text.length - old.text.length = 0 := by
      rw [← List.length_drop, hnil]
      rfl
    rw [if_neg (not_not_intro hzero), if_pos hnil, bind_apply_ok (store_apply (by omega))]
    have hstart : [slash] <+: buffer.set 0 slash := by
      obtain ⟨c, rest, rfl⟩ :=
        List.exists_cons_of_length_pos (hbuffer ▸ (by decide : 0 < pathMax))
      exact ⟨rest, rfl⟩
    exact terminatePath_apply (s := [slash]) (by decide) hstart (by rwa [List.length_set])
      (by decide)
  · have hpos : path.text.length - old.text.length ≠ 0 := by
      rw [← List.length_drop]
      exact fun h => hnil (List.length_eq_zero_iff.mp h)
    rw [if_pos hpos, if_neg hnil, ← List.length_drop]
    exact moveToStart_apply (fun h => path.text_zero (List.mem_of_mem_drop h))
      (prefix_drop_text hholds hle) (by omega) hbuffer (by rw [List.length_drop]; omega)

/-- "/" becomes "/foo". -/
theorem substituteBelowRoot_apply (hholds : Holds buffer 0 path.text)
    (hbuffer : buffer.length = pathMax) (hnewMax : new.text.length < pathMax)
    (hold : old.components = []) (hnew : new.components ≠ []) (hfits : ¬TooLong path old new) :
    ∃ buffer', substitutePathPrefix cpu old.text.length new.text new.text.length buffer =
      (.ok (substituted path old new).length, buffer') ∧
      Holds buffer' 0 (substituted path old new) := by
  have hlt : 0 + path.text.length < buffer.length := hholds.lt
  have hmax := pathMax_lt cpu
  have htested : new.text.length + path.text.length < pathMax := by
    have hle : ¬pathMax ≤ testedLength path old new := fun h => hfits ⟨hnew, h⟩
    rw [testedLength, if_pos hold] at hle
    omega
  have hpart : substituted path old new =
      new.text ++ if path.components = [] then [] else path.text := by
    rw [substituted_of_ne_root hnew, keptPart, if_pos ⟨hold, hnew⟩]
  unfold substitutePathPrefix
  rw [bind_apply_ok (read_apply buffer), hholds.stringAt]
  dsimp only
  rw [if_neg (not_not_intro ⟨(old.text_length_eq_one.mpr hold) ▸ by decide, hnewMax⟩),
    if_neg fun h => hnew (new.text_length_eq_one.mp h), if_pos (old.text_length_eq_one.mpr hold),
    ← Nat.cast_add, Cpu.sizeT_natCast (by omega), if_neg (Nat.not_le_of_lt htested), hpart]
  have hzero : 0 < path.text.length := path.text_pos
  by_cases hroot : path.components = []
  · have hone := path.text_length_eq_one.mpr hroot
    rw [if_neg (by omega), if_pos hroot]
    exact fill_apply new.text_zero List.not_mem_nil List.nil_prefix hbuffer hnewMax
  · have hone : path.text.length ≠ 1 := fun h => hroot (path.text_length_eq_one.mp h)
    rw [if_pos (by omega), if_neg hroot]
    exact moveAndFill_apply new.text_zero path.text_zero (prefix_drop_text hholds (Nat.zero_le _))
      (Nat.zero_le _) hbuffer htested

/-- "/foo" becomes "/bar". -/
theorem substituteOther_apply (hholds : Holds buffer 0 path.text)
    (hbuffer : buffer.length = pathMax) (hnewMax : new.text.length < pathMax)
    (hold : old.components ≠ []) (hnew : new.components ≠ []) (hfits : ¬TooLong path old new)
    (hle : old.text.length ≤ path.text.length) :
    ∃ buffer', substitutePathPrefix cpu old.text.length new.text new.text.length buffer =
      (.ok (substituted path old new).length, buffer') ∧
      Holds buffer' 0 (substituted path old new) := by
  have hlt : 0 + path.text.length < buffer.length := hholds.lt
  have hmax := pathMax_lt cpu
  have htested : new.text.length + (path.text.length - old.text.length) < pathMax := by
    have hle : ¬pathMax ≤ testedLength path old new := fun h => hfits ⟨hnew, h⟩
    rw [testedLength, if_neg hold] at hle
    omega
  have hpart : substituted path old new = new.text ++ path.text.drop old.text.length := by
    rw [substituted_of_ne_root hnew, keptPart, if_neg fun h => hold h.1]
  have hlength : (path.text.length : ℤ) - old.text.length + new.text.length =
      ((new.text.length + (path.text.length - old.text.length) : ℕ) : ℤ) := by
    omega
  unfold substitutePathPrefix
  rw [bind_apply_ok (read_apply buffer), hholds.stringAt]
  dsimp only
  rw [if_neg (not_not_intro ⟨by omega, hnewMax⟩),
    if_neg fun h => hnew (new.text_length_eq_one.mp h),
    if_neg fun h => hold (old.text_length_eq_one.mp h), hlength, Cpu.sizeT_natCast (by omega),
    if_neg (Nat.not_le_of_lt htested), sizeT_sub hle (by omega), hpart, ← List.length_drop]
  rw [← List.length_drop] at htested
  exact moveAndFill_apply new.text_zero (fun h => path.text_zero (List.mem_of_mem_drop h))
    (prefix_drop_text hholds hle) (by omega) hbuffer htested

/-- What fits is put together in the buffer. -/
theorem substitutePathPrefix_apply (hholds : Holds buffer 0 path.text)
    (hbuffer : buffer.length = pathMax) (hnewMax : new.text.length < pathMax)
    (hfits : ¬TooLong path old new) (hle : old.text.length ≤ path.text.length) :
    ∃ buffer', substitutePathPrefix cpu old.text.length new.text new.text.length buffer =
      (.ok (substituted path old new).length, buffer') ∧
      Holds buffer' 0 (substituted path old new) := by
  have hlt : 0 + path.text.length < buffer.length := hholds.lt
  by_cases hnew : new.components = []
  · exact substituteRoot_apply hholds hbuffer (by omega) hnew hle
  · by_cases hold : old.components = []
    · exact substituteBelowRoot_apply hholds hbuffer hnewMax hold hnew hfits
    · exact substituteOther_apply hholds hbuffer hnewMax hold hnew hfits hle

/-- What does not fit is refused, with the buffer as it was. -/
theorem substitutePathPrefix_tooLong (hholds : Holds buffer 0 path.text)
    (hbuffer : buffer.length = pathMax) (hnewMax : new.text.length < pathMax)
    (hlong : TooLong path old new) (hle : old.text.length ≤ path.text.length) :
    substitutePathPrefix cpu old.text.length new.text new.text.length buffer =
      (.ok (cpu.sizeT (-enametoolong)), buffer) := by
  obtain ⟨hnew, hlong⟩ := hlong
  have hlt : 0 + path.text.length < buffer.length := hholds.lt
  have hmax := pathMax_lt cpu
  unfold testedLength at hlong
  unfold substitutePathPrefix
  rw [bind_apply_ok (read_apply buffer), hholds.stringAt]
  dsimp only
  rw [if_neg (not_not_intro ⟨by omega, hnewMax⟩),
    if_neg fun h => hnew (new.text_length_eq_one.mp h)]
  by_cases hold : old.components = []
  · rw [if_pos hold] at hlong
    rw [if_pos (old.text_length_eq_one.mpr hold), ← Nat.cast_add, Cpu.sizeT_natCast (by omega),
      if_pos hlong]
    rfl
  · rw [if_neg hold] at hlong
    have hlength : (path.text.length : ℤ) - old.text.length + new.text.length =
        ((new.text.length + (path.text.length - old.text.length) : ℕ) : ℤ) := by
      omega
    rw [if_neg fun h => hold (old.text_length_eq_one.mp h), hlength,
      Cpu.sizeT_natCast (by omega), if_pos hlong]
    rfl

/-- A prefix that is one longer than the path takes the copy out of the buffer. -/
theorem substitutePathPrefix_error (hholds : Holds buffer 0 path.text)
    (hbuffer : buffer.length = pathMax) (hlong : old.text.length = path.text.length + 1) :
    substitutePathPrefix cpu old.text.length new.text new.text.length buffer =
      (.error (), buffer) := by
  have hlt : 0 + path.text.length < buffer.length := hholds.lt
  have hpos : 0 < path.text.length := path.text_pos
  have hnewPos : 0 < new.text.length := new.text_pos
  have hmax := pathMax_lt cpu
  have hrest : (path.text.length : ℤ) - old.text.length = -1 := by omega
  have hsize : buffer.length < cpu.sizeT (-1) := by
    rw [Cpu.sizeT_neg_one]
    omega
  have hold : old.text.length ≠ 1 := by omega
  unfold substitutePathPrefix
  rw [bind_apply_ok (read_apply buffer), hholds.stringAt]
  dsimp only
  by_cases hasserted : old.text.length < pathMax ∧ new.text.length < pathMax
  · rw [if_neg (not_not_intro hasserted), hrest]
    by_cases hroot : new.text.length = 1
    · rw [if_pos hroot, if_pos (by omega)]
      exact bind_apply_error (memmove_error (by omega))
    · have hlength : (-1 : ℤ) + new.text.length = ((new.text.length - 1 : ℕ) : ℤ) := by omega
      rw [if_neg hroot, if_neg hold, hlength, Cpu.sizeT_natCast (by omega), if_neg (by omega)]
      exact bind_apply_error (memmove_error (by omega))
  · rw [if_pos hasserted]
    rfl

end Run

end Abyss.Paths
