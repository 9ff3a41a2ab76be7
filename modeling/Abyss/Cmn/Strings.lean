import Abyss.Library.CString
import Abyss.Library.Search
import Abyss.Tracee.Mem

/-!
# Tests and replacements of strings

The tests for a prefix and for a suffix, and the replacement of a string in another one, of
`cmn_utils.c`. The test for a suffix compares as many characters as there are before the suffix.
The replacement is written to memory of the size of a `size_t`, however long it is.
-/

namespace Abyss.Cmn

open Bytes CString Machine Search

/-! ## Prefixes and suffixes -/

/-- `cmn_utils_string_starts_With`; a string may be null. -/
def cmnUtilsStringStartsWith (str subStr : Option (List Byte)) : Bool :=
  match str, subStr with
  | none, subStr => subStr.isNone
  | some _, none => false
  | some str, some subStr =>
    if str.length = 0 then subStr.length = 0 else strstr str subStr = some 0

/-- `cmn_utils_string_ends_With`; a string may be null. -/
def cmnUtilsStringEndsWith (str subStr : Option (List Byte)) : Bool :=
  match str, subStr with
  | none, subStr => subStr.isNone
  | some _, none => false
  | some str, some subStr =>
    if str.length = 0 then subStr.length = 0
    else if str.length < subStr.length then false
    else
      let start := str.length - subStr.length
      strncmpEq (str.drop start) subStr start

/-- The tests tell prefixes and suffixes, and are dual to each other. -/
structure Dual (s t : List Byte) : Prop where
  startsWith : cmnUtilsStringStartsWith (some s) (some t) = true ↔ t <+: s
  endsWith : cmnUtilsStringEndsWith (some s) (some t) = true ↔ t <:+ s
  reverse : cmnUtilsStringEndsWith (some s) (some t) =
    cmnUtilsStringStartsWith (some s.reverse) (some t.reverse)

/-- A string that is not too long differs from the end of another one, but not where the characters
are compared. -/
structure DiffersLate (s t : List Byte) : Prop where
  length_le : t.length ≤ s.length
  agree : (s.drop (s.length - t.length)).take (s.length - t.length) =
    t.take (s.length - t.length)
  differ : s.drop (s.length - t.length) ≠ t

section Affixes

variable {s t : List Byte}

/-- The test for a prefix is right. -/
theorem cmnUtilsStringStartsWith_iff (s t : List Byte) :
    cmnUtilsStringStartsWith (some s) (some t) = true ↔ t <+: s := by
  rw [cmnUtilsStringStartsWith]
  split
  · rename_i hempty
    rw [List.eq_nil_of_length_eq_zero hempty, List.prefix_nil, decide_eq_true_eq,
      List.length_eq_zero_iff]
  · rw [decide_eq_true_eq, strstr_eq_zero_iff]

/-- As many characters of two strings of one length are compared as there are at most. -/
theorem strncmpEq_iff {n : ℕ} (h : s.length = t.length) :
    strncmpEq s t n ↔ s.take n = t.take n := by
  rw [strncmpEq]
  rcases Nat.lt_or_ge s.length n with hlt | hge
  · rw [List.take_of_length_le (by simp; omega), List.take_of_length_le (by simp; omega),
      List.take_of_length_le (Nat.le_of_lt hlt), List.take_of_length_le (by omega),
      List.append_left_inj]
  · rw [List.take_append_of_le_length hge, List.take_append_of_le_length (h ▸ hge)]

/-- The test for a suffix accepts a string that is no longer and agrees with the end where the
characters are compared. -/
theorem cmnUtilsStringEndsWith_iff (s t : List Byte) :
    cmnUtilsStringEndsWith (some s) (some t) = true ↔
      t.length ≤ s.length ∧ (s.drop (s.length - t.length)).take (s.length - t.length) =
        t.take (s.length - t.length) := by
  rw [cmnUtilsStringEndsWith]
  split
  · rename_i hempty
    rw [decide_eq_true_eq, hempty, Nat.zero_sub, List.take_zero, List.take_zero, Nat.le_zero]
    exact (and_iff_left rfl).symm
  · split
    · rename_i hlt
      exact iff_of_false Bool.false_ne_true fun h => Nat.not_le_of_lt hlt h.1
    · rename_i hge
      have hle := Nat.le_of_not_lt hge
      have hlength : (s.drop (s.length - t.length)).length = t.length := by
        rw [List.length_drop]
        omega
      rw [decide_eq_true_eq, strncmpEq_iff hlength]
      exact (and_iff_right hle).symm

/-- A suffix is accepted, and nothing else unless it differs late. -/
theorem cmnUtilsStringEndsWith_suffix_iff (s t : List Byte) :
    (cmnUtilsStringEndsWith (some s) (some t) = true ↔ t <:+ s) ↔ ¬DiffersLate s t := by
  rw [cmnUtilsStringEndsWith_iff, List.suffix_iff_eq_drop]
  constructor
  · intro h hlate
    exact hlate.differ (h.mp ⟨hlate.length_le, hlate.agree⟩).symm
  · intro h
    constructor
    · intro hagree
      by_contra hdiffer
      exact h ⟨hagree.1, hagree.2, fun heq => hdiffer heq.symm⟩
    · intro hsuffix
      refine ⟨(List.suffix_iff_eq_drop.mpr hsuffix).length_le, ?_⟩
      rw [← hsuffix]

/-- The tests are dual unless the second string differs late from the end of the first one. -/
theorem dual_iff (s t : List Byte) : Dual s t ↔ ¬DiffersLate s t := by
  rw [← cmnUtilsStringEndsWith_suffix_iff]
  refine ⟨Dual.endsWith, fun h => ⟨cmnUtilsStringStartsWith_iff s t, h, ?_⟩⟩
  rw [Bool.eq_iff_iff, h, cmnUtilsStringStartsWith_iff, List.reverse_prefix]

/-- Any string ends with any other one of its length, the test says. -/
theorem not_dual : ¬Dual [97] [98] := by
  intro h
  have hsuffix := h.endsWith.mp (by decide)
  exact absurd hsuffix (by decide)

end Affixes

/-! ## Replacements -/

/-- What `malloc` answers: null, or memory of the size that is asked for, whatever is in it. -/
abbrev Malloc := (n : ℕ) → Option { buffer : List Byte // buffer.length = n }

/-- What is in the memory that was allocated after a program has written to it. A write through a
null pointer or outside of the memory gives no result. -/
def written {n : ℕ} (ret : Option { buffer : List Byte // buffer.length = n })
    (program : Machine (List Byte) Unit Unit) : Option (List Byte) :=
  match ret with
  | none => none
  | some buffer =>
    match program buffer.val with
    | (.ok (), buffer) => some buffer
    | (.error (), _) => none

/-- `cmn_utils_string_replace_With`: the memory that is returned, if any is. The size of
`str_len + 1` is that of a `size_t`, and so is that of `str_len + rep_str_len - sub_str_len`. -/
def cmnUtilsStringReplaceWith (cpu : Cpu) (malloc : Malloc)
    (str subStr repStr : Option (List Byte)) : Option (Option (List Byte)) :=
  match subStr, repStr with
  | some subStr, some repStr => do
    let str ← str
    match strstr str subStr with
    | none => (written (malloc cpu.wordBytes) (strcpy 0 str)).map some
    | some find =>
      (written (malloc cpu.wordBytes) (do
        strncpy 0 str find
        strncpy find repStr repStr.length
        strcpy (find + repStr.length) (str.drop (find + subStr.length)))).map some
  | _, _ => some none

/-- The string with its first occurrence replaced is returned, and nothing is written outside of
the memory that was allocated for it. -/
def Replaced (cpu : Cpu) (malloc : Malloc) (str subStr repStr : List Byte) : Prop :=
  ∃ buffer out, cmnUtilsStringReplaceWith cpu malloc (some str) (some subStr) (some repStr) =
      some (some buffer) ∧
    ReplacesFirst str subStr repStr out ∧ Holds buffer 0 out

section Replace

variable {str subStr repStr out : List Byte} {n : ℕ}

/-- A string is written to memory that it fits into with its terminator. -/
theorem written_strcpy_iff (ret : Option { buffer : List Byte // buffer.length = n })
    (hout : (0 : Byte) ∉ out) :
    (∃ buffer, written ret (strcpy 0 out) = some buffer ∧ Holds buffer 0 out) ↔
      ret.isSome = true ∧ out.length < n := by
  cases ret with
  | none =>
    refine iff_of_false ?_ fun h => Bool.false_ne_true h.1
    rintro ⟨buffer, hbuffer, -⟩
    cases hbuffer
  | some memory =>
    obtain ⟨memory, rfl⟩ := memory
    rw [and_iff_right Option.isSome_some]
    rcases Nat.lt_or_ge out.length memory.length with hlt | hge
    · have hfit : 0 + out.length < memory.length := by omega
      obtain ⟨buffer, hrun, hholds⟩ := strcpy_apply hout hfit
      refine iff_of_true ⟨buffer, ?_, hholds⟩ hlt
      rw [written, hrun]
    · have hfull : memory.length ≤ 0 + out.length := by omega
      obtain ⟨buffer, hrun⟩ := strcpy_error hfull
      refine iff_of_false ?_ (Nat.not_lt_of_le hge)
      rintro ⟨buffer, hbuffer, -⟩
      rw [written, hrun] at hbuffer
      cases hbuffer

/-- The three copies write what one copy of the whole string writes. -/
theorem copies_eq {find : ℕ} (hfind : find ≤ str.length) (after : List Byte) :
    (do
      strncpy 0 str find
      strncpy find repStr repStr.length
      strcpy (find + repStr.length) after) = strcpy 0 (str.take find ++ repStr ++ after) := by
  rw [strncpy_eq hfind, strncpy_eq (Nat.le_refl _), List.take_length, strcpy, strcpy,
    List.append_assoc, List.append_assoc, stores_append 0 (str.take find),
    stores_append _ repStr, List.length_take_of_le hfind, Nat.zero_add]

/-- A string in which nothing is found is copied. -/
theorem cmnUtilsStringReplaceWith_of_none {cpu : Cpu} {malloc : Malloc}
    (h : strstr str subStr = none) :
    cmnUtilsStringReplaceWith cpu malloc (some str) (some subStr) (some repStr) =
      (written (malloc cpu.wordBytes) (strcpy 0 str)).map some := by
  simp only [cmnUtilsStringReplaceWith, Option.bind_eq_bind, Option.bind_some, h]

/-- What is found is replaced. -/
theorem cmnUtilsStringReplaceWith_of_some {cpu : Cpu} {malloc : Malloc} {find : ℕ}
    (h : strstr str subStr = some find) :
    cmnUtilsStringReplaceWith cpu malloc (some str) (some subStr) (some repStr) =
      (written (malloc cpu.wordBytes)
        (strcpy 0 (str.take find ++ repStr ++ str.drop (find + subStr.length)))).map some := by
  simp only [cmnUtilsStringReplaceWith, Option.bind_eq_bind, Option.bind_some, h,
    copies_eq (strstr_eq_some h).1]

/-- A replacement that is copied to new memory is right if it fits. -/
theorem replaced_iff {cpu : Cpu} {malloc : Malloc}
    (hrun : cmnUtilsStringReplaceWith cpu malloc (some str) (some subStr) (some repStr) =
      (written (malloc n) (strcpy 0 out)).map some)
    (hreplaces : ReplacesFirst str subStr repStr out) (hout : (0 : Byte) ∉ out) :
    Replaced cpu malloc str subStr repStr ↔ (malloc n).isSome = true ∧ out.length < n := by
  rw [← written_strcpy_iff _ hout]
  constructor
  · rintro ⟨buffer, out', hbuffer, hreplaces', hholds⟩
    obtain rfl := hreplaces.unique hreplaces'
    obtain ⟨memory, hwritten, hsome⟩ := Option.map_eq_some_iff.mp (hrun.symm.trans hbuffer)
    obtain rfl := Option.some.inj hsome
    exact ⟨memory, hwritten, hholds⟩
  · rintro ⟨buffer, hwritten, hholds⟩
    refine ⟨buffer, out, ?_, hreplaces, hholds⟩
    rw [hrun, hwritten]
    rfl

/-- The replacement is right exactly if there is memory, and the string that is returned is shorter
than a `size_t`. -/
theorem cmnUtilsStringReplaceWith_iff (cpu : Cpu) (malloc : Malloc) (hstr : (0 : Byte) ∉ str)
    (hrep : (0 : Byte) ∉ repStr) :
    Replaced cpu malloc str subStr repStr ↔ (malloc cpu.wordBytes).isSome = true ∧
      if subStr <:+: str then str.length + repStr.length < cpu.wordBytes + subStr.length
      else str.length < cpu.wordBytes := by
  cases hfind : strstr str subStr with
  | none =>
    have hmiss := strstr_eq_none hfind
    rw [if_neg hmiss]
    exact replaced_iff (cmnUtilsStringReplaceWith_of_none hfind) (.copy hmiss) hstr
  | some find =>
    obtain ⟨hle, hoccurs, -⟩ := strstr_eq_some hfind
    have hinfix : subStr <:+: str := hoccurs.isInfix.trans (List.drop_suffix _ _).isInfix
    have hfits := hoccurs.length_le
    have hout : (0 : Byte) ∉ str.take find ++ repStr ++ str.drop (find + subStr.length) := by
      simp only [List.mem_append, not_or]
      exact ⟨⟨fun h => hstr (List.mem_of_mem_take h), hrep⟩,
        fun h => hstr (List.mem_of_mem_drop h)⟩
    rw [if_pos hinfix,
      replaced_iff (cmnUtilsStringReplaceWith_of_some hfind) (.of_strstr hfind repStr) hout]
    simp only [List.length_append, List.length_take, List.length_drop] at hfits ⊢
    refine and_congr_right fun _ => ?_
    omega

/-- There is always memory. -/
def mallocZero : Malloc := fun n => some ⟨List.replicate n 0, List.length_replicate⟩

/-- A letter of a short string is replaced by two. -/
theorem replaced_short : Replaced .arm64 mallocZero [97, 98, 99] [98] [120, 121] :=
  (cmnUtilsStringReplaceWith_iff .arm64 mallocZero (by decide) (by decide)).mpr
    ⟨rfl, by decide⟩

/-- A string of eight letters is not copied. -/
theorem not_replaced :
    ¬Replaced .arm64 mallocZero [97, 98, 99, 100, 101, 102, 103, 104] [120] [121] := by
  rintro ⟨buffer, out, hrun, -⟩
  have hnone : cmnUtilsStringReplaceWith .arm64 mallocZero
      (some [97, 98, 99, 100, 101, 102, 103, 104]) (some [120]) (some [121]) = none := by decide
  rw [hnone] at hrun
  cases hrun

end Replace

end Abyss.Cmn
