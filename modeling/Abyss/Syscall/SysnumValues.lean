import Abyss.Syscall.Target

/-!
# Syscall numbers and their neutral values

A number of a tracee is looked up in the table of its ABI, and a neutral value is given the number
of its first entry. The two agree on what the table names, and everything else is no syscall at all
and the avoider, respectively.

One number is left out: that just past the table passes the check of the index, and what happens
to be stored behind the table is taken for its value.
-/

namespace Abyss

/-- The place of the table that is read for a number, if any. -/
def tableIndex (t : Target) (abi : Abi) (sysnum : ℕ) : Option ℕ :=
  if sysnum < (t.sysnums abi).offset then none
  else if sysnum - (t.sysnums abi).offset > (t.sysnums abi).length then none
  else some (sysnum - (t.sysnums abi).offset)

/-- The number just past the table of an ABI. -/
def pastNumber (t : Target) (abi : Abi) : ℕ := (t.sysnums abi).offset + (t.sysnums abi).length

section Values

variable {t : Target} {abi : Abi} {n : ℕ} {s : Sysnum}

/-- The neutral value of a number is what is read for it. -/
theorem translateSysnum_eq (t : Target) (abi : Abi) (n : ℕ) :
    translateSysnum t abi n =
      ((tableIndex t abi n).map fun i =>
        (t.sysnums abi).table.getD i (t.sysnums abi).past).getD .void := by
  unfold translateSysnum tableIndex
  dsimp only
  split_ifs <;> rfl

/-- Only the number just past the table has something else read than an entry. -/
theorem tableIndex_lt (hn : n ≠ pastNumber t abi) {i : ℕ} (hi : tableIndex t abi n = some i) :
    i < (t.sysnums abi).length := by
  unfold tableIndex at hi
  unfold pastNumber at hn
  split_ifs at hi with hlow hhigh
  obtain rfl := Option.some.inj hi
  omega

/-- For a number outside the table nothing is read. -/
theorem translateSysnum_outside
    (hn : n < (t.sysnums abi).offset ∨ pastNumber t abi < n) :
    translateSysnum t abi n = .void := by
  have hindex : tableIndex t abi n = none := by
    unfold tableIndex
    unfold pastNumber at hn
    rcases hn with hlow | hhigh
    · exact if_pos hlow
    · rw [if_neg (by omega), if_pos (by omega)]
  rw [translateSysnum_eq, hindex]
  rfl

/-- The number of an entry has its value. -/
theorem translateSysnum_entry {i : ℕ} (h : (t.sysnums abi).table[i]? = some s) :
    translateSysnum t abi (i + (t.sysnums abi).offset) = s := by
  obtain ⟨hi, heq⟩ := List.getElem?_eq_some_iff.mp h
  have hindex : tableIndex t abi (i + (t.sysnums abi).offset) = some i := by
    unfold tableIndex Sysnums.length
    rw [if_neg (by omega), if_neg (by omega), Nat.add_sub_cancel]
  rw [translateSysnum_eq, hindex]
  simp [List.getD, h]

/-- A value other than that of no syscall comes from an entry. -/
theorem translateSysnum_mem (hn : n ≠ pastNumber t abi) (hvoid : translateSysnum t abi n ≠ .void) :
    translateSysnum t abi n ∈ (t.sysnums abi).table := by
  rw [translateSysnum_eq] at hvoid ⊢
  cases hindex : tableIndex t abi n with
  | none => rw [hindex] at hvoid; exact absurd rfl hvoid
  | some i =>
    have hi : i < (t.sysnums abi).table.length := tableIndex_lt hn hindex
    simp [List.getD, hi]

/-- The number of an entry is a word, and not the avoider. -/
theorem entry_ne_syscallAvoider {i : ℕ} (hi : i < (t.sysnums abi).length) :
    i + (t.sysnums abi).offset ≠ t.syscallAvoider := by
  have hword : (t.sysnums abi).offset + (t.sysnums abi).length < 2 ^ t.wordBits :=
    t.numbers_words abi
  unfold Target.syscallAvoider
  omega

/-- A value of the table has the number of an entry. -/
theorem detranslateSysnum_mem (hs : s ≠ .void) (h : s ∈ (t.sysnums abi).table) :
    ∃ i, detranslateSysnum t abi s = i + (t.sysnums abi).offset ∧
      i < (t.sysnums abi).length ∧ (t.sysnums abi).table[i]? = some s := by
  refine detranslateSysnum_getElem ?_
  unfold detranslateSysnum
  rw [if_neg hs]
  cases hfind : (t.sysnums abi).table.findIdx? (· = s) with
  | none =>
    have hnone := List.findIdx?_eq_none_iff.mp hfind s h
    simp at hnone
  | some i =>
    exact entry_ne_syscallAvoider (List.findIdx?_eq_some_iff_getElem.mp hfind).1

/-- A value that the table does not have is given the avoider. -/
theorem detranslateSysnum_eq_syscallAvoider_iff (hs : s ≠ .void) :
    detranslateSysnum t abi s = t.syscallAvoider ↔ s ∉ (t.sysnums abi).table := by
  constructor
  · intro havoider hmem
    obtain ⟨i, hi, hlt, -⟩ := detranslateSysnum_mem hs hmem
    exact entry_ne_syscallAvoider hlt (hi.symm.trans havoider)
  · intro hmem
    by_contra hnumber
    obtain ⟨i, -, -, hget⟩ := detranslateSysnum_getElem hnumber
    exact hmem (List.mem_of_getElem? hget)

end Values

/-- The two translations of an ABI agree, but for the number just past its table: the entries of the
table are all that is read, what is outside is no syscall, a value survives the way to a number and
back, and exactly the values that no number has are given the avoider, as is no syscall itself. -/
structure TranslatesSysnums (t : Target) (abi : Abi) : Prop where
  inside : ∀ n ≠ pastNumber t abi, ∀ i, tableIndex t abi n = some i → i < (t.sysnums abi).length
  outside : ∀ n, n < (t.sysnums abi).offset ∨ pastNumber t abi < n →
    translateSysnum t abi n = .void
  avoider : pastNumber t abi < t.syscallAvoider → translateSysnum t abi t.syscallAvoider = .void
  returns : ∀ n ≠ pastNumber t abi, translateSysnum t abi n ≠ .void →
    translateSysnum t abi (detranslateSysnum t abi (translateSysnum t abi n)) =
      translateSysnum t abi n
  avoided : detranslateSysnum t abi .void = t.syscallAvoider
  unnamed : ∀ s, s ≠ .void → (detranslateSysnum t abi s = t.syscallAvoider ↔
    ∀ n ≠ pastNumber t abi, translateSysnum t abi n ≠ s)

/-- Syscall numbers are translated to and fro, for every table of every ABI. -/
theorem translatesSysnums (t : Target) (abi : Abi) : TranslatesSysnums t abi where
  inside _ hn _ hi := tableIndex_lt hn hi
  outside _ hn := translateSysnum_outside hn
  avoider hpast := translateSysnum_outside (.inr hpast)
  returns n hn hvoid := by
    obtain ⟨i, hnumber, -, hentry⟩ := detranslateSysnum_mem hvoid (translateSysnum_mem hn hvoid)
    rw [hnumber, translateSysnum_entry hentry]
  avoided := if_pos rfl
  unnamed s hs := by
    rw [detranslateSysnum_eq_syscallAvoider_iff hs]
    constructor
    · rintro hmem n hn rfl
      exact hmem (translateSysnum_mem hn hs)
    · intro hnone hmem
      obtain ⟨i, hi, rfl⟩ := List.mem_iff_getElem.mp hmem
      have hpast : i + (t.sysnums abi).offset ≠ pastNumber t abi := by
        unfold pastNumber Sysnums.length
        omega
      exact hnone _ hpast (translateSysnum_entry (List.getElem?_eq_getElem hi))

/-- On the 64-bit processor the number 245 is no syscall, although no syscall is given the avoider. -/
theorem arm64_void_hasNumber :
    ¬∀ s, detranslateSysnum (arm64 fun _ => .void) .default s =
        (arm64 fun _ => .void).syscallAvoider ↔
      ∀ n, translateSysnum (arm64 fun _ => .void) .default n ≠ s := by
  intro hnone
  have hentry : ((arm64 fun _ => .void).sysnums .default).table[245]? = some .void := by
    change sysnumsArm64[245]? = some .void
    decide +kernel
  exact (hnone .void).mp (if_pos rfl) _ (translateSysnum_entry hentry)

end Abyss
