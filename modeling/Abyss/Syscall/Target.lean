import Abyss.Syscall.SysnumTables
import Mathlib.Data.BitVec
import Mathlib.Algebra.BigOperators.Group.List.Basic

/-!
# Architectures and their syscall numbers

An architecture selects, at compile time, the table of each ABI and the list of the audit
architectures for which filters are generated. The structure also keeps what the tables and
that list satisfy, so that no filter is built for an unsound selection: there is an audit
architecture, the audit values differ, numbers of one audit architecture belong to one of its
ABIs, and the numbers are small enough for 32-bit filters and 16-bit program lengths.
-/

namespace Abyss

/-- The table of an ABI, the number of its first entry, and the value stored just past it. -/
structure Sysnums where
  table : List Sysnum
  offset : ℕ
  past : Sysnum

/-- `sysnums->length`. -/
def Sysnums.length (s : Sysnums) : ℕ := s.table.length

/-- An audit architecture with the ABIs whose syscalls it reports. -/
structure SeccompArch where
  value : BitVec 32
  abis : List Abi

/-- The processors for which the library is built. -/
inductive Cpu where
  | armEabi
  | arm64
deriving DecidableEq

/-- The size of `word_t`. -/
def Cpu.wordBits : Cpu → ℕ
  | .armEabi => 32
  | .arm64 => 64

/-- The compile-time choices of `arch.h` that concern syscall numbers. -/
structure Target where
  cpu : Cpu
  sysnums : Abi → Sysnums
  seccompArchs : List SeccompArch
  archs_nonempty : seccompArchs ≠ []
  archs_nodup : (seccompArchs.map (·.value)).Nodup
  abis_apart : ∀ arch ∈ seccompArchs, arch.abis.Pairwise fun a b =>
    (sysnums a).offset + (sysnums a).length ≤ (sysnums b).offset ∨
      (sysnums b).offset + (sysnums b).length ≤ (sysnums a).offset
  numbers_small : ∀ arch ∈ seccompArchs, ∀ abi ∈ arch.abis,
    (sysnums abi).offset + (sysnums abi).length < 2 ^ 32
  numbers_words : ∀ abi, (sysnums abi).offset + (sysnums abi).length < 2 ^ cpu.wordBits
  programs_small : (seccompArchs.map fun arch =>
    5 + 2 * (arch.abis.map fun abi => (sysnums abi).length).sum).sum + 1 < 2 ^ 16

namespace Target

/-- The size of `word_t`. -/
def wordBits (t : Target) : ℕ := t.cpu.wordBits

/-- `SYSCALL_AVOIDER`, the word with all bits set. -/
def syscallAvoider (t : Target) : ℕ := 2 ^ t.wordBits - 1

/-- The architecture whose section opens the filter. -/
def firstArch (t : Target) : SeccompArch := t.seccompArchs.head t.archs_nonempty

end Target

/-- The neutral value of a syscall number; one number past the table is read as well. -/
def translateSysnum (t : Target) (abi : Abi) (sysnum : ℕ) : Sysnum :=
  let sysnums := t.sysnums abi
  if sysnum < sysnums.offset then .void
  else
    let index := sysnum - sysnums.offset
    if index > sysnums.length then .void
    else sysnums.table.getD index sysnums.past

/-- The number of a neutral value: its first entry in the table, or `SYSCALL_AVOIDER`. -/
def detranslateSysnum (t : Target) (abi : Abi) (sysnum : Sysnum) : ℕ :=
  if sysnum = .void then t.syscallAvoider
  else
    match (t.sysnums abi).table.findIdx? (· = sysnum) with
    | some i => i + (t.sysnums abi).offset
    | none => t.syscallAvoider

section Numbers

variable {t : Target} {abi : Abi} {sysnum : Sysnum}

/-- A number other than the avoider is the place of the value in the table. -/
theorem detranslateSysnum_getElem (h : detranslateSysnum t abi sysnum ≠ t.syscallAvoider) :
    ∃ i, detranslateSysnum t abi sysnum = i + (t.sysnums abi).offset ∧
      i < (t.sysnums abi).length ∧ (t.sysnums abi).table[i]? = some sysnum := by
  unfold detranslateSysnum at h ⊢
  split at h
  · exact absurd rfl h
  · rename_i hvoid
    rw [if_neg hvoid]
    split at h
    · rename_i i hi
      obtain ⟨hlt, heq, -⟩ := List.findIdx?_eq_some_iff_getElem.mp hi
      refine ⟨i, rfl, hlt, ?_⟩
      rw [List.getElem?_eq_getElem hlt]
      simpa using heq
    · exact absurd rfl h

/-- Two values with the same number of one ABI are equal. -/
theorem detranslateSysnum_injective {sysnum' : Sysnum}
    (h : detranslateSysnum t abi sysnum ≠ t.syscallAvoider)
    (heq : detranslateSysnum t abi sysnum = detranslateSysnum t abi sysnum') :
    sysnum = sysnum' := by
  obtain ⟨i, hi, -, hget⟩ := detranslateSysnum_getElem h
  obtain ⟨j, hj, -, hget'⟩ := detranslateSysnum_getElem (heq ▸ h)
  have hij : i = j := by omega
  rw [hij, hget'] at hget
  exact (Option.some.inj hget).symm

end Numbers

/-- The AUDIT_ARCH values of the two architectures. -/
def auditArchAarch64 : BitVec 32 := 0xC00000B7

/-- `AUDIT_ARCH_ARM`. -/
def auditArchArm : BitVec 32 := 0x40000028

/-- The choices for arm64, whose second ABI is that of the AArch32 state. -/
def arm64 (past : Abi → Sysnum) : Target where
  cpu := .arm64
  sysnums
    | .default => ⟨sysnumsArm64, 0, past .default⟩
    | .abi2 => ⟨sysnumsArm, 0, past .abi2⟩
    | .abi3 => ⟨[], 0, past .abi3⟩
  seccompArchs := [⟨auditArchAarch64, [.default]⟩, ⟨auditArchArm, [.abi2]⟩]
  archs_nonempty := by simp
  archs_nodup := by decide
  abis_apart := by simp
  numbers_small := by simp [Sysnums.length, sysnumsArm64_length, sysnumsArm_length]
  numbers_words := by
    intro abi
    cases abi <;> simp [Sysnums.length, sysnumsArm64_length, sysnumsArm_length, Cpu.wordBits]
  programs_small := by simp [Sysnums.length, sysnumsArm64_length, sysnumsArm_length]

/-- The choices for 32-bit arm. -/
def arm (past : Abi → Sysnum) : Target where
  cpu := .armEabi
  sysnums
    | .default => ⟨sysnumsArm, 0, past .default⟩
    | abi => ⟨[], 0, past abi⟩
  seccompArchs := [⟨auditArchArm, [.default]⟩]
  archs_nonempty := by simp
  archs_nodup := by decide
  abis_apart := by simp
  numbers_small := by simp [Sysnums.length, sysnumsArm_length]
  numbers_words := by intro abi; cases abi <;> simp [Sysnums.length, sysnumsArm_length, Cpu.wordBits]
  programs_small := by simp [Sysnums.length, sysnumsArm_length]

end Abyss
