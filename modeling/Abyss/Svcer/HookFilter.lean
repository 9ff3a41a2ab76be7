import Abyss.Syscall.FilterProgram

/-!
# The filter of the in-process hooker

The hooker traps the syscalls it knows unless they come from itself or from a library that its
mode ignores. The filter first selects the hooked syscall numbers by hand-counted jumps, and
then compares the caller's address with one range after the other. On the 64-bit processor a
range is recognized by the high word of its start and the low words of both ends, which is the
range itself only as long as it does not cross a multiple of 4 GiB.
-/

namespace Abyss.Svcer

open ClassicBpf

/-- `SECCOMP_RET_TRAP`. -/
def seccompRetTrap : BitVec 32 := 0x00030000

/-- `ESvcerHookerMode_IgnoreVdso`. -/
def ignoreVdso : ℕ := 0x1

/-- `ESvcerHookerMode_IgnoreLibc`. -/
def ignoreLibc : ℕ := 0x2

/-- `ESvcerHookerMode_IgnoreLinker`. -/
def ignoreLinker : ℕ := 0x4

/-- `__NR_open`, which only the 32-bit processor has. -/
def nrOpen : BitVec 32 := 5

/-- `__NR_openat`. -/
def nrOpenat : Cpu → BitVec 32
  | .armEabi => 322
  | .arm64 => 56

/-- `__NR_prctl`. -/
def nrPrctl : Cpu → BitVec 32
  | .armEabi => 172
  | .arm64 => 167

/-- `__NR_rt_sigaction`. -/
def nrRtSigaction : Cpu → BitVec 32
  | .armEabi => 174
  | .arm64 => 134

/-- The addresses of a library, from the first one up to the one after the last. -/
structure AddrRange (cpu : Cpu) where
  first : BitVec cpu.wordBits
  last : BitVec cpu.wordBits

/-- What `SvcerFinder` finds in the maps of the process. -/
structure SvcerFinder (cpu : Cpu) where
  self : AddrRange cpu
  vdso : AddrRange cpu
  libc : AddrRange cpu
  linker : AddrRange cpu

section Build

variable {cpu : Cpu}

/-- Allow the callers of one range. -/
def doInitSyscallLibFilterByAddr (range : AddrRange cpu) : List Statement :=
  match cpu with
  | .armEabi =>
    [.load 8, .jump .ge (range.first.setWidth 32) 0 2, .jump .ge (range.last.setWidth 32) 1 0,
      .ret seccompRetAllow]
  | .arm64 =>
    [.load 12, .jump .eq ((range.first >>> 32).setWidth 32) 0 4, .load 8,
      .jump .ge (range.first.setWidth 32) 0 2, .jump .ge (range.last.setWidth 32) 1 0,
      .ret seccompRetAllow]

/-- Allow the callers of a range if the mode asks for it and the range was found. -/
def ignoreRange (mode flag : ℕ) (range : AddrRange cpu) : List Statement :=
  if mode &&& flag ≠ 0 ∧ range.first < range.last then doInitSyscallLibFilterByAddr range else []

/-- Allow the callers in the ranges that are not hooked, and trap all others. -/
def doInitSyscallLibFilter (mode : ℕ) (finder : SvcerFinder cpu) : List Statement :=
  doInitSyscallLibFilterByAddr finder.self ++ ignoreRange mode ignoreVdso finder.vdso ++
    ignoreRange mode ignoreLibc finder.libc ++ ignoreRange mode ignoreLinker finder.linker ++
    [.ret seccompRetTrap]

end Build

/-- Allow all syscalls that are not hooked. -/
def doInitSyscallNumberFilter (cpu : Cpu) : List Statement :=
  [.load 0] ++
    (match cpu with
    | .armEabi => [.jump .eq nrOpen 21 1]
    | .arm64 => []) ++
    [.jump .eq (nrOpenat cpu) 3 0, .jump .eq (nrPrctl cpu) 2 0, .jump .eq (nrRtSigaction cpu) 1 0,
      .ret seccompRetAllow]

/-- The filter that is handed to the kernel. -/
def hookFilter {cpu : Cpu} (mode : ℕ) (finder : SvcerFinder cpu) : List Statement :=
  doInitSyscallNumberFilter cpu ++ doInitSyscallLibFilter mode finder

/-! ## What the filter is for -/

section Intent

variable {cpu : Cpu}

/-- The syscalls that are hooked. -/
def hookedSyscalls : Cpu → List (BitVec 32)
  | .armEabi => [nrOpen, nrOpenat .armEabi, nrPrctl .armEabi, nrRtSigaction .armEabi]
  | .arm64 => [nrOpenat .arm64, nrPrctl .arm64, nrRtSigaction .arm64]

/-- The ranges whose callers are not hooked. -/
def sparedRanges (mode : ℕ) (finder : SvcerFinder cpu) : List (AddrRange cpu) :=
  [finder.self] ++ (if mode &&& ignoreVdso ≠ 0 then [finder.vdso] else []) ++
    (if mode &&& ignoreLibc ≠ 0 then [finder.libc] else []) ++
    (if mode &&& ignoreLinker ≠ 0 then [finder.linker] else [])

/-- An address lies in a range. -/
def AddrRange.Contains (range : AddrRange cpu) (address : BitVec 64) : Prop :=
  range.first.toNat ≤ address.toNat ∧ address.toNat < range.last.toNat

instance (range : AddrRange cpu) (address : BitVec 64) : Decidable (range.Contains address) :=
  inferInstanceAs (Decidable (_ ∧ _))

/-- The verdict for a syscall of a caller. -/
def hookVerdict (mode : ℕ) (finder : SvcerFinder cpu) (data : SeccompData) : BitVec 32 :=
  if data.nr ∉ hookedSyscalls cpu then seccompRetAllow
  else if ∃ range ∈ sparedRanges mode finder, range.Contains data.instructionPointer then
    seccompRetAllow
  else seccompRetTrap

/-- The kernel takes the filter, which decides about the syscall as it is meant to. -/
def Hooks (mode : ℕ) (finder : SvcerFinder cpu) (data : SeccompData) : Prop :=
  JumpsInside (hookFilter mode finder) 0 ∧
    run data.load (hookFilter mode finder) = some (hookVerdict mode finder data)

/-- All ranges were found. -/
structure SvcerFinder.Valid (finder : SvcerFinder cpu) : Prop where
  self : finder.self.first < finder.self.last
  vdso : finder.vdso.first < finder.vdso.last
  libc : finder.libc.first < finder.libc.last
  linker : finder.linker.first < finder.linker.last

/-- An address of a range whose words are enough to tell that it lies in the range: it is in the
same 4 GiB as the start of the range, and its low word is below that of the end. -/
def AddrRange.Recognizes (range : AddrRange cpu) (address : BitVec 64) : Prop :=
  range.Contains address ∧ address.toNat / 2 ^ 32 = range.first.toNat / 2 ^ 32 ∧
    address.toNat % 2 ^ 32 < range.last.toNat % 2 ^ 32

instance (range : AddrRange cpu) (address : BitVec 64) : Decidable (range.Recognizes address) :=
  inferInstanceAs (Decidable (_ ∧ _))

end Intent

/-! ## The 64-bit processor -/

section Arm64

/-- The words of the caller's address, as the filter reads them. -/
theorem load_address (data : SeccompData) :
    data.load 12#32 = (data.instructionPointer >>> 32).setWidth 32 ∧
      data.load 8#32 = data.instructionPointer.setWidth 32 := ⟨rfl, rfl⟩

/-- The high words of two addresses are compared as the multiples of 4 GiB below them. -/
theorem highWord_eq_iff (a b : BitVec 64) :
    (a >>> 32).setWidth 32 = (b >>> 32).setWidth 32 ↔ a.toNat / 2 ^ 32 = b.toNat / 2 ^ 32 := by
  rw [← BitVec.toNat_inj]
  simp only [BitVec.toNat_setWidth, BitVec.toNat_ushiftRight, Nat.shiftRight_eq_div_pow]
  have := a.isLt
  have := b.isLt
  omega

/-- A word is below an address within the same 4 GiB exactly if the low words are. -/
theorem lowWord_le_iff (a b : BitVec 64) :
    a.setWidth 32 ≤ b.setWidth 32 ↔ a.toNat % 2 ^ 32 ≤ b.toNat % 2 ^ 32 := by
  rw [BitVec.le_def]
  simp only [BitVec.toNat_setWidth]

/-- What the three tests of a range say about an address. -/
theorem recognizes_iff {range : AddrRange .arm64} (hvalid : range.first < range.last)
    (address : BitVec 64) :
    range.Recognizes address ↔ (address >>> 32).setWidth 32 = (range.first >>> 32).setWidth 32 ∧
      range.first.setWidth 32 ≤ address.setWidth 32 ∧
      ¬range.last.setWidth 32 ≤ address.setWidth 32 := by
  refine Iff.trans ?_ (and_congr (highWord_eq_iff address range.first)
    (and_congr (lowWord_le_iff range.first address)
      (not_congr (lowWord_le_iff range.last address)))).symm
  have hwords : ∀ first last a : ℕ, first < last →
      ((first ≤ a ∧ a < last) ∧ a / 2 ^ 32 = first / 2 ^ 32 ∧ a % 2 ^ 32 < last % 2 ^ 32 ↔
        a / 2 ^ 32 = first / 2 ^ 32 ∧ first % 2 ^ 32 ≤ a % 2 ^ 32 ∧
          ¬last % 2 ^ 32 ≤ a % 2 ^ 32) := by
    omega
  exact hwords _ _ _ hvalid

/-- A range allows the callers that it recognizes; what it leaves behind does not matter, since
each range starts by reading the address again. -/
theorem exec_libFilterByAddr {range : AddrRange .arm64} (hvalid : range.first < range.last)
    (data : SeccompData) (next : List Statement) (acc : BitVec 32) :
    ∃ acc', exec data.load (doInitSyscallLibFilterByAddr range ++ next) 0 acc =
      if range.Recognizes data.instructionPointer then some seccompRetAllow
      else exec data.load next 0 acc' := by
  obtain ⟨hhigh, hlow⟩ := load_address data
  simp only [recognizes_iff hvalid, doInitSyscallLibFilterByAddr, List.cons_append,
    List.nil_append]
  by_cases hsame : (data.instructionPointer >>> 32).setWidth 32 =
      (range.first >>> 32).setWidth 32
  · by_cases hfirst : range.first.setWidth 32 ≤ data.instructionPointer.setWidth 32
    · by_cases hlast : range.last.setWidth 32 ≤ data.instructionPointer.setWidth 32
      · exact ⟨data.instructionPointer.setWidth 32,
          by simp [Test.holds, hhigh, hlow, hsame, hfirst, hlast]⟩
      · exact ⟨0, by simp [Test.holds, hhigh, hlow, hsame, hfirst, hlast]⟩
    · exact ⟨data.instructionPointer.setWidth 32, by simp [Test.holds, hhigh, hlow, hsame, hfirst]⟩
  · exact ⟨(data.instructionPointer >>> 32).setWidth 32, by simp [Test.holds, hhigh, hsame]⟩

/-- The ranges are asked in order, and what none of them recognizes is trapped. -/
theorem exec_libFilter {ranges : List (AddrRange .arm64)}
    (hvalid : ∀ range ∈ ranges, range.first < range.last) (data : SeccompData)
    (acc : BitVec 32) :
    exec data.load (ranges.flatMap doInitSyscallLibFilterByAddr ++ [.ret seccompRetTrap]) 0 acc =
      some (if ∃ range ∈ ranges, range.Recognizes data.instructionPointer then seccompRetAllow
        else seccompRetTrap) := by
  induction ranges generalizing acc with
  | nil => simp
  | cons range rest ih =>
    rw [List.forall_mem_cons] at hvalid
    obtain ⟨acc', hrange⟩ := exec_libFilterByAddr hvalid.1 data
      (rest.flatMap doInitSyscallLibFilterByAddr ++ [.ret seccompRetTrap]) acc
    rw [List.flatMap_cons, List.append_assoc, hrange, ih hvalid.2]
    by_cases hrecognized : range.Recognizes data.instructionPointer
    · simp [hrecognized]
    · simp [hrecognized]

/-- The jumps of a range reach at most the first statement of the next one. -/
theorem jumpsInside_libFilterByAddr (range : AddrRange .arm64) {after : ℕ} (hafter : 0 < after) :
    JumpsInside (doInitSyscallLibFilterByAddr range) after := by
  simp [doInitSyscallLibFilterByAddr, JumpsInside, Statement.offsets]
  omega

/-- The statements for the libraries do not jump out of the program. -/
theorem jumpsInside_libFilter (ranges : List (AddrRange .arm64)) {after : ℕ} (hafter : 0 < after) :
    JumpsInside (ranges.flatMap doInitSyscallLibFilterByAddr) after := by
  induction ranges with
  | nil => trivial
  | cons range rest ih =>
    rw [List.flatMap_cons, jumpsInside_append]
    exact ⟨jumpsInside_libFilterByAddr range (by omega), ih⟩

end Arm64

section Shape

variable {cpu : Cpu} {mode : ℕ} {finder : SvcerFinder cpu}

/-- A range that is spared by a valid finder is not empty. -/
theorem SvcerFinder.Valid.spared (h : finder.Valid) :
    ∀ range ∈ sparedRanges mode finder, range.first < range.last := by
  unfold sparedRanges
  intro range hrange
  simp only [List.mem_append, List.mem_singleton] at hrange
  rcases hrange with ((rfl | hrange) | hrange) | hrange
  · exact h.self
  · split at hrange
    · exact List.mem_singleton.mp hrange ▸ h.vdso
    · cases hrange
  · split at hrange
    · exact List.mem_singleton.mp hrange ▸ h.libc
    · cases hrange
  · split at hrange
    · exact List.mem_singleton.mp hrange ▸ h.linker
    · cases hrange

/-- A filter for ranges that were found has one block for each range that is spared. -/
theorem libFilter_eq (h : finder.Valid) :
    doInitSyscallLibFilter mode finder =
      (sparedRanges mode finder).flatMap doInitSyscallLibFilterByAddr ++
        [.ret seccompRetTrap] := by
  have hignore : ∀ {flag : ℕ} {range : AddrRange cpu}, range.first < range.last →
      ignoreRange mode flag range =
        (if mode &&& flag ≠ 0 then [range] else []).flatMap doInitSyscallLibFilterByAddr := by
    intro flag range hfound
    unfold ignoreRange
    by_cases hflag : mode &&& flag ≠ 0
    · rw [if_pos ⟨hflag, hfound⟩, if_pos hflag, List.flatMap_singleton]
    · rw [if_neg fun h => hflag h.1, if_neg hflag, List.flatMap_nil]
  unfold doInitSyscallLibFilter sparedRanges
  rw [hignore h.vdso, hignore h.libc, hignore h.linker]
  simp only [List.flatMap_append, List.flatMap_singleton]

end Shape

section Verdict

variable {mode : ℕ}

/-- The first part of the filter lets the syscalls pass that are not hooked. -/
theorem exec_numberFilter (data : SeccompData) (next : List Statement) (acc : BitVec 32) :
    exec data.load (doInitSyscallNumberFilter .arm64 ++ next) 0 acc =
      if data.nr ∈ hookedSyscalls .arm64 then exec data.load next 0 data.nr
      else some seccompRetAllow := by
  have hnr : data.load 0#32 = data.nr := rfl
  simp only [doInitSyscallNumberFilter, List.cons_append, List.nil_append]
  by_cases hopenat : data.nr = nrOpenat .arm64
  · simp [Test.holds, hnr, hookedSyscalls, hopenat]
  · by_cases hprctl : data.nr = nrPrctl .arm64
    · simp [Test.holds, hnr, hookedSyscalls, hprctl, nrOpenat, nrPrctl]
    · by_cases hsigaction : data.nr = nrRtSigaction .arm64
      · simp [Test.holds, hnr, hookedSyscalls, hsigaction, nrOpenat, nrPrctl, nrRtSigaction]
      · simp [Test.holds, hnr, hookedSyscalls, hopenat, hprctl, hsigaction]

/-- The kernel takes the filter of the 64-bit processor. -/
theorem jumpsInside_hookFilter {finder : SvcerFinder .arm64} (h : finder.Valid) :
    JumpsInside (hookFilter mode finder) 0 := by
  rw [hookFilter, libFilter_eq h, jumpsInside_append, jumpsInside_append]
  refine ⟨?_, jumpsInside_libFilter _ (by simp), by simp [JumpsInside, Statement.offsets]⟩
  simp [doInitSyscallNumberFilter, JumpsInside, Statement.offsets]

/-- The verdict of the filter of the 64-bit processor. -/
theorem run_hookFilter {finder : SvcerFinder .arm64} (h : finder.Valid) (data : SeccompData) :
    run data.load (hookFilter mode finder) =
      some (if data.nr ∉ hookedSyscalls .arm64 then seccompRetAllow
        else if ∃ range ∈ sparedRanges mode finder, range.Recognizes data.instructionPointer then
          seccompRetAllow
        else seccompRetTrap) := by
  rw [run, hookFilter, exec_numberFilter, libFilter_eq h, exec_libFilter h.spared]
  by_cases hhooked : data.nr ∈ hookedSyscalls .arm64
  · rw [if_pos hhooked, if_neg (not_not.mpr hhooked)]
  · rw [if_neg hhooked, if_pos hhooked]

/-- No filter of the 32-bit processor is long enough for the jump of its first test. -/
theorem not_jumpsInside_hookFilter (finder : SvcerFinder .armEabi) :
    ¬JumpsInside (hookFilter mode finder) 0 := by
  have hrange : ∀ range : AddrRange .armEabi, (doInitSyscallLibFilterByAddr range).length = 4 :=
    fun _ => rfl
  have hignore : ∀ (flag : ℕ) (range : AddrRange .armEabi),
      (ignoreRange mode flag range).length ≤ 4 := by
    intro flag range
    unfold ignoreRange
    split
    · exact (hrange range).le
    · exact Nat.zero_le _
  have hlen : (doInitSyscallLibFilter mode finder).length ≤ 17 := by
    have hvdso := hignore ignoreVdso finder.vdso
    have hlibc := hignore ignoreLibc finder.libc
    have hlinker := hignore ignoreLinker finder.linker
    simp only [doInitSyscallLibFilter, List.length_append, hrange, List.length_singleton]
    omega
  rw [hookFilter, jumpsInside_append]
  rintro ⟨⟨-, hopen, -⟩, -⟩
  have hfirst : (21 : BitVec 8).toNat < 4 + ((doInitSyscallLibFilter mode finder).length + 0) :=
    hopen _ List.mem_cons_self
  have h21 : (21 : BitVec 8).toNat = 21 := rfl
  omega

end Verdict

/-- The kernel takes the filter of the hooker and it decides as it is meant to exactly on the 64-bit
processor, and unless the caller of a hooked syscall lies in a range that is spared and in none of
them that is recognized by its words. -/
theorem hooks_iff {cpu : Cpu} (mode : ℕ) {finder : SvcerFinder cpu} (h : finder.Valid)
    (data : SeccompData) :
    Hooks mode finder data ↔
      cpu = .arm64 ∧ (data.nr ∈ hookedSyscalls cpu →
        (∃ range ∈ sparedRanges mode finder, range.Contains data.instructionPointer) →
          ∃ range ∈ sparedRanges mode finder, range.Recognizes data.instructionPointer) := by
  cases cpu with
  | armEabi =>
    refine ⟨fun hhooks => absurd hhooks.1 (not_jumpsInside_hookFilter finder), ?_⟩
    rintro ⟨hcpu, -⟩
    cases hcpu
  | arm64 =>
    have hcontains : (∃ range ∈ sparedRanges mode finder,
        range.Recognizes data.instructionPointer) →
          ∃ range ∈ sparedRanges mode finder, range.Contains data.instructionPointer := by
      rintro ⟨range, hrange, hrecognized⟩
      exact ⟨range, hrange, hrecognized.1⟩
    have hdiffer : ¬seccompRetTrap = seccompRetAllow := by decide
    unfold Hooks hookVerdict
    rw [run_hookFilter h]
    simp only [jumpsInside_hookFilter h, true_and, Option.some.injEq]
    by_cases hhooked : data.nr ∈ hookedSyscalls .arm64
    · by_cases hspared : ∃ range ∈ sparedRanges mode finder,
          range.Contains data.instructionPointer
      · by_cases hrecognized : ∃ range ∈ sparedRanges mode finder,
            range.Recognizes data.instructionPointer
        · simp [hhooked, hspared, hrecognized]
        · simp [hhooked, hspared, hrecognized, hdiffer]
      · have hnone : ¬∃ range ∈ sparedRanges mode finder,
            range.Recognizes data.instructionPointer := fun h => hspared (hcontains h)
        simp [hhooked, hspared, hnone]
    · simp [hhooked]

/-- A process whose hooker is loaded across a multiple of 4 GiB. -/
def crossingFinder : SvcerFinder .arm64 where
  self := ⟨0x7ffff000, 0x100001000⟩
  vdso := ⟨0x3000, 0x4000⟩
  libc := ⟨0x5000, 0x6000⟩
  linker := ⟨0x7000, 0x8000⟩

/-- A hooked syscall of the C library, which the mode ignores, is allowed there. -/
theorem hooks_crossingLibc :
    Hooks ignoreLibc crossingFinder ⟨56, auditArchAarch64, 0x5800, fun _ => 0⟩ :=
  (hooks_iff ignoreLibc ⟨by decide, by decide, by decide, by decide⟩ _).mpr
    ⟨rfl, fun _ _ => ⟨⟨0x5000, 0x6000⟩, List.mem_cons_of_mem _ List.mem_cons_self, by decide⟩⟩

/-- A process of the 32-bit processor. -/
def armFinder : SvcerFinder .armEabi := ⟨⟨1, 2⟩, ⟨3, 4⟩, ⟨5, 6⟩, ⟨7, 8⟩⟩

/-- The hooker's own syscall is trapped above the multiple of 4 GiB, and a filter of the 32-bit
processor jumps out of its end. -/
theorem crossingSelf_trapped :
    (¬Hooks 0 crossingFinder ⟨56, auditArchAarch64, 0x100000800, fun _ => 0⟩) ∧
      ¬Hooks 0 armFinder ⟨5, 0, 0x100, fun _ => 0⟩ := by
  refine ⟨fun h => absurd h.2 (by decide), fun h => absurd h.1 (by decide)⟩

end Abyss.Svcer
