import Abyss.Syscall.Seccomp
import Mathlib.Data.List.Flatten

/-!
# What a built filter is and returns

A successful build concatenates one section for each audit architecture and a final kill.
The shape is derived from the two passes once; afterwards the filter is executed section by
section, without any reference to the builder.
-/

namespace Abyss

open ClassicBpf Outcome

variable {realloc : ℕ → Bool} {t : Target} {config : SeccompConfig}

/-- The key and the verdict that an entry adds to the section of an ABI, if the ABI has it. -/
def tracedEntry (t : Target) (abi : Abi) (entry : FilteredSysnum) :
    Option (BitVec 32 × BitVec 32) :=
  if detranslateSysnum t abi entry.value = t.syscallAvoider then none
  else some (BitVec.ofNat 32 (detranslateSysnum t abi entry.value),
    seccompRetTrace + BitVec.ofNat 32 entry.flags)

/-- All tests of a section, in the order of the second pass. -/
def tracedEntries (t : Target) (abis : List Abi) (sysnums : List FilteredSysnum) :
    List (BitVec 32 × BitVec 32) :=
  abis.flatMap fun abi => (untilVoid sysnums).filterMap (tracedEntry t abi)

/-- The statements of a section between its opening and the next section. -/
def sectionBody (entries : List (BitVec 32 × BitVec 32)) : List Statement :=
  entries.flatMap returnIfEq ++ [.ret seccompRetAllow]

/-- The statements of the section of one architecture. -/
def archSection (t : Target) (config : SeccompConfig) (sysnums : List FilteredSysnum)
    (arch : SeccompArch) : List Statement :=
  let entries := tracedEntries t arch.abis sysnums
  startStatements config arch.value (1 + entries.length * 2) ++ sectionBody entries

/-- The body of a section has the length that its opening announces. -/
theorem sectionBody_length (entries : List (BitVec 32 × BitVec 32)) :
    (sectionBody entries).length = 1 + entries.length * 2 := by
  rw [sectionBody, List.length_append, length_returnIfEq, List.length_singleton]
  ring

/-! ## From the two passes to the shape -/

/-- The first pass counts what the second pass emits. -/
theorem nbTracedSyscalls_eq_length (abis : List Abi) (sysnums : List FilteredSysnum) :
    nbTracedSyscalls t abis sysnums = (tracedEntries t abis sysnums).length := by
  unfold nbTracedSyscalls tracedEntries
  rw [List.length_flatMap]
  congr 1
  refine List.map_congr_left fun abi _ => ?_
  rw [List.length_filterMap_eq_countP]
  refine List.countP_congr fun entry _ => ?_
  by_cases h : detranslateSysnum t abi entry.value = t.syscallAvoider <;> simp [tracedEntry, h]

/-- A program with more statements, whose remembered length is not updated. -/
def SockFprog.append (program : SockFprog) (statements : List Statement) : SockFprog :=
  ⟨program.len, program.filter ++ statements⟩

/-- Appending statements changes nothing else. -/
theorem addStatements_ok {program program' : SockFprog} {statements : List Statement}
    (h : addStatements realloc program statements = .ok program') :
    program' = program.append statements := by
  unfold addStatements at h
  split at h
  · exact (Except.ok.inj h).symm
  · cases h

/-- Tracing one syscall appends its test. -/
theorem addTraceSyscall_ok {program program' : SockFprog} {syscall flag : ℕ}
    (h : addTraceSyscall realloc program syscall flag = .ok program') :
    program' = program.append
      (returnIfEq (BitVec.ofNat 32 syscall, seccompRetTrace + BitVec.ofNat 32 flag)) := by
  unfold addTraceSyscall at h
  rw [guard_ok_iff] at h
  exact addStatements_ok h.2

/-- The second pass over one ABI appends the tests of its entries. -/
theorem addTraceSyscalls_abi_ok {program program' : SockFprog} {abi : Abi}
    {sysnums : List FilteredSysnum}
    (h : sysnums.foldlM (fun program entry =>
      let syscall := detranslateSysnum t abi entry.value
      if syscall = t.syscallAvoider then .ok program
      else addTraceSyscall realloc program syscall entry.flags) program = .ok program') :
    program' = program.append ((sysnums.filterMap (tracedEntry t abi)).flatMap returnIfEq) := by
  refine foldlM_ok_invariant (fun before p =>
    p = program.append ((before.filterMap (tracedEntry t abi)).flatMap returnIfEq)) h
    (by simp [SockFprog.append]) ?_
  rintro before entry p p' rfl hstep
  simp only [ite_ok_iff] at hstep
  rw [List.filterMap_append, List.flatMap_append]
  rcases hstep with ⟨havoid, hsame⟩ | ⟨havoid, htrace⟩
  · rw [← Except.ok.inj hsame]
    simp [tracedEntry, havoid]
  · rw [addTraceSyscall_ok htrace]
    simp [tracedEntry, havoid, SockFprog.append]

/-- The second pass appends the tests of the ABIs one after the other. -/
theorem addTraceSyscalls_ok {program program' : SockFprog} {abis : List Abi}
    {sysnums : List FilteredSysnum}
    (h : addTraceSyscalls realloc t abis sysnums program = .ok program') :
    program' = program.append ((tracedEntries t abis sysnums).flatMap returnIfEq) := by
  unfold addTraceSyscalls at h
  refine foldlM_ok_invariant (fun before p =>
    p = program.append ((tracedEntries t before sysnums).flatMap returnIfEq)) h
    (by simp [tracedEntries, SockFprog.append]) ?_
  rintro before abi p p' rfl hstep
  rw [addTraceSyscalls_abi_ok hstep]
  simp [tracedEntries, SockFprog.append]

/-- A section that was built fits the announced length and starts below the 16-bit limit. -/
theorem addArchSection_ok {program program' : SockFprog} {arch : SeccompArch}
    {sysnums : List FilteredSysnum}
    (h : addArchSection realloc t config sysnums program arch = .ok program') :
    program'.filter = program.filter ++ archSection t config sysnums arch ∧
      (tracedEntries t arch.abis sysnums).length * 2 + 2 < 2 ^ 32 := by
  unfold addArchSection startArchSection endArchSection at h
  simp only [bind_ok_iff, guard_ok_iff, nbTracedSyscalls_eq_length, lengthEndSection,
    lengthTraceSyscall] at h
  obtain ⟨p₁, ⟨hsmall, p₀, hstart, hlen⟩, p₂, htraces, p₃, hend, -, hfinal⟩ := h
  rw [← Except.ok.inj hfinal, addStatements_ok hend, addTraceSyscalls_ok htraces,
    ← Except.ok.inj hlen, addStatements_ok hstart]
  exact ⟨by simp [archSection, sectionBody, SockFprog.append], by omega⟩

/-- A built program is the sections in order and the final kill, under its own length. -/
theorem seccompProgram_ok {program : SockFprog} {sysnums : List FilteredSysnum}
    (h : seccompProgram realloc t config sysnums = .ok program) :
    program.filter = t.seccompArchs.flatMap (archSection t config sysnums) ++
        [.ret seccompRetKill] ∧
      program.len = BitVec.ofNat 16 program.filter.length ∧
      ∀ arch ∈ t.seccompArchs, (tracedEntries t arch.abis sysnums).length * 2 + 2 < 2 ^ 32 := by
  unfold seccompProgram newProgramFilter finalizeProgramFilter at h
  simp only [bind_ok_iff, ite_ok_iff] at h
  obtain ⟨p₀, hnew, p₁, hsections, p₂, hkill, hfinal⟩ := h
  have hp₀ : p₀ = ⟨0, []⟩ := by
    rcases hnew with ⟨-, h⟩ | ⟨-, h⟩
    · exact (Except.ok.inj h).symm
    · cases h
  subst hp₀
  have hshape : p₁.filter = t.seccompArchs.flatMap (archSection t config sysnums) ∧
      ∀ arch ∈ t.seccompArchs,
        (tracedEntries t arch.abis sysnums).length * 2 + 2 < 2 ^ 32 := by
    refine foldlM_ok_invariant (fun before p =>
      p.filter = before.flatMap (archSection t config sysnums) ∧
        ∀ arch ∈ before, (tracedEntries t arch.abis sysnums).length * 2 + 2 < 2 ^ 32)
      hsections (by simp) ?_
    rintro before arch p p' ⟨hp, hbefore⟩ hstep
    obtain ⟨hp', harch⟩ := addArchSection_ok hstep
    refine ⟨by simp [hp', hp], fun arch' harch' => ?_⟩
    rcases List.mem_append.mp harch' with hold | hnew
    · exact hbefore arch' hold
    · rwa [List.mem_singleton.mp hnew]
  rw [← Except.ok.inj hfinal, addStatements_ok hkill]
  exact ⟨by simp [hshape.1, SockFprog.append], rfl, hshape.2⟩

/-! ## Executing the sections -/

/-- The first word is the number of the syscall. -/
@[simp] theorem SeccompData.load_nr (data : SeccompData) : data.load 0 = data.nr := rfl

/-- The second one is the architecture. -/
@[simp] theorem SeccompData.load_arch (data : SeccompData) : data.load 4 = data.arch := rfl

/-- The third one is the low half of the instruction pointer. -/
@[simp] theorem SeccompData.load_instructionPointer (data : SeccompData) :
    data.load 8 = data.instructionPointer.truncate 32 := rfl

/-- The verdict of a section's tests for a syscall number. -/
def sectionVerdict (entries : List (BitVec 32 × BitVec 32)) (nr : BitVec 32) : BitVec 32 :=
  match entries.find? (fun entry => nr = entry.1) with
  | some entry => entry.2
  | none => seccompRetAllow

/-- The body of a section returns the verdict for the number in the accumulator. -/
theorem exec_sectionBody (load : BitVec 32 → BitVec 32) (entries : List (BitVec 32 × BitVec 32))
    (next : List Statement) (nr : BitVec 32) :
    exec load (sectionBody entries ++ next) 0 nr = some (sectionVerdict entries nr) := by
  rw [sectionBody, List.append_assoc, exec_returnIfEq, sectionVerdict]
  cases entries.find? (fun entry => nr = entry.1) <;> rfl

/-- The jumps of a section's body stay in it. -/
theorem jumpsInside_sectionBody (entries : List (BitVec 32 × BitVec 32)) (after : ℕ) :
    JumpsInside (sectionBody entries) after := by
  rw [sectionBody, jumpsInside_append]
  exact ⟨jumpsInside_returnIfEq entries (by simp), by simp [JumpsInside, Statement.offsets]⟩

end Abyss
