import Abyss.Syscall.FilterPlain

/-!
# The filter that spares the C library

With `exclude_libc` set a section also looks at the caller's address. It compares the low word
of the address only, and its jump for a foreign architecture ends at its own allowing return,
so the first section answers for every architecture. What the program should do and what the
first section does are both stated here, and the inputs on which they agree are determined.
-/

namespace Abyss

open ClassicBpf Outcome

variable {realloc : ℕ → Bool} {t : Target} {config : SeccompConfig}

/-- Whether a call comes from the C library. -/
def SeccompConfig.InLibc (config : SeccompConfig) (ip : BitVec 64) : Prop :=
  config.libcStart ≤ ip ∧ ip < config.libcEnd

/-- What the generated statements compare: the low words, with the end included. -/
def SeccompConfig.LowInLibc (config : SeccompConfig) (ip : BitVec 64) : Prop :=
  config.libcStart.truncate 32 ≤ ip.truncate 32 ∧ ip.truncate 32 ≤ config.libcEnd.truncate 32

instance (config : SeccompConfig) (ip : BitVec 64) : Decidable (config.InLibc ip) :=
  inferInstanceAs (Decidable (_ ∧ _))

instance (config : SeccompConfig) (ip : BitVec 64) : Decidable (config.LowInLibc ip) :=
  inferInstanceAs (Decidable (_ ∧ _))

instance (t : Target) (abi : Abi) (sysnum : Sysnum) (nr : BitVec 32) :
    Decidable (IsNumber t abi sysnum nr) :=
  inferInstanceAs (Decidable (_ ∧ _))

/-- The first listed syscall that has the number `nr` for an ABI of the architecture. -/
def listedEntry (t : Target) (arch : SeccompArch) (sysnums : List FilteredSysnum)
    (nr : BitVec 32) : Option FilteredSysnum :=
  arch.abis.findSome? fun abi =>
    (untilVoid sysnums).find? fun entry => IsNumber t abi entry.value nr

/-- The verdict for a syscall number when the caller's address does not matter. -/
def listedVerdict (t : Target) (arch : SeccompArch) (sysnums : List FilteredSysnum)
    (nr : BitVec 32) : BitVec 32 :=
  match listedEntry t arch sysnums nr with
  | some entry => seccompRetTrace + BitVec.ofNat 32 entry.flags
  | none => seccompRetAllow

/-- What a program that spares the C library has to do for one system call. -/
structure FiltersOutsideLibc (t : Target) (config : SeccompConfig)
    (sysnums : List FilteredSysnum) (program : SockFprog) (data : SeccompData) : Prop where
  length : program.len.toNat = program.filter.length
  jumps : JumpsInside program.filter 0
  traced : ∀ arch ∈ t.seccompArchs, data.arch = arch.value →
    ¬config.InLibc data.instructionPointer →
    ∀ entry, listedEntry t arch sysnums data.nr = some entry →
      run data.load program.filter = some (seccompRetTrace + BitVec.ofNat 32 entry.flags)
  allowed : ∀ arch ∈ t.seccompArchs, data.arch = arch.value →
    config.InLibc data.instructionPointer ∨ listedEntry t arch sysnums data.nr = none →
      run data.load program.filter = some seccompRetAllow
  killed : (∀ arch ∈ t.seccompArchs, data.arch ≠ arch.value) →
    run data.load program.filter = some seccompRetKill

/-- The system calls for which the first section does what the whole program has to do. -/
def SparesLibc (t : Target) (config : SeccompConfig) (sysnums : List FilteredSysnum)
    (data : SeccompData) : Prop :=
  ∃ arch ∈ t.seccompArchs, data.arch = arch.value ∧
    (listedVerdict t arch sysnums data.nr = seccompRetAllow ∨
      if data.arch = t.firstArch.value then
        config.LowInLibc data.instructionPointer ↔ config.InLibc data.instructionPointer
      else config.InLibc data.instructionPointer)

/-- The number of statements of a program that spares the C library: ten and two for each test in a
section, and the last one. -/
def lengthOutsideLibc (t : Target) (sysnums : List FilteredSysnum) : ℕ :=
  (t.seccompArchs.map fun arch => 10 + 2 * (tracedEntries t arch.abis sysnums).length).sum + 1

/-! ## The tests of a section -/

/-- An entry's test is met by the numbers of the entry. -/
theorem tracedEntry_any {arch : SeccompArch} (harch : arch ∈ t.seccompArchs) {abi : Abi}
    (habi : abi ∈ arch.abis) (nr : BitVec 32) (entry : FilteredSysnum) :
    ((tracedEntry t abi entry).any fun e => nr = e.1) = decide (IsNumber t abi entry.value nr) := by
  by_cases havoid : detranslateSysnum t abi entry.value = t.syscallAvoider
  · simp [tracedEntry, IsNumber, havoid]
  · obtain ⟨i, hi, hlt, -⟩ := detranslateSysnum_getElem havoid
    have hsmall := t.numbers_small arch harch abi habi
    simp only [tracedEntry, IsNumber, havoid, ↓reduceIte, Option.any_some, ne_eq,
      not_false_eq_true, true_and, decide_eq_decide]
    rw [eq_comm, ← BitVec.toNat_inj, BitVec.toNat_ofNat, Nat.mod_eq_of_lt (by omega)]

/-- The tests of a section give the verdict of the first listed syscall. -/
theorem sectionVerdict_eq_listedVerdict {arch : SeccompArch} (harch : arch ∈ t.seccompArchs)
    (sysnums : List FilteredSysnum) (nr : BitVec 32) :
    sectionVerdict (tracedEntries t arch.abis sysnums) nr = listedVerdict t arch sysnums nr := by
  suffices h : ∀ abis : List Abi, (∀ abi ∈ abis, abi ∈ arch.abis) →
      ((tracedEntries t abis sysnums).find? fun e => nr = e.1).map (·.2) =
        (abis.findSome? fun abi => (untilVoid sysnums).find? fun entry =>
          IsNumber t abi entry.value nr).map fun entry =>
            seccompRetTrace + BitVec.ofNat 32 entry.flags by
    have h := h arch.abis fun _ habi => habi
    unfold sectionVerdict listedVerdict listedEntry
    revert h
    cases (tracedEntries t arch.abis sysnums).find? (fun e => nr = e.1) <;>
      cases arch.abis.findSome? _ <;> simp
  intro abis hsub
  induction abis with
  | nil => rfl
  | cons abi abis ih =>
    have hhead : ((untilVoid sysnums).filterMap (tracedEntry t abi)).find? (fun e => nr = e.1) =
        ((untilVoid sysnums).find? fun entry => IsNumber t abi entry.value nr).bind
          (tracedEntry t abi) := by
      rw [List.find?_filterMap]
      simp only [tracedEntry_any harch (hsub abi List.mem_cons_self)]
    have hih := ih fun abi' h => hsub abi' (List.mem_cons_of_mem _ h)
    rw [tracedEntries, List.flatMap_cons, List.find?_append, hhead, List.findSome?_cons]
    cases hfound : (untilVoid sysnums).find? fun entry => IsNumber t abi entry.value nr with
    | none =>
      rw [Option.bind_none, Option.none_or]
      exact hih
    | some entry =>
      have hnumber : IsNumber t abi entry.value nr := by simpa using List.find?_some hfound
      simp [tracedEntry, hnumber.1]

/-! ## Executing the first section -/

/-- Skipping the body of a section up to its last statement allows the call. -/
theorem exec_sectionBody_end (load : BitVec 32 → BitVec 32) (s : Statement)
    (entries : List (BitVec 32 × BitVec 32)) (next : List Statement) (acc : BitVec 32) :
    exec load (s :: (sectionBody entries ++ next)) (1 + entries.length * 2) acc =
      some seccompRetAllow := by
  have hlen : 1 + entries.length * 2 = (entries.flatMap returnIfEq).length + 0 + 1 := by
    rw [length_returnIfEq]
    ring
  rw [hlen, exec_skip, sectionBody, List.append_assoc]
  exact exec_append_skip load (entries.flatMap returnIfEq) (.ret seccompRetAllow :: next) 0 acc

/-- A section that spares the C library answers for every architecture. -/
theorem exec_archSection_libc (hlibc : config.excludeLibc = true) (data : SeccompData)
    (sysnums : List FilteredSysnum) (arch : SeccompArch) (next : List Statement)
    (acc : BitVec 32) (hsmall : (tracedEntries t arch.abis sysnums).length * 2 + 2 < 2 ^ 32) :
    exec data.load (archSection t config sysnums arch ++ next) 0 acc =
      if data.arch = arch.value ∧ ¬config.LowInLibc data.instructionPointer then
        some (sectionVerdict (tracedEntries t arch.abis sysnums) data.nr)
      else some seccompRetAllow := by
  have hjump : (BitVec.ofNat 32 (1 + (tracedEntries t arch.abis sysnums).length * 2)).toNat =
      1 + (tracedEntries t arch.abis sysnums).length * 2 := by
    rw [BitVec.toNat_ofNat, Nat.mod_eq_of_lt (by omega)]
  have hzero : BitVec.toNat (0 : BitVec 8) = 0 := rfl
  have hone : BitVec.toNat (1 : BitVec 8) = 0 + 1 := rfl
  have htwo : BitVec.toNat (2 : BitVec 32) = 0 + 1 + 1 := rfl
  have hfour : BitVec.toNat (4 : BitVec 32) = 0 + 1 + 1 + 1 + 1 := rfl
  simp only [archSection, startStatements, hlibc, ↓reduceIte, List.cons_append,
    List.nil_append, exec_load, exec_jump, SeccompData.load_arch, Test.holds, decide_eq_true_eq]
  by_cases harch : data.arch = arch.value
  · simp only [harch, ↓reduceIte, hone, exec_skip, exec_load, exec_jump, hzero, true_and,
      SeccompData.load_instructionPointer, SeccompConfig.LowInLibc]
    by_cases hend : config.libcEnd.truncate 32 < data.instructionPointer.truncate 32
    · have hout : ¬data.instructionPointer.truncate 32 ≤ config.libcEnd.truncate 32 := by
        simpa using hend
      simp only [Test.holds, hend, hout, decide_true, ↓reduceIte, exec_ja, htwo, exec_skip, exec_load,
        SeccompData.load_nr, and_false, not_false_eq_true]
      exact exec_sectionBody _ _ _ _
    · have hin : data.instructionPointer.truncate 32 ≤ config.libcEnd.truncate 32 := by
        simpa using hend
      simp only [Test.holds, hend, hin, decide_false, Bool.false_eq_true, ↓reduceIte, exec_skip,
        exec_jump, decide_eq_true_eq, and_true]
      by_cases hstart : config.libcStart.truncate 32 ≤ data.instructionPointer.truncate 32
      · simp only [hstart, ↓reduceIte, hzero, exec_ja, hjump, not_true_eq_false]
        exact exec_sectionBody_end _ _ _ _ _
      · simp only [hstart, ↓reduceIte, not_false_eq_true]
        exact exec_sectionBody _ _ _ _
  · simp only [harch, ↓reduceIte, hzero, exec_ja, hfour, exec_skip, hjump, false_and]
    exact exec_sectionBody_end _ _ _ _ _

/-- The jumps of a section that spares the C library stay in it. -/
theorem jumpsInside_archSection_libc (hlibc : config.excludeLibc = true)
    (sysnums : List FilteredSysnum) (arch : SeccompArch) (after : ℕ)
    (hsmall : (tracedEntries t arch.abis sysnums).length * 2 + 2 < 2 ^ 32) :
    JumpsInside (archSection t config sysnums arch) after := by
  have hjump : (BitVec.ofNat 32 (1 + (tracedEntries t arch.abis sysnums).length * 2)).toNat =
      1 + (tracedEntries t arch.abis sysnums).length * 2 := by
    rw [BitVec.toNat_ofNat, Nat.mod_eq_of_lt (by omega)]
  rw [archSection, jumpsInside_append, sectionBody_length]
  refine ⟨?_, jumpsInside_sectionBody _ _⟩
  simp [startStatements, hlibc, JumpsInside, Statement.offsets, hjump]
  omega

/-- The first section decides the verdict of a whole program that spares the C library. -/
theorem run_seccompProgram_libc (hlibc : config.excludeLibc = true)
    {sysnums : List FilteredSysnum} {program : SockFprog}
    (h : seccompProgram realloc t config sysnums = .ok program) (data : SeccompData) :
    run data.load program.filter =
      if data.arch = t.firstArch.value ∧ ¬config.LowInLibc data.instructionPointer then
        some (listedVerdict t t.firstArch sysnums data.nr)
      else some seccompRetAllow := by
  obtain ⟨hfilter, -, hsmall⟩ := seccompProgram_ok h
  have hfirst : t.firstArch ∈ t.seccompArchs := List.head_mem _
  have hcons : t.seccompArchs = t.firstArch :: t.seccompArchs.tail :=
    (List.cons_head_tail t.archs_nonempty).symm
  rw [run, hfilter, hcons, List.flatMap_cons, List.append_assoc,
    exec_archSection_libc hlibc data sysnums _ _ _ (hsmall _ hfirst),
    sectionVerdict_eq_listedVerdict hfirst]

/-- The jumps of a whole program that spares the C library stay in it. -/
theorem jumpsInside_seccompProgram_libc (hlibc : config.excludeLibc = true)
    {sysnums : List FilteredSysnum} {program : SockFprog}
    (h : seccompProgram realloc t config sysnums = .ok program) :
    JumpsInside program.filter 0 := by
  obtain ⟨hfilter, -, hsmall⟩ := seccompProgram_ok h
  have hsections : ∀ archs : List SeccompArch,
      (∀ arch ∈ archs, (tracedEntries t arch.abis sysnums).length * 2 + 2 < 2 ^ 32) →
        JumpsInside (archs.flatMap (archSection t config sysnums)) 1 := by
    intro archs
    induction archs with
    | nil => exact fun _ => trivial
    | cons arch archs ih =>
      intro hsmall
      rw [List.flatMap_cons, jumpsInside_append]
      exact ⟨jumpsInside_archSection_libc hlibc sysnums arch _ (hsmall arch List.mem_cons_self),
        ih fun arch' h => hsmall arch' (List.mem_cons_of_mem _ h)⟩
  rw [hfilter, jumpsInside_append]
  exact ⟨hsections _ hsmall, by simp [JumpsInside, Statement.offsets]⟩

/-- The length of a whole program that spares the C library. -/
theorem length_seccompProgram_libc (hlibc : config.excludeLibc = true)
    {sysnums : List FilteredSysnum} {program : SockFprog}
    (h : seccompProgram realloc t config sysnums = .ok program) :
    program.filter.length = lengthOutsideLibc t sysnums := by
  have hsection (arch : SeccompArch) : (archSection t config sysnums arch).length =
      10 + 2 * (tracedEntries t arch.abis sysnums).length := by
    rw [archSection, List.length_append, sectionBody_length]
    simp only [startStatements, hlibc, ↓reduceIte, List.length_cons, List.length_nil]
    omega
  rw [(seccompProgram_ok h).1, List.length_append, List.length_flatMap, lengthOutsideLibc]
  simp only [hsection, List.length_singleton]

/-- An audit value belongs to one architecture. -/
theorem Target.arch_unique {arch arch' : SeccompArch} (h : arch ∈ t.seccompArchs)
    (h' : arch' ∈ t.seccompArchs) (heq : arch.value = arch'.value) : arch = arch' :=
  List.inj_on_of_nodup_map t.archs_nodup h h' heq

/-- A built program spares the C library exactly where the first section's verdict is right. -/
theorem seccompProgram_filtersOutsideLibc_iff (hlibc : config.excludeLibc = true)
    {sysnums : List FilteredSysnum} {program : SockFprog}
    (h : seccompProgram realloc t config sysnums = .ok program) (data : SeccompData) :
    FiltersOutsideLibc t config sysnums program data ↔
      lengthOutsideLibc t sysnums < 2 ^ 16 ∧ SparesLibc t config sysnums data := by
  rw [← length_seccompProgram_libc hlibc h]
  have hfirst : t.firstArch ∈ t.seccompArchs := List.head_mem _
  have hlen := (seccompProgram_ok h).2.1
  have hrun := run_seccompProgram_libc hlibc h data
  constructor
  · intro hfilters
    refine ⟨?_, ?_⟩
    · rw [← hfilters.length]
      exact program.len.isLt
    by_cases hhandled : ∃ arch ∈ t.seccompArchs, data.arch = arch.value
    · obtain ⟨arch, harch, heq⟩ := hhandled
      refine ⟨arch, harch, heq, or_iff_not_imp_left.mpr fun hlisted => ?_⟩
      obtain ⟨entry, hentry⟩ : ∃ entry, listedEntry t arch sysnums data.nr = some entry := by
        rw [← Option.ne_none_iff_exists']
        intro hnone
        exact hlisted (by rw [listedVerdict, hnone])
      have hverdict : listedVerdict t arch sysnums data.nr =
          seccompRetTrace + BitVec.ofNat 32 entry.flags := by rw [listedVerdict, hentry]
      have htraced := fun hout => hfilters.traced arch harch heq hout entry hentry
      have hallowed := fun hin => hfilters.allowed arch harch heq (.inl hin)
      rw [hrun, ← hverdict] at htraced
      rw [hrun] at hallowed
      split
      · rename_i hsame
        obtain rfl : arch = t.firstArch := t.arch_unique harch hfirst (heq.symm.trans hsame)
        constructor
        · intro hlow
          by_contra hout
          exact hlisted (by simpa [hlow, eq_comm] using htraced hout)
        · intro hin
          by_contra hlow
          exact hlisted (by simpa [hsame, hlow] using hallowed hin)
      · rename_i hother
        by_contra hout
        exact hlisted (by simpa [hother, eq_comm] using htraced hout)
    · exfalso
      have hkilled := hfilters.killed fun arch harch heq => hhandled ⟨arch, harch, heq⟩
      have hother : data.arch ≠ t.firstArch.value := fun heq => hhandled ⟨_, hfirst, heq⟩
      rw [hrun] at hkilled
      simp [hother, seccompRetAllow, seccompRetKill] at hkilled
  · rintro ⟨hsmall, arch, harch, heq, hspares⟩
    have hsame : ∀ arch' ∈ t.seccompArchs, data.arch = arch'.value → arch' = arch :=
      fun arch' harch' heq' => t.arch_unique harch' harch (heq'.symm.trans heq)
    have hverdict : run data.load program.filter =
        some (if config.InLibc data.instructionPointer then seccompRetAllow
          else listedVerdict t arch sysnums data.nr) := by
      rw [hrun]
      by_cases hfirst' : data.arch = t.firstArch.value
      · rw [hsame _ hfirst hfirst']
        rw [if_pos hfirst'] at hspares
        by_cases hin : config.InLibc data.instructionPointer <;>
          by_cases hlow : config.LowInLibc data.instructionPointer <;>
          simp_all
      · rw [if_neg hfirst'] at hspares
        by_cases hin : config.InLibc data.instructionPointer <;> simp_all
    refine ⟨?_, jumpsInside_seccompProgram_libc hlibc h, ?_, ?_, ?_⟩
    · rw [hlen, BitVec.toNat_ofNat]
      exact Nat.mod_eq_of_lt hsmall
    · intro arch' harch' heq' hout entry hentry
      rw [hsame arch' harch' heq'] at hentry
      rw [hverdict, if_neg hout, listedVerdict, hentry]
    · intro arch' harch' heq' hallowed
      rw [hsame arch' harch' heq'] at hallowed
      rw [hverdict]
      split
      · rfl
      · rename_i hout
        rw [listedVerdict, hallowed.resolve_left hout]
    · exact fun hunhandled => absurd heq (hunhandled arch harch)

/-- A call of the second architecture of arm64 from outside the C library. -/
def foreignOpenat : SeccompData := ⟨322, auditArchArm, 0x5000, fun _ => 0⟩

/-- The arm64 filter of one syscall, which spares a small libc. -/
def openatOutsideLibc : Except ℤ SockFprog :=
  seccompProgram (fun _ => true) (arm64 fun _ => .void) ⟨true, 0x1000, 0x2000⟩ [⟨.openat, 0⟩]

/-- A foreign call of a listed syscall is not traced. -/
theorem seccompProgram_misses_foreignOpenat :
    ∃ program, openatOutsideLibc = .ok program ∧
      ¬FiltersOutsideLibc (arm64 fun _ => .void) ⟨true, 0x1000, 0x2000⟩ [⟨.openat, 0⟩] program
        foreignOpenat := by
  have hbuilt : openatOutsideLibc.isOk = true := by decide +kernel
  cases h : openatOutsideLibc with
  | error => rw [h] at hbuilt; cases hbuilt
  | ok program =>
    refine ⟨program, rfl, fun hfilters => ?_⟩
    have hentry : listedEntry (arm64 fun _ => .void) ⟨auditArchArm, [.abi2]⟩ [⟨.openat, 0⟩]
        foreignOpenat.nr = some ⟨.openat, 0⟩ := by decide +kernel
    have htraced := hfilters.traced _ (by simp [arm64]) rfl (by decide) _ hentry
    rw [run_seccompProgram_libc rfl h] at htraced
    have hother : ¬(foreignOpenat.arch = (arm64 fun _ => .void).firstArch.value ∧
        ¬(SeccompConfig.mk true 0x1000 0x2000).LowInLibc foreignOpenat.instructionPointer) := by
      decide
    rw [if_neg hother] at htraced
    exact absurd (Option.some.inj htraced) (by decide)

/-- The condition decides the arm64 call of the first architecture from outside libc. -/
theorem seccompProgram_filtersOutsideLibc_openat :
    ∃ program, openatOutsideLibc = .ok program ∧
      (FiltersOutsideLibc (arm64 fun _ => .void) ⟨true, 0x1000, 0x2000⟩ [⟨.openat, 0⟩] program
          ⟨56, auditArchAarch64, 0x5000, fun _ => 0⟩ ↔
        lengthOutsideLibc (arm64 fun _ => .void) [⟨.openat, 0⟩] < 2 ^ 16 ∧
          SparesLibc (arm64 fun _ => .void) ⟨true, 0x1000, 0x2000⟩ [⟨.openat, 0⟩]
            ⟨56, auditArchAarch64, 0x5000, fun _ => 0⟩) := by
  have hbuilt : openatOutsideLibc.isOk = true := by decide +kernel
  cases h : openatOutsideLibc with
  | error => rw [h] at hbuilt; cases hbuilt
  | ok program => exact ⟨program, rfl, seccompProgram_filtersOutsideLibc_iff rfl h _⟩

end Abyss
