import Abyss.Syscall.FilterLibc
import Abyss.Syscall.RequiredSysnums

/-!
# From the user's list to the kernel's verdict

`enable_syscall_filtering` turns the user's list into an installed program. What that program
answers to a syscall depends on the user's list and the tracer's own syscalls only: the flags of a
reported syscall are all those that the user listed it with, or the tracer's own flag if the user
left it out, and what neither of them lists is not reported. The order of the list, its repetitions
and the way it was merged do not matter.
-/

namespace Abyss

open ClassicBpf Outcome

/-- The flags of all entries for a syscall. -/
def flagsOf (entries : List FilteredSysnum) (s : Sysnum) : ℕ :=
  (entries.filter (·.value = s)).foldl (fun flags entry => flags ||| entry.flags) 0

/-- The flags that a syscall has to be reported with, if it has to be reported at all. -/
def requestedFlags (add : List FilteredSysnum) (s : Sysnum) : Option ℕ :=
  if (untilVoid add).any (·.value = s) then some (flagsOf (untilVoid add) s)
  else if internalSysnums.any (·.value = s) then some (flagsOf internalSysnums s)
  else none

/-- The verdict on a syscall with these flags. -/
def requestVerdict : Option ℕ → BitVec 32
  | some flags => seccompRetTrace + BitVec.ofNat 32 flags
  | none => seccompRetAllow

/-- The part of a verdict that tells what the kernel does. -/
def seccompRetAction (verdict : BitVec 32) : BitVec 32 := verdict &&& 0xffff0000

/-- The part of a verdict that the kernel passes on as the message of the event. -/
def seccompRetData (verdict : BitVec 32) : BitVec 32 := verdict &&& 0xffff

/-! ## The flags that are asked for -/

section Flags

variable {entries add sysnums : List FilteredSysnum} {s : Sysnum}

/-- The flags have the bits of every entry for the syscall, and no others. -/
theorem testBit_flagsOf (entries : List FilteredSysnum) (s : Sysnum) (i : ℕ) :
    (flagsOf entries s).testBit i = true ↔
      ∃ entry ∈ entries, entry.value = s ∧ entry.flags.testBit i = true := by
  have hfold : ∀ (chosen : List FilteredSysnum) (flags : ℕ),
      (chosen.foldl (fun flags entry => flags ||| entry.flags) flags).testBit i = true ↔
        flags.testBit i = true ∨ ∃ entry ∈ chosen, entry.flags.testBit i = true := by
    intro chosen
    induction chosen with
    | nil => simp
    | cons entry rest ih =>
      intro flags
      rw [List.foldl_cons, ih, Nat.testBit_or, Bool.or_eq_true, List.exists_mem_cons_iff, or_assoc]
  unfold flagsOf
  rw [hfold]
  simp [and_assoc]

/-- A number is looked for among the entries. -/
theorem any_value : entries.any (·.value = s) = true ↔ s ∈ entries.map (·.value) := by
  simp [List.any_eq_true]

/-- What is not named is not listed. -/
theorem untilVoid_named {entry : FilteredSysnum} (h : entry ∈ untilVoid add) :
    entry.value ≠ .void := by
  simpa using List.mem_takeWhile_imp h

/-- The flags that are asked for are not those of the terminator. -/
theorem requestedFlags_named (h : requestedFlags add s ≠ none) : s ≠ .void := by
  rintro rfl
  unfold requestedFlags at h
  rw [if_neg fun hany => ?_, if_neg (by decide)] at h
  · exact h rfl
  · obtain ⟨entry, hentry, hvoid⟩ := List.mem_map.mp (any_value.mp hany)
    exact untilVoid_named hentry hvoid

/-- The merged list has one entry for each syscall that is asked for, with the flags that are. -/
theorem requestedFlags_merged {missing : List FilteredSysnum}
    (hmerged : MergedFrom (untilVoid add ++ missing) sysnums)
    (hmissing : ∀ entry, entry ∈ missing ↔ entry ∈ internalSysnums ∧
      ¬∃ user ∈ untilVoid add, user.value = entry.value) (s : Sysnum) :
    (sysnums.find? (·.value = s)).map (·.flags) = requestedFlags add s := by
  have hlisted : s ∈ sysnums.map (·.value) ↔
      s ∈ (untilVoid add).map (·.value) ∨ s ∈ missing.map (·.value) := by
    rw [hmerged.values, List.map_append, List.mem_append]
  have hown : s ∉ (untilVoid add).map (·.value) →
      (s ∈ missing.map (·.value) ↔ s ∈ internalSysnums.map (·.value)) := by
    intro huser
    rw [List.mem_map, List.mem_map]
    refine exists_congr fun entry => and_congr_left fun hvalue => ?_
    rw [hmissing]
    refine and_iff_left fun ⟨user, hmem, heq⟩ => huser ?_
    exact List.mem_map.mpr ⟨user, hmem, heq.trans hvalue⟩
  unfold requestedFlags
  cases hfind : sysnums.find? (·.value = s) with
  | none =>
    have hnone : s ∉ sysnums.map (·.value) := by
      intro hmem
      obtain ⟨entry, hentry, hvalue⟩ := List.mem_map.mp hmem
      exact absurd hvalue (by simpa using List.find?_eq_none.mp hfind entry hentry)
    rw [hlisted, not_or] at hnone
    rw [if_neg (hnone.1 ∘ any_value.mp), if_neg fun hany => hnone.2 ?_]
    · rfl
    · exact (hown hnone.1).mpr (any_value.mp hany)
  | some merged =>
    have hmem := List.mem_of_find?_eq_some hfind
    have hvalue : merged.value = s := by simpa using List.find?_some hfind
    have hbits := hmerged.flags merged hmem
    rw [hvalue] at hbits
    by_cases huser : s ∈ (untilVoid add).map (·.value)
    · rw [if_pos (any_value.mpr huser)]
      refine congrArg some (Nat.eq_of_testBit_eq fun i => Bool.eq_iff_iff.mpr ?_)
      rw [hbits, testBit_flagsOf]
      refine exists_congr fun entry => ⟨fun ⟨hin, hentry⟩ => ⟨?_, hentry⟩, fun ⟨hin, hentry⟩ =>
        ⟨List.mem_append_left _ hin, hentry⟩⟩
      refine (List.mem_append.mp hin).resolve_right fun hin => ((hmissing entry).mp hin).2 ?_
      obtain ⟨user, hmem, heq⟩ := List.mem_map.mp huser
      exact ⟨user, hmem, heq.trans hentry.1.symm⟩
    · have hinternal : s ∈ internalSysnums.map (·.value) :=
        (hown huser).mp ((hlisted.mp (List.mem_map.mpr ⟨merged, hmem, hvalue⟩)).resolve_left huser)
      rw [if_neg (huser ∘ any_value.mp), if_pos (any_value.mpr hinternal)]
      refine congrArg some (Nat.eq_of_testBit_eq fun i => Bool.eq_iff_iff.mpr ?_)
      rw [hbits, testBit_flagsOf]
      refine exists_congr fun entry => ⟨fun ⟨hin, hentry⟩ => ⟨?_, hentry⟩, fun ⟨hin, hentry⟩ =>
        ⟨List.mem_append_right _ ((hmissing entry).mpr ⟨hin, ?_⟩), hentry⟩⟩
      · rcases List.mem_append.mp hin with huser' | hown'
        · exact absurd (List.mem_map.mpr ⟨entry, huser', hentry.1⟩) huser
        · exact ((hmissing entry).mp hown').1
      · rintro ⟨user, hmem, heq⟩
        exact huser (List.mem_map.mpr ⟨user, hmem, heq.trans hentry.1⟩)

end Flags

/-! ## The verdict of the installed program -/

section Verdict

variable {t : Target} {add sysnums : List FilteredSysnum} {arch : SeccompArch} {nr : BitVec 32}

/-- A list of named entries is read to its end. -/
theorem untilVoid_eq_self (h : ∀ entry ∈ sysnums, entry.value ≠ .void) :
    untilVoid sysnums = sysnums :=
  List.takeWhile_eq_self_iff.mpr fun entry hentry => decide_eq_true (h entry hentry)

/-- The number of a syscall gets the verdict that is asked for. -/
theorem listedVerdict_requested (harch : arch ∈ t.seccompArchs)
    (hnamed : ∀ entry ∈ sysnums, entry.value ≠ .void)
    (hflags : ∀ s, (sysnums.find? (·.value = s)).map (·.flags) = requestedFlags add s)
    {abi : Abi} (habi : abi ∈ arch.abis) {s : Sysnum} (hnr : IsNumber t abi s nr) :
    listedVerdict t arch sysnums nr = requestVerdict (requestedFlags add s) := by
  have hsame : ∀ {other : Abi} (_ : other ∈ arch.abis) {entry : FilteredSysnum},
      IsNumber t other entry.value nr → entry.value = s := fun hother _ hentry =>
    isNumber_unique harch hother habi hentry hnr
  unfold listedVerdict listedEntry
  rw [untilVoid_eq_self hnamed, ← hflags]
  cases hfound : arch.abis.findSome? fun abi =>
      sysnums.find? fun entry => IsNumber t abi entry.value nr with
  | none =>
    have hnone : sysnums.find? (·.value = s) = none := by
      rw [List.find?_eq_none]
      intro entry hentry hvalue
      have hvalue : entry.value = s := by simpa using hvalue
      have hfirst := List.findSome?_eq_none_iff.mp hfound abi habi
      exact List.find?_eq_none.mp hfirst entry hentry (decide_eq_true (hvalue ▸ hnr))
    rw [hnone]
    rfl
  | some entry =>
    obtain ⟨other, hother, hentry⟩ := List.exists_of_findSome?_eq_some hfound
    have hnumber : IsNumber t other entry.value nr := by simpa using List.find?_some hentry
    have hvalue := hsame hother hnumber
    -- The entry found is the first one for the syscall, whatever ABI it was found for.
    have hfirst : sysnums.find? (·.value = s) = some entry := by
      rw [List.find?_eq_some_iff_append] at hentry ⊢
      obtain ⟨-, before, after, rfl, hbefore⟩ := hentry
      refine ⟨by simpa using hvalue, before, after, rfl, fun earlier hearlier => ?_⟩
      have hno := hbefore earlier hearlier
      simp only [Bool.not_eq_true', decide_eq_false_iff_not] at hno ⊢
      exact fun hequal => hno (hvalue.trans hequal.symm ▸ hnumber)
    rw [hfirst]
    rfl

/-- Where no syscall that is asked for has the number, it is allowed. -/
theorem listedVerdict_unnamed
    (hunnamed : ∀ abi ∈ arch.abis, ∀ entry ∈ sysnums, ¬IsNumber t abi entry.value nr)
    (hnamed : ∀ entry ∈ sysnums, entry.value ≠ .void) :
    listedVerdict t arch sysnums nr = seccompRetAllow := by
  have hnone : listedEntry t arch sysnums nr = none := by
    unfold listedEntry
    rw [untilVoid_eq_self hnamed, List.findSome?_eq_none_iff]
    intro abi habi
    rw [List.find?_eq_none]
    exact fun entry hentry => by simpa using hunnamed abi habi entry hentry
  rw [listedVerdict, hnone]

/-- The answer of a program, for either way to treat the C library. -/
theorem run_seccompProgram {realloc : ℕ → Bool} {config : SeccompConfig} {program : SockFprog}
    (h : seccompProgram realloc t config sysnums = .ok program) (data : SeccompData) :
    run data.load program.filter =
      if config.excludeLibc = true then
        if data.arch = t.firstArch.value ∧ ¬config.LowInLibc data.instructionPointer then
          some (listedVerdict t t.firstArch sysnums data.nr)
        else some seccompRetAllow
      else match t.seccompArchs.find? (fun arch => data.arch = arch.value) with
        | some arch => some (listedVerdict t arch sysnums data.nr)
        | none => some seccompRetKill := by
  cases hlibc : config.excludeLibc with
  | true =>
    rw [if_pos rfl]
    exact run_seccompProgram_libc hlibc h data
  | false =>
    obtain ⟨hfilter, -, hsmall⟩ := seccompProgram_ok h
    rw [if_neg nofun, run, hfilter,
      exec_archSections_plain hlibc data sysnums t.seccompArchs _ 0 hsmall]
    cases hfind : t.seccompArchs.find? (fun arch => data.arch = arch.value) with
    | none => rfl
    | some arch =>
      exact congrArg some (sectionVerdict_eq_listedVerdict (List.mem_of_find?_eq_some hfind) _ _)

end Verdict

/-! ## The message of the event -/

/-- Flags that fit the message come back as it, and do not change what the kernel does. -/
theorem trace_message {x : BitVec 32} (h : x.toNat < 2 ^ 16) :
    seccompRetAction (seccompRetTrace + x) = seccompRetTrace ∧
      seccompRetData (seccompRetTrace + x) = x := by
  have hhigh : ∀ i, 16 ≤ i → x.getLsbD i = false := fun i hi =>
    Nat.testBit_lt_two_pow (Nat.lt_of_lt_of_le h (Nat.pow_le_pow_right (by decide) hi))
  have htrace : ∀ i < 32, seccompRetTrace.getLsbD i = true → 16 ≤ i := by decide
  have hmask : ∀ i < 32, BitVec.getLsbD (0xffff0000 : BitVec 32) i = decide (16 ≤ i) := by decide
  have hmask' : ∀ i < 32, BitVec.getLsbD (0xffff : BitVec 32) i = decide (i < 16) := by decide
  have hzero : seccompRetTrace &&& x = 0#32 := by
    refine BitVec.eq_of_getLsbD_eq fun i hi => ?_
    rw [BitVec.getLsbD_and, BitVec.getLsbD_zero]
    cases htest : seccompRetTrace.getLsbD i with
    | false => rfl
    | true => exact hhigh i (htrace i hi htest)
  unfold seccompRetAction seccompRetData
  rw [BitVec.add_eq_or_of_and_eq_zero _ _ hzero]
  constructor
  · refine BitVec.eq_of_getLsbD_eq fun i hi => ?_
    rw [BitVec.getLsbD_and, BitVec.getLsbD_or, hmask i hi]
    by_cases hlow : 16 ≤ i
    · rw [hhigh i hlow, Bool.or_false, decide_eq_true hlow, Bool.and_true]
    · rw [decide_eq_false hlow, Bool.and_false]
      exact (Bool.eq_false_iff.mpr fun htest => hlow (htrace i hi htest)).symm
  · refine BitVec.eq_of_getLsbD_eq fun i hi => ?_
    rw [BitVec.getLsbD_and, BitVec.getLsbD_or, hmask' i hi]
    by_cases hlow : i < 16
    · rw [decide_eq_true hlow, Bool.and_true,
        Bool.eq_false_iff.mpr fun htest => Nat.not_le.mpr hlow (htrace i hi htest), Bool.false_or]
    · rw [decide_eq_false hlow, Bool.and_false]
      exact (hhigh i (Nat.not_lt.mp hlow)).symm
/-- What an installed program answers to the syscalls of an architecture. -/
structure Answers (t : Target) (add : List FilteredSysnum) (arch : SeccompArch)
    (data : SeccompData) (verdict : Option (BitVec 32)) : Prop where
  named : ∀ abi ∈ arch.abis, ∀ s, IsNumber t abi s data.nr →
    verdict = some (requestVerdict (requestedFlags add s))
  message : ∀ abi ∈ arch.abis, ∀ s, IsNumber t abi s data.nr →
    ∀ flags < 2 ^ 16, requestedFlags add s = some flags →
      ∃ v, verdict = some v ∧ seccompRetAction v = seccompRetTrace ∧
        (seccompRetData v).toNat = flags
  unnamed : (∀ abi ∈ arch.abis, ∀ s, ¬IsNumber t abi s data.nr) → verdict = some seccompRetAllow

/-- What the program that is installed for a list decides. -/
structure Decides (t : Target) (config : SeccompConfig) (add : List FilteredSysnum)
    (program : SockFprog) : Prop where
  jumps : JumpsInside program.filter 0
  plain : config.excludeLibc = false → ∀ data : SeccompData,
    (∀ arch ∈ t.seccompArchs, data.arch = arch.value →
      Answers t add arch data (run data.load program.filter)) ∧
    ((∀ arch ∈ t.seccompArchs, data.arch ≠ arch.value) →
      run data.load program.filter = some seccompRetKill)
  sparing : config.excludeLibc = true → ∀ data : SeccompData,
    (data.arch = t.firstArch.value → ¬config.LowInLibc data.instructionPointer →
      Answers t add t.firstArch data (run data.load program.filter)) ∧
    (data.arch ≠ t.firstArch.value ∨ config.LowInLibc data.instructionPointer →
      run data.load program.filter = some seccompRetAllow)

section Installed

variable {t : Target} {add sysnums : List FilteredSysnum} {arch : SeccompArch} {data : SeccompData}

/-- A verdict for the merged list answers what is asked for. -/
theorem answers_listedVerdict (harch : arch ∈ t.seccompArchs)
    (hnamed : ∀ entry ∈ sysnums, entry.value ≠ .void)
    (hflags : ∀ s, (sysnums.find? (·.value = s)).map (·.flags) = requestedFlags add s) :
    Answers t add arch data (some (listedVerdict t arch sysnums data.nr)) := by
  have hverdict : ∀ abi ∈ arch.abis, ∀ s, IsNumber t abi s data.nr →
      some (listedVerdict t arch sysnums data.nr) =
        some (requestVerdict (requestedFlags add s)) := fun abi habi s hnr =>
    congrArg some (listedVerdict_requested harch hnamed hflags habi hnr)
  refine ⟨hverdict, fun abi habi s hnr flags hsmall hrequested => ?_, fun hunnamed => ?_⟩
  · have hword : (BitVec.ofNat 32 flags).toNat = flags := by
      rw [BitVec.toNat_ofNat, Nat.mod_eq_of_lt (by omega)]
    obtain ⟨haction, hdata⟩ := trace_message (x := BitVec.ofNat 32 flags) (hword.symm ▸ hsmall)
    refine ⟨_, (hverdict abi habi s hnr).trans (congrArg (some ∘ requestVerdict) hrequested),
      haction, ?_⟩
    exact (congrArg BitVec.toNat hdata).trans hword
  · exact congrArg some (listedVerdict_unnamed (fun abi habi entry _ => hunnamed abi habi _) hnamed)

/-- The program that is built for the merged list decides what is asked for. -/
theorem decides_seccompProgram {realloc : ℕ → Bool} {config : SeccompConfig} {program : SockFprog}
    (h : seccompProgram realloc t config sysnums = .ok program)
    (hnamed : ∀ entry ∈ sysnums, entry.value ≠ .void)
    (hflags : ∀ s, (sysnums.find? (·.value = s)).map (·.flags) = requestedFlags add s) :
    Decides t config add program := by
  have hfirst : t.firstArch ∈ t.seccompArchs := List.head_mem _
  refine ⟨?_, fun hplain data => ?_, fun hlibc data => ?_⟩
  · cases hlibc : config.excludeLibc with
    | true => exact jumpsInside_seccompProgram_libc hlibc h
    | false =>
      obtain ⟨hfilter, -, hsmall⟩ := seccompProgram_ok h
      rw [hfilter, jumpsInside_append]
      exact ⟨jumpsInside_archSections_plain hlibc sysnums _ (by simp) hsmall,
        by simp [JumpsInside, Statement.offsets]⟩
  · have hrun := run_seccompProgram h data
    rw [if_neg (by simp [hplain])] at hrun
    rw [hrun]
    constructor
    · intro arch harch heq
      cases hfind : t.seccompArchs.find? (fun arch => data.arch = arch.value) with
      | none => simpa [heq] using List.find?_eq_none.mp hfind arch harch
      | some found =>
        have hvalue : data.arch = found.value := by simpa using List.find?_some hfind
        have hfound : found = arch :=
          t.arch_unique (List.mem_of_find?_eq_some hfind) harch (hvalue.symm.trans heq)
        rw [hfound]
        exact answers_listedVerdict harch hnamed hflags
    · intro hforeign
      rw [List.find?_eq_none.mpr (by simpa using hforeign)]
  · have hrun := run_seccompProgram h data
    rw [if_pos hlibc] at hrun
    rw [hrun]
    constructor
    · intro heq hout
      rw [if_pos ⟨heq, hout⟩]
      exact answers_listedVerdict hfirst hnamed hflags
    · intro hspared
      exact if_neg fun hboth => hspared.elim (fun hne => hne hboth.1) hboth.2

end Installed

/-- If the filtering is enabled for a list, the installed program reports the syscalls of the list
and those of the tracer, with the flags asked for, and lets all others through; whether the C
library is spared or not, and however the list is ordered or repeats itself. -/
theorem enableSyscallFiltering_decides {alloc : ℕ → Bool} {t : Target}
    {setNoNewPrivs : Except ℤ Unit} {setSeccomp : SockFprog → Except ℤ Unit}
    {libc : BitVec 64 × BitVec 64} {add : List FilteredSysnum} {excludeLibc : Bool}
    (h : enableSyscallFiltering alloc t setNoNewPrivs setSeccomp libc add excludeLibc = .ok ()) :
    ∃ program, setNoNewPrivs = .ok () ∧ setSeccomp program = .ok () ∧
      Decides t ⟨excludeLibc, libc.1, libc.2⟩ add program := by
  unfold enableSyscallFiltering at h
  obtain ⟨sysnums, hsysnums, hset⟩ := bind_ok_iff.mp h
  have hinstalled : setSeccompFilters alloc t setNoNewPrivs setSeccomp
      ⟨excludeLibc, libc.1, libc.2⟩ sysnums = .ok () := by
    cases hrun : setSeccompFilters alloc t setNoNewPrivs setSeccomp
        ⟨excludeLibc, libc.1, libc.2⟩ sysnums with
    | ok => rfl
    | error =>
      rw [hrun] at hset
      cases hset
  unfold setSeccompFilters at hinstalled
  obtain ⟨program, hprogram, hinstalled⟩ := bind_ok_iff.mp hinstalled
  obtain ⟨⟨⟩, hprivs, hinstalled⟩ := bind_ok_iff.mp hinstalled
  obtain ⟨missing, hmerged, hmissing⟩ := filteredSysnums_ok hsysnums
  have hflags := requestedFlags_merged hmerged hmissing
  have hnamed : ∀ entry ∈ sysnums, entry.value ≠ .void := by
    intro entry hentry
    have hrequested : requestedFlags add entry.value ≠ none := by
      rw [← hflags, ne_eq, Option.map_eq_none_iff, List.find?_eq_none]
      exact fun hnone => hnone entry hentry (by simp)
    exact requestedFlags_named hrequested
  exact ⟨program, hprivs, hinstalled, decides_seccompProgram hprogram hnamed hflags⟩

/-- A list that repeats `openat` with different flags and leaves `execve` to the tracer. -/
theorem enableSyscallFiltering_decides_openat :
    ∃ program, Decides (arm64 fun _ => .void) ⟨false, 0, 0⟩
      [⟨.openat, 0⟩, ⟨.close, 0⟩, ⟨.openat, 1⟩] program := by
  have hrun : enableSyscallFiltering (fun _ => true) (arm64 fun _ => .void) (.ok ())
      (fun _ => .ok ()) (0, 0) [⟨.openat, 0⟩, ⟨.close, 0⟩, ⟨.openat, 1⟩] false = .ok () := by
    decide +kernel
  obtain ⟨program, -, -, hdecides⟩ := enableSyscallFiltering_decides hrun
  exact ⟨program, hdecides⟩

end Abyss
