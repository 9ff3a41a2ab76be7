import Abyss.Syscall.FilterProgram
import Mathlib.Algebra.Order.BigOperators.Group.List
import Mathlib.Data.List.Nodup
import Mathlib.Data.List.Pairwise
import Mathlib.Data.List.Perm.Subperm

/-!
# The filter that does not look at the caller

With `exclude_libc` unset a section either answers for its architecture or jumps just past its
own end, so the program asks the sections in order and kills what none of them handles. For a
list of distinct syscalls at most one test of a section matches, and the program is short
enough for the 16-bit length field of the kernel.
-/

namespace Abyss

open ClassicBpf Outcome

variable {realloc : ℕ → Bool} {t : Target} {config : SeccompConfig}

/-- `nr` is the number that an ABI gives to a neutral value. -/
def IsNumber (t : Target) (abi : Abi) (sysnum : Sysnum) (nr : BitVec 32) : Prop :=
  detranslateSysnum t abi sysnum ≠ t.syscallAvoider ∧ detranslateSysnum t abi sysnum = nr.toNat

/-- What a filter has to do for the listed syscalls, whatever the caller's address is. -/
structure FiltersListed (t : Target) (sysnums : List FilteredSysnum) (program : SockFprog) :
    Prop where
  length : program.len.toNat = program.filter.length
  jumps : JumpsInside program.filter 0
  traced : ∀ data : SeccompData, ∀ arch ∈ t.seccompArchs, data.arch = arch.value →
    ∀ abi ∈ arch.abis, ∀ entry ∈ untilVoid sysnums, IsNumber t abi entry.value data.nr →
      run data.load program.filter = some (seccompRetTrace + BitVec.ofNat 32 entry.flags)
  allowed : ∀ data : SeccompData, ∀ arch ∈ t.seccompArchs, data.arch = arch.value →
    (∀ abi ∈ arch.abis, ∀ entry ∈ untilVoid sysnums, ¬IsNumber t abi entry.value data.nr) →
      run data.load program.filter = some seccompRetAllow
  killed : ∀ data : SeccompData, (∀ arch ∈ t.seccompArchs, data.arch ≠ arch.value) →
    run data.load program.filter = some seccompRetKill

/-! ## Executing the plain program -/

/-- A plain section answers for its architecture and otherwise gives way to the next one. -/
theorem exec_archSection_plain (hplain : config.excludeLibc = false) (data : SeccompData)
    (sysnums : List FilteredSysnum) (arch : SeccompArch) (next : List Statement)
    (acc : BitVec 32) (hsmall : (tracedEntries t arch.abis sysnums).length * 2 + 2 < 2 ^ 32) :
    exec data.load (archSection t config sysnums arch ++ next) 0 acc =
      if data.arch = arch.value then
        some (sectionVerdict (tracedEntries t arch.abis sysnums) data.nr)
      else exec data.load next 0 data.arch := by
  have hjump : (BitVec.ofNat 32
      (1 + (tracedEntries t arch.abis sysnums).length * 2 + 1)).toNat =
        (sectionBody (tracedEntries t arch.abis sysnums)).length + 0 + 1 := by
    rw [BitVec.toNat_ofNat, Nat.mod_eq_of_lt (by omega), sectionBody_length]
  simp only [archSection, startStatements, hplain, Bool.false_eq_true, ↓reduceIte,
    List.cons_append, List.nil_append, exec_load, exec_jump, SeccompData.load_arch, Test.holds,
    decide_eq_true_eq]
  by_cases harch : data.arch = arch.value
  · simp only [harch, ↓reduceIte, show BitVec.toNat (1 : BitVec 8) = 0 + 1 from rfl, exec_skip,
      exec_load, SeccompData.load_nr]
    rw [exec_sectionBody]
  · simp only [harch, ↓reduceIte, show BitVec.toNat (0 : BitVec 8) = 0 from rfl, exec_ja, hjump,
      exec_skip]
    exact exec_append_skip data.load (sectionBody _) next 0 data.arch

/-- The sections are asked in order, and a return after them answers for the rest. -/
theorem exec_archSections_plain (hplain : config.excludeLibc = false) (data : SeccompData)
    (sysnums : List FilteredSysnum) (archs : List SeccompArch) (verdict acc : BitVec 32)
    (hsmall : ∀ arch ∈ archs, (tracedEntries t arch.abis sysnums).length * 2 + 2 < 2 ^ 32) :
    exec data.load (archs.flatMap (archSection t config sysnums) ++ [.ret verdict]) 0 acc =
      match archs.find? (fun arch => data.arch = arch.value) with
      | some arch => some (sectionVerdict (tracedEntries t arch.abis sysnums) data.nr)
      | none => some verdict := by
  induction archs generalizing acc with
  | nil => rfl
  | cons arch archs ih =>
    rw [List.flatMap_cons, List.append_assoc,
      exec_archSection_plain hplain data sysnums arch _ acc (hsmall arch List.mem_cons_self),
      List.find?_cons]
    by_cases harch : data.arch = arch.value
    · simp [harch]
    · simp only [harch, ↓reduceIte, decide_false]
      exact ih data.arch fun arch' h => hsmall arch' (List.mem_cons_of_mem _ h)

/-- The jumps of a plain section reach at most the first statement of the next one. -/
theorem jumpsInside_archSection_plain (hplain : config.excludeLibc = false)
    (sysnums : List FilteredSysnum) (arch : SeccompArch) {after : ℕ} (hafter : 0 < after)
    (hsmall : (tracedEntries t arch.abis sysnums).length * 2 + 2 < 2 ^ 32) :
    JumpsInside (archSection t config sysnums arch) after := by
  have hjump : (BitVec.ofNat 32
      (1 + (tracedEntries t arch.abis sysnums).length * 2 + 1)).toNat =
        1 + (tracedEntries t arch.abis sysnums).length * 2 + 1 := by
    rw [BitVec.toNat_ofNat, Nat.mod_eq_of_lt (by omega)]
  rw [archSection, jumpsInside_append, sectionBody_length]
  refine ⟨?_, jumpsInside_sectionBody _ _⟩
  simp [startStatements, hplain, JumpsInside, Statement.offsets, hjump]
  omega

/-- The jumps of consecutive plain sections stay inside when a statement follows them. -/
theorem jumpsInside_archSections_plain (hplain : config.excludeLibc = false)
    (sysnums : List FilteredSysnum) (archs : List SeccompArch) {after : ℕ} (hafter : 0 < after)
    (hsmall : ∀ arch ∈ archs, (tracedEntries t arch.abis sysnums).length * 2 + 2 < 2 ^ 32) :
    JumpsInside (archs.flatMap (archSection t config sysnums)) after := by
  induction archs with
  | nil => trivial
  | cons arch archs ih =>
    rw [List.flatMap_cons, jumpsInside_append]
    exact ⟨jumpsInside_archSection_plain hplain sysnums arch (by omega)
      (hsmall arch List.mem_cons_self), ih fun arch' h => hsmall arch' (List.mem_cons_of_mem _ h)⟩

/-! ## Distinct syscalls -/

/-- Numbers of one audit architecture determine the ABI and the neutral value. -/
theorem isNumber_unique {arch : SeccompArch} (harch : arch ∈ t.seccompArchs) {a b : Abi}
    (ha : a ∈ arch.abis) (hb : b ∈ arch.abis) {s s' : Sysnum} {nr : BitVec 32}
    (hs : IsNumber t a s nr) (hs' : IsNumber t b s' nr) : s = s' := by
  obtain ⟨i, hi, hilt, hget⟩ := detranslateSysnum_getElem hs.1
  obtain ⟨j, hj, hjlt, hget'⟩ := detranslateSysnum_getElem hs'.1
  have hnr : i + (t.sysnums a).offset = j + (t.sysnums b).offset := by
    rw [← hi, ← hj, hs.2, hs'.2]
  by_cases hab : a = b
  · subst hab
    exact detranslateSysnum_injective hs.1 (hs.2.trans hs'.2.symm)
  · exfalso
    have : Std.Symm fun x y : Abi =>
        (t.sysnums x).offset + (t.sysnums x).length ≤ (t.sysnums y).offset ∨
          (t.sysnums y).offset + (t.sysnums y).length ≤ (t.sysnums x).offset :=
      ⟨fun _ _ h => h.symm⟩
    have hapart := (t.abis_apart arch harch).forall ha hb hab
    omega

/-- The tests of a section are the numbers of the listed syscalls. -/
theorem mem_tracedEntries {arch : SeccompArch} (harch : arch ∈ t.seccompArchs)
    {sysnums : List FilteredSysnum} {nr verdict : BitVec 32} :
    (nr, verdict) ∈ tracedEntries t arch.abis sysnums ↔
      ∃ abi ∈ arch.abis, ∃ entry ∈ untilVoid sysnums, IsNumber t abi entry.value nr ∧
        verdict = seccompRetTrace + BitVec.ofNat 32 entry.flags := by
  simp only [tracedEntries, List.mem_flatMap, List.mem_filterMap, tracedEntry]
  refine exists_congr fun abi => and_congr_right fun habi => exists_congr fun entry =>
    and_congr_right fun _ => ?_
  by_cases havoid : detranslateSysnum t abi entry.value = t.syscallAvoider
  · simp [havoid, IsNumber]
  · obtain ⟨i, hi, hlt, -⟩ := detranslateSysnum_getElem havoid
    have hsmall := t.numbers_small arch harch abi habi
    have hnr : BitVec.ofNat 32 (detranslateSysnum t abi entry.value) = nr ↔
        detranslateSysnum t abi entry.value = nr.toNat := by
      rw [← BitVec.toNat_inj, BitVec.toNat_ofNat, Nat.mod_eq_of_lt (by omega)]
    simp only [havoid, ↓reduceIte, Option.some.injEq, Prod.mk.injEq, hnr, IsNumber, ne_eq,
      not_false_eq_true, true_and]
    exact and_congr_right fun _ => eq_comm

/-- A listed syscall of the architecture gets the verdict of its own flags. -/
theorem sectionVerdict_traced {arch : SeccompArch} (harch : arch ∈ t.seccompArchs)
    {sysnums : List FilteredSysnum} (hdistinct : ((untilVoid sysnums).map (·.value)).Nodup)
    {abi : Abi} (habi : abi ∈ arch.abis) {entry : FilteredSysnum}
    (hentry : entry ∈ untilVoid sysnums) {nr : BitVec 32}
    (hnumber : IsNumber t abi entry.value nr) :
    sectionVerdict (tracedEntries t arch.abis sysnums) nr =
      seccompRetTrace + BitVec.ofNat 32 entry.flags := by
  unfold sectionVerdict
  cases hfind : (tracedEntries t arch.abis sysnums).find? (fun e => nr = e.1) with
  | none =>
    have hmem := (mem_tracedEntries harch).mpr ⟨abi, habi, entry, hentry, hnumber, rfl⟩
    simpa using List.find?_eq_none.mp hfind _ hmem
  | some found =>
    obtain ⟨key, verdict⟩ := found
    have hkey : nr = key := by simpa using List.find?_some hfind
    subst hkey
    obtain ⟨abi', habi', entry', hentry', hnumber', hverdict⟩ :=
      (mem_tracedEntries harch).mp (List.mem_of_find?_eq_some hfind)
    have hvalue := isNumber_unique harch habi' habi hnumber' hnumber
    rw [hverdict, List.inj_on_of_nodup_map hdistinct hentry' hentry hvalue]

/-- A number of no listed syscall is allowed. -/
theorem sectionVerdict_allowed {arch : SeccompArch} (harch : arch ∈ t.seccompArchs)
    {sysnums : List FilteredSysnum} {nr : BitVec 32}
    (hnone : ∀ abi ∈ arch.abis, ∀ entry ∈ untilVoid sysnums, ¬IsNumber t abi entry.value nr) :
    sectionVerdict (tracedEntries t arch.abis sysnums) nr = seccompRetAllow := by
  unfold sectionVerdict
  cases hfind : (tracedEntries t arch.abis sysnums).find? (fun e => nr = e.1) with
  | none => rfl
  | some found =>
    obtain ⟨key, verdict⟩ := found
    have hkey : nr = key := by simpa using List.find?_some hfind
    subst hkey
    obtain ⟨abi, habi, entry, hentry, hnumber, -⟩ :=
      (mem_tracedEntries harch).mp (List.mem_of_find?_eq_some hfind)
    exact absurd hnumber (hnone abi habi entry hentry)

/-- Distinct syscalls have at most as many tests as the table of the ABI has entries. -/
theorem tracedEntries_abi_length {sysnums : List FilteredSysnum} (abi : Abi)
    (hdistinct : ((untilVoid sysnums).map (·.value)).Nodup) :
    ((untilVoid sysnums).filterMap (tracedEntry t abi)).length ≤ (t.sysnums abi).length := by
  let number : Sysnum → Option ℕ := fun s =>
    if detranslateSysnum t abi s = t.syscallAvoider then none else some (detranslateSysnum t abi s)
  have hnodup : (((untilVoid sysnums).map (·.value)).filterMap number).Nodup := by
    refine hdistinct.filterMap fun s s' n hs hs' => ?_
    simp only [number, Option.mem_def, Option.ite_none_left_eq_some, Option.some.injEq] at hs hs'
    exact detranslateSysnum_injective hs.1 (hs.2.trans hs'.2.symm)
  have hsub : ((untilVoid sysnums).map (·.value)).filterMap number ⊆
      List.range' (t.sysnums abi).offset (t.sysnums abi).length := by
    intro n hn
    obtain ⟨s, -, hs⟩ := List.mem_filterMap.mp hn
    simp only [number, Option.ite_none_left_eq_some, Option.some.injEq] at hs
    obtain ⟨i, hi, hlt, -⟩ := detranslateSysnum_getElem hs.1
    rw [List.mem_range'_1]
    omega
  have hlen := (List.subperm_of_subset hnodup hsub).length_le
  rw [List.length_range', List.filterMap_map] at hlen
  refine le_of_eq_of_le ?_ hlen
  rw [List.length_filterMap_eq_countP, List.length_filterMap_eq_countP]
  refine List.countP_congr fun entry _ => ?_
  by_cases h : detranslateSysnum t abi entry.value = t.syscallAvoider <;>
    simp [tracedEntry, number, h]

/-- A plain program for distinct syscalls fits the length field. -/
theorem archSections_plain_length (t : Target) (hplain : config.excludeLibc = false)
    {sysnums : List FilteredSysnum} (hdistinct : ((untilVoid sysnums).map (·.value)).Nodup)
    (archs : List SeccompArch) :
    (archs.flatMap (archSection t config sysnums)).length ≤
      (archs.map fun arch =>
        5 + 2 * (arch.abis.map fun abi => (t.sysnums abi).length).sum).sum := by
  rw [List.length_flatMap]
  refine List.sum_le_sum fun arch _ => ?_
  have hentries : (tracedEntries t arch.abis sysnums).length ≤
      (arch.abis.map fun abi => (t.sysnums abi).length).sum := by
    rw [tracedEntries, List.length_flatMap]
    exact List.sum_le_sum fun abi _ => tracedEntries_abi_length abi hdistinct
  simp only [archSection, startStatements, hplain, Bool.false_eq_true, ↓reduceIte,
    List.length_append, List.length_cons, List.length_nil, sectionBody_length]
  omega

/-- Every plain program that is built for distinct syscalls filters exactly these. -/
theorem seccompProgram_filtersListed (hplain : config.excludeLibc = false)
    {sysnums : List FilteredSysnum} (hdistinct : ((untilVoid sysnums).map (·.value)).Nodup)
    {program : SockFprog} (h : seccompProgram realloc t config sysnums = .ok program) :
    FiltersListed t sysnums program := by
  obtain ⟨hfilter, hlen, hsmall⟩ := seccompProgram_ok h
  have hrun (data : SeccompData) :=
    exec_archSections_plain hplain data sysnums t.seccompArchs seccompRetKill 0 hsmall
  have hfind {data : SeccompData} {arch : SeccompArch} (harch : arch ∈ t.seccompArchs)
      (heq : data.arch = arch.value) :
      t.seccompArchs.find? (fun arch => data.arch = arch.value) = some arch := by
    cases hfound : t.seccompArchs.find? (fun arch => data.arch = arch.value) with
    | none => simpa [heq] using List.find?_eq_none.mp hfound arch harch
    | some found =>
      have hvalue : data.arch = found.value := by simpa using List.find?_some hfound
      rw [List.inj_on_of_nodup_map t.archs_nodup (List.mem_of_find?_eq_some hfound) harch
        (hvalue.symm.trans heq)]
  refine ⟨?_, ?_, ?_, ?_, ?_⟩
  · have hle := archSections_plain_length t hplain hdistinct t.seccompArchs
    have hbound := t.programs_small
    rw [hlen, BitVec.toNat_ofNat, hfilter, List.length_append, List.length_singleton]
    exact Nat.mod_eq_of_lt (by omega)
  · rw [hfilter, jumpsInside_append]
    exact ⟨jumpsInside_archSections_plain hplain sysnums _ (by simp) hsmall,
      by simp [JumpsInside, Statement.offsets]⟩
  · intro data arch harch heq abi habi entry hentry hnumber
    rw [run, hfilter, hrun, hfind harch heq]
    simp only [sectionVerdict_traced harch hdistinct habi hentry hnumber]
  · intro data arch harch heq hnone
    rw [run, hfilter, hrun, hfind harch heq]
    simp only [sectionVerdict_allowed harch hnone]
  · intro data hunhandled
    rw [run, hfilter, hrun, List.find?_eq_none.mpr (by simpa using hunhandled)]

/-- The filter of one arm syscall, built where every allocation succeeds. -/
theorem seccompProgram_filtersListed_openat :
    ∃ program, seccompProgram (fun _ => true) (arm fun _ => .void) ⟨false, 0, 0⟩
        [⟨.openat, 0⟩] = .ok program ∧
      FiltersListed (arm fun _ => .void) [⟨.openat, 0⟩] program := by
  have hbuilt : (seccompProgram (fun _ => true) (arm fun _ => .void) ⟨false, 0, 0⟩
      [⟨.openat, 0⟩]).isOk = true := by decide +kernel
  cases h : seccompProgram (fun _ => true) (arm fun _ => .void) ⟨false, 0, 0⟩
      [⟨.openat, 0⟩] with
  | error => rw [h] at hbuilt; cases hbuilt
  | ok program => exact ⟨program, rfl, seccompProgram_filtersListed rfl (by decide) h⟩

end Abyss
