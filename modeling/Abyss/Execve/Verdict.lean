import Abyss.Execve.Extract
import Abyss.Execve.LoadInfo

/-!
# The verdict on an executable

The entry of an `execve` is looked at three times: for the paths that it translates, for the blocks
that it allocates, and for the load information that it extracts. All three come to the same verdict:
what is extracted where there is memory is what the front end accepts, and a tracee whose blocks are
followed over any attempts sees each attempt end as the front end says.
-/

namespace Abyss.Execve

open Bytes Loader Pages

/-! ## The program headers -/

/-- The result of an iteration whose callback may stop. -/
def Iteration.result {σ : Type} (iteration : Iteration (Except Stop σ)) : Except Stop σ := do
  let data ← iteration.data
  if iteration.status ≠ 0 then Execve.status iteration.status else .ok data

/-- Every file that can be opened has a content. -/
def Host.Holds (h : Host) : Prop :=
  ∀ path file, h.openFile path = .ok file → ∃ content, file.Holds h.cpu content

section Headers

variable {σ : Type} {h : Host} {getcwd : Getcwd} {ofInterp : Bool} {file : File} {elf : ElfHeader}
  {f : ElfHeader → List Byte → σ → Except Stop σ} {view : σ → Option Path} {content : List Byte}

/-- The data of an iteration, or its status, is its result. -/
theorem iterateHeaders_eq (errno : ℤ) (data : σ) :
    iterateHeaders f file elf errno data =
      (iterateWith (asCallback f) file elf errno (.ok data)).result := rfl

/-- An iteration that ends with an error. -/
theorem Iteration.result_status {z : ℤ} (hz : z ≠ 0) (data : σ) (calls : List (List Byte × ℤ)) :
    (⟨z, .ok data, calls⟩ : Iteration (Except Stop σ)).result = Execve.status z := if_pos hz

/-- A callback that does to the data what the front end does to the interpreter makes the iteration
end as the front end says. -/
theorem invokeFrom_verdict (hfile : file.Holds h.cpu content)
    (hstep : ∀ i header data, (f elf header data).map view =
      (addLoadInfo h ofInterp file i (.ofBytes elf.isClass64 header) (view data)).result h.link
        getcwd)
    (n i offset : ℕ) (data : σ) :
    (invokeFrom (asCallback f) file elf n offset (.ok data)).result.map view =
      (programHeadersFrom h ofInterp file elf n i offset (view data)).result h.link getcwd := by
  induction n generalizing i offset data with
  | zero => rfl
  | succ n ih =>
    rw [invokeFrom, programHeadersFrom]
    cases hread : file.pread offset elf.phentsize with
    | error errno =>
      have hpositive := hfile.pread_error _ _ _ hread
      dsimp only
      rw [Iteration.result_status (by omega)]
      rfl
    | ok bytes =>
      dsimp only
      by_cases hlength : bytes.length ≠ elf.phentsize
      · rw [if_pos hlength, if_pos hlength, Iteration.result_status (by decide)]
        rfl
      · rw [if_neg hlength, if_neg hlength, Front.result_bind, ← hstep]
        rw [asCallback]
        cases hcall : f elf bytes data with
        | error stop => rfl
        | ok next => exact ih (i + 1) (offset + elf.phentsize) next

/-- So does the iteration over all program headers. -/
theorem iterateHeaders_verdict (hfile : file.Holds h.cpu content)
    (hstep : ∀ i header data, (f elf header data).map view =
      (addLoadInfo h ofInterp file i (.ofBytes elf.isClass64 header) (view data)).result h.link
        getcwd)
    {data : σ} (hdata : view data = none) :
    (iterateHeaders f file elf h.errno data).map view =
      (iterateProgramHeaders h ofInterp file elf).result h.link getcwd := by
  rw [iterateHeaders_eq]
  unfold iterateWith iterateProgramHeaders
  by_cases hmany : elf.phnum ≥ 0xffff
  · rw [if_pos hmany, if_pos hmany, Iteration.result_status (by decide)]
    rfl
  rw [if_neg hmany, if_neg hmany]
  by_cases hsize : (!knownPhentsize elf) = true
  · rw [if_pos hsize, if_pos hsize, Iteration.result_status (by decide)]
    rfl
  rw [if_neg hsize, if_neg hsize]
  cases hseek : file.lseek elf.phoff with
  | error errno =>
    have hpositive := hfile.lseek_error _ _ hseek
    dsimp only
    rw [Iteration.result_status (by omega)]
    rfl
  | ok offset =>
    dsimp only
    split_ifs with hnegative herrno
    · rw [herrno]
      exact congrArg Except.ok hdata
    · rw [Iteration.result_status (by omega)]
      rfl
    · rw [← hdata]
      exact invokeFrom_verdict hfile hstep _ _ _ _

end Headers

/-! ## What is extracted -/

section Extract

variable {h : Host} {getcwd : Getcwd} (sysconf : h.cpu.Word) {ofInterp : Bool} {file : File}
  {elf : ElfHeader}

/-- There is always memory for the mappings of a segment. -/
theorem addMapping_memory {program : Cpu} (mappings : Option (List (Mapping h.cpu)))
    (segment : Segment program) :
    ∃ new, addMapping sysconf (fun _ => true) mappings segment = .ok new := by
  have hcurrent : ∃ current, currentMappings (fun _ => true) mappings = .ok current := by
    cases mappings with
    | none => exact ⟨[], rfl⟩
    | some current => exact ⟨current, rfl⟩
  obtain ⟨current, hcurrent⟩ := hcurrent
  have hgrow : ∀ count, reallocMappings (fun _ => true) count = .ok () := fun _ => rfl
  unfold addMapping
  simp only [hcurrent, hgrow, Outcome.ok_bind]
  split_ifs <;> exact ⟨_, rfl⟩

/-- The interpreter where there is memory. -/
theorem addInterp_result (hmemory : ∀ allocation, h.allocates allocation = true)
    (header : ProgramHeader) (interp : Option Path) :
    (addInterp h ofInterp file header interp).result h.link getcwd =
      if interp.isSome then status (-einval)
      else
        readInterp h file header >>= fun userPath =>
          ((translateAndCheckExec h userPath).result h.link getcwd).map some := by
  unfold addInterp
  by_cases hinterp : interp.isSome
  · rw [if_pos hinterp, if_pos hinterp]
    rfl
  rw [if_neg hinterp, if_neg hinterp, if_neg (not_allocates_false hmemory _), Front.result_bind]
  change readInterp h file header >>= _ = _
  congr 1
  funext userPath
  rw [Front.result_bind]
  simp only [if_neg (not_allocates_false hmemory _)]
  cases (translateAndCheckExec h userPath).result h.link getcwd <;> rfl

/-- What a program header tells is what the front end makes of it. -/
theorem addLoadSegment_verdict (hmemory : ∀ allocation, h.allocates allocation = true) (i : ℕ)
    (header : List Byte) (load : FileLoad h.cpu) :
    (addLoadSegment h getcwd sysconf (fun _ _ => true) ofInterp file elf header load).map
        (fun load => load.interp.map Prod.snd) =
      (addLoadInfo h ofInterp file i (.ofBytes elf.isClass64 header)
        (load.interp.map Prod.snd)).result h.link getcwd := by
  unfold addLoadSegment addLoadInfo
  dsimp only
  by_cases hload : (ProgramHeader.ofBytes elf.isClass64 header).type = ptLoad
  · obtain ⟨new, hnew⟩ := addMapping_memory sysconf load.mappings
      (Segment.ofBytes (classCpu elf.isClass64) header)
    rw [if_pos hload, if_pos hload, if_neg (not_allocates_false hmemory _), if_neg (not_allocates_false hmemory _), hnew]
    rfl
  rw [if_neg hload, if_neg hload]
  by_cases hinterp : (ProgramHeader.ofBytes elf.isClass64 header).type = ptInterp
  · rw [if_pos hinterp, if_pos hinterp, addInterp_result hmemory]
    split
    · rfl
    · cases readInterp h file (.ofBytes elf.isClass64 header) with
      | error stop => rfl
      | ok userPath =>
        change Except.map _ (((translateAndCheckExec h userPath).result h.link getcwd).map some >>= _) =
          _
        change _ = ((translateAndCheckExec h userPath).result h.link getcwd).map some
        cases (translateAndCheckExec h userPath).result h.link getcwd <;> rfl
  · rw [if_neg hinterp, if_neg hinterp]
    split <;> rfl

/-- So has an ELF file. -/
theorem Host.Holds.opened (hfiles : h.Holds) {hostPath : Path}
    (hopen : openElf h hostPath = .ok (file, elf)) : ∃ content, file.Holds h.cpu content := by
  cases hfile : h.openFile hostPath with
  | error errno =>
    unfold openElf at hopen
    rw [hfile] at hopen
    cases hopen
  | ok file' =>
    obtain ⟨content, hcontent⟩ := hfiles _ _ hfile
    obtain ⟨rfl, -⟩ := openElf_ok hfile hcontent hopen
    exact ⟨content, hcontent⟩

/-- A file is extracted exactly if the front end accepts it, and the interpreter is the same. -/
theorem extractFile_verdict (hmemory : ∀ allocation, h.allocates allocation = true)
    (hfiles : h.Holds) (hostPath : Path) :
    (extractFile h getcwd sysconf (fun _ _ => true) ofInterp hostPath).map
        (fun record => record.load.interp.map Prod.snd) =
      (extractLoadInfo h ofInterp hostPath).result h.link getcwd := by
  unfold extractFile extractLoadInfo
  rw [Front.result_bind]
  change _ = openElf h hostPath >>= _
  cases hopen : openElf h hostPath with
  | error stop => rfl
  | ok opened =>
    obtain ⟨file, elf⟩ := opened
    obtain ⟨content, hfile⟩ := hfiles.opened hopen
    change Except.map _ (if _ then _ else _) = Front.result (if _ then _ else _) _ _
    split_ifs
    · have hempty : ({} : FileLoad h.cpu).interp.map Prod.snd = none := rfl
      rw [← iterateHeaders_verdict hfile
        (@addLoadSegment_verdict h getcwd sysconf ofInterp file elf hmemory) hempty]
      cases iterateHeaders (addLoadSegment h getcwd sysconf (fun _ _ => true) ofInterp file) file elf
        h.errno {} <;> rfl
    · rfl

/-- What is extracted where there is memory is what the front end accepts. -/
theorem extractFiles_verdict (hmemory : ∀ allocation, h.allocates allocation = true)
    (hfiles : h.Holds) (hostPath : Path) :
    (extractFiles h getcwd sysconf (fun _ _ => true) hostPath).map (fun _ => ()) =
      (extractLoadInfos h hostPath).result h.link getcwd := by
  unfold extractFiles extractLoadInfos
  rw [if_neg (not_allocates_false hmemory _), if_neg (not_allocates_false hmemory _), if_neg (not_allocates_false hmemory _), Front.result_bind,
    ← extractFile_verdict sysconf hmemory hfiles]
  cases extractFile h getcwd sysconf (fun _ _ => true) false hostPath with
  | error stop => rfl
  | ok program =>
    rw [Outcome.ok_bind]
    change _ = Except.ok (program.load.interp.map Prod.snd) >>= _
    rw [Outcome.ok_bind]
    rcases program.load.interp with _ | ⟨userPath, interpPath⟩
    · rfl
    · dsimp only [Option.map_some]
      rw [Front.result_bind, ← extractFile_verdict sysconf hmemory hfiles]
      cases extractFile h getcwd sysconf (fun _ _ => true) true interpPath with
      | error stop => rfl
      | ok record =>
        change Except.map _ (if _ then _ else _) = Front.result (if _ then _ else _) _ _
        rw [Option.isSome_map]
        split <;> rfl

end Extract

/-! ## The blocks of an attempt -/

namespace Memory

open Machine

section Steps

variable {α β γ : Type} {P : State → Prop} {i : ℕ}

/-- A computation that does not touch the memory follows itself. -/
theorem of_bind_follows {result : Except Stop α} {f : α → Exec β} {g : α → Except Stop γ}
    {Q : β → γ → State → Prop} (h : ∀ a, result = .ok a → Follows P (f a) (g a) Q) :
    Follows P (of result >>= f) (result >>= g) Q := by
  cases result with
  | error stop => exact Follows.of_error fun _ _ => rfl
  | ok value => exact h value rfl

/-- The status of an allocation. -/
def allocated (success : Bool) : Except Stop Unit := if success then .ok () else status (-enomem)

/-- An allocation follows its status. -/
theorem alloc_follows (success : Bool) (b : Block) {R : ℕ → State → Prop}
    (h : ∀ st, P st → R st.blocks.next { st with blocks := st.blocks.alloc b }) :
    Follows P (alloc success b) (allocated success) fun i _ => R i := by
  cases success with
  | false => exact Follows.of_error fun _ _ => rfl
  | true => exact Follows.of_ok fun st hst => ⟨_, _, rfl, h st hst⟩

/-- A change of a live record always succeeds. -/
theorem writeInfo_follows {f : LoadInfo → LoadInfo} {b : β} {Q : β → State → Prop}
    (h : ∀ st, P st → ∃ ofInterp l, st.blocks.Holds i (.info ofInterp l) ∧
      Q b { st with blocks := st.blocks.write i (.info ofInterp (f l)) }) :
    Follows P (writeInfo i f) (.ok b) fun _ => Q := by
  refine Follows.of_ok fun st hst => ?_
  obtain ⟨ofInterp, l, hl, hQ⟩ := h st hst
  exact ⟨(), _, writeInfo_apply f hl, hQ⟩

/-- Of several allocations one fails where there is no memory. -/
theorem allocated_two (a : Attempt) (allocation : Allocation) (rest : Except Stop α) :
    (do
      allocated (a.gets allocation 2 0)
      allocated (a.gets allocation 2 1)
      rest) = if a.host.allocates allocation = false then status (-enomem) else rest := by
  unfold Attempt.gets allocated
  cases a.host.allocates allocation with
  | true => rfl
  | false =>
    rw [if_pos rfl]
    cases hfirst : decide (0 < min (a.failing allocation) (2 - 1)) with
    | false => simp; rfl
    | true => simp; rfl

end Steps

section Headers

variable (a : Attempt) (ofInterp : Bool) (info : ℕ)

/-- A record with its path for the host that nothing was extracted to so far. -/
def Blank (hostPath : Path) (i : ℕ) (st : State) : Prop :=
  ∃ ofInterp l p, st.blocks.Holds i (.info ofInterp l) ∧ l.mappings = none ∧ l.interp = none ∧
    l.hostPath = some p ∧ st.blocks.Holds p (.path hostPath)

/-- What the program headers so far have left: mappings only with memory for a first array, and the
record of the interpreter with the path that was translated. -/
structure Told (interp : Option Path) (st : State) : Prop where
  sound : Sound st
  record : ∃ k l, st.blocks.Holds info (.info k l) ∧
    (l.mappings.isSome → a.host.allocates (.noMappings ofInterp) = true) ∧
    Option.Rel (fun i hostPath => i ≠ info ∧ Blank hostPath i st) l.interp interp

variable {a ofInterp info} {st st' : State} {l : LoadInfo} {k : Bool} {interp : Option Path}

/-- A relation between options may be weakened. -/
theorem rel_imp {β γ : Type} {R S : β → γ → Prop} {x : Option β} {y : Option γ}
    (h : Option.Rel R x y) (himp : ∀ b c, R b c → S b c) : Option.Rel S x y := by
  cases h with
  | none => exact .none
  | some h => exact .some (himp _ _ h)

/-- A record stays blank while other records are changed. -/
theorem Blank.of_kept {hostPath : Path} {i : ℕ} (h : Blank hostPath i st) (hne : i ≠ info)
    (hinfo : st.blocks.Holds info (.info k l))
    (hkept : ∀ j b, j ≠ info → b ≠ .mappings info → st.blocks.Holds j b → st'.blocks.Holds j b) :
    Blank hostPath i st' := by
  obtain ⟨k', l', p, hi, hmappings, hinterp, hhost, hp⟩ := h
  have hp' : p ≠ info := by
    rintro rfl
    cases hp.unique hinfo
  exact ⟨k', l', p, hkept i _ hne nofun hi, hmappings, hinterp, hhost, hkept p _ hp' nofun hp⟩

/-- The array of a record is replaced by a longer one, or lost, and nothing else is changed. -/
theorem growMappings_apply (h : Sound st) (hinfo : st.blocks.Holds info (.info k l))
    (success : Bool) : ∃ st' mappings,
      growMappings info success st = (allocated success, st') ∧ Sound st' ∧
      st'.blocks.Holds info (.info k { l with mappings }) ∧
      ∀ j b, j ≠ info → b ≠ .mappings info → st.blocks.Holds j b → st'.blocks.Holds j b := by
  have hsame := info_of_holds hinfo
  obtain ⟨hok, herror⟩ := growMappings_keeps (m := 0) info ⟨k, l, hinfo⟩ success st
    ⟨h, Stays.refl 0 st⟩
  cases success with
  | false =>
    have hrun : growMappings info false st = (status (-enomem), { st with
        blocks := st.blocks.write info (.info k { l with mappings := none }) }) := by
      unfold growMappings
      rw [bind_apply_ok (readInfo_apply info st),
        if_neg Bool.false_ne_true, bind_apply_ok (writeInfo_apply _ hinfo)]
      rfl
    exact ⟨_, none, hrun, (herror _ _ hrun).sound, hinfo.write _,
      fun j b hj _ hb => hb.write_other hj _⟩
  | true =>
    have hinfo' := hinfo.alloc h.blocks (.mappings info)
    have hstart : growMappings info true st = (l.mappings.elim (pure ()) free : Exec Unit) { st with
        blocks := (st.blocks.alloc (.mappings info)).write info
          (.info k { l with mappings := some st.blocks.next }) } := by
      unfold growMappings
      rw [bind_apply_ok (readInfo_apply info st), if_pos rfl,
        bind_apply_ok (alloc_apply (.mappings info) st),
        bind_apply_ok (writeInfo_apply _ hinfo'), hsame]
      cases l.mappings <;> rfl
    have hkept : ∀ j b, j ≠ info → st.blocks.Holds j b →
        ((st.blocks.alloc (.mappings info)).write info
          (.info k { l with mappings := some st.blocks.next })).Holds j b :=
      fun j b hj hb => (hb.alloc h.blocks _).write_other hj _
    cases hold : l.mappings with
    | none =>
      rw [hold] at hstart
      exact ⟨_, _, hstart, (hok _ _ hstart).sound, hinfo'.write _, fun j b hj _ hb => hkept j b hj hb⟩
    | some old =>
      rw [hold] at hstart
      obtain ⟨_, hmapped, rfl⟩ := (h.records info k l hinfo.1).mappings old hold
      have hne : info ≠ old := by
        rintro rfl
        cases hmapped.unique hinfo
      refine ⟨_, _, hstart, (hok _ _ hstart).sound, (hinfo'.write _).free hne,
        fun j b hj hkind hb => (hkept j b hj hb).free ?_⟩
      rintro rfl
      exact hkind (hb.unique hmapped)

/-- The array of a record that has one, or gets its first one. -/
theorem growMappings_follows (hfirst : a.host.allocates (.noMappings ofInterp) = true)
    (success : Bool) :
    Follows (Told a ofInterp info interp) (growMappings info success) (allocated success)
      fun _ _ => Told a ofInterp info interp := by
  have hrun : ∀ st, Told a ofInterp info interp st → ∃ st',
      growMappings info success st = (allocated success, st') ∧ Told a ofInterp info interp st' := by
    rintro st ⟨hsound, k, l, hinfo, -, hinterp⟩
    obtain ⟨st', mappings, hrun, hsound', hinfo', hkept⟩ := growMappings_apply hsound hinfo success
    refine ⟨st', hrun, hsound', k, _, hinfo', fun _ => hfirst, ?_⟩
    exact rel_imp hinterp fun i hostPath ⟨hne, hblank⟩ => ⟨hne, hblank.of_kept hne hinfo hkept⟩
  cases success with
  | false =>
    refine Follows.of_error fun st hst => ?_
    obtain ⟨st', hrun, -⟩ := hrun st hst
    rw [hrun]
    rfl
  | true =>
    refine Follows.of_ok fun st hst => ?_
    obtain ⟨st', hrun, hst'⟩ := hrun st hst
    exact ⟨(), st', hrun, hst'⟩

/-- A segment needs pages that are not in the file if its mappings are two. -/
theorem needsPages_iff {k : ℕ} (hsize : a.pageSize = 2 ^ k) (isClass64 : Bool) (header : List Byte)
    (h : Placed a.host.cpu k (Segment.ofBytes (classCpu isClass64) header)) :
    a.needsPages isClass64 header = true ↔
      (Segment.ofBytes (classCpu isClass64) header).filesz.toNat <
          (Segment.ofBytes (classCpu isClass64) header).memsz.toNat ∧
        fileEnd k (Segment.ofBytes (classCpu isClass64) header) <
          memEnd k (Segment.ofBytes (classCpu isClass64) header) := by
  have hfields : (Segment.ofBytes (classCpu isClass64) header).vaddr.toNat =
        (if isClass64 then field header 16 8 else field header 8 4) ∧
      (Segment.ofBytes (classCpu isClass64) header).filesz.toNat =
        (if isClass64 then field header 32 8 else field header 16 4) ∧
      (Segment.ofBytes (classCpu isClass64) header).memsz.toNat =
        (if isClass64 then field header 40 8 else field header 20 4) := by
    cases isClass64 with
    | true => exact ⟨Nat.mod_eq_of_lt (field_lt ..), Nat.mod_eq_of_lt (field_lt ..),
        Nat.mod_eq_of_lt (field_lt ..)⟩
    | false => exact ⟨Nat.mod_eq_of_lt (field_lt ..), Nat.mod_eq_of_lt (field_lt ..),
        Nat.mod_eq_of_lt (field_lt ..)⟩
  obtain ⟨hvaddr, hfilesz, hmemsz⟩ := hfields
  have hfits := h.fits
  have hlimit : 2 ^ (classCpu isClass64).wordBits ≤ 2 ^ a.host.cpu.wordBits :=
    Nat.pow_le_pow_right (by decide) h.program_le
  have hle := h.filesz_le
  have hpos := Nat.two_pow_pos k
  unfold Attempt.needsPages fileEnd memEnd base
  dsimp only
  rw [← hvaddr, ← hfilesz, ← hmemsz, hsize, Bool.and_eq_true, decide_eq_true_iff,
    decide_eq_true_iff, Nat.mod_eq_of_lt (by omega), Nat.mod_eq_of_lt (by omega),
    Nat.add_div_right _ hpos, Nat.add_div_right _ hpos, Nat.succ_lt_succ_iff,
    Nat.add_lt_add_iff_right, Nat.mul_lt_mul_right hpos]

/-- The array of a record grows by as many mappings as are added. -/
theorem addMapping_length {k : ℕ} {isClass64 : Bool} {header : List Byte} {alloc : ℕ → Bool}
    {mappings : Option (List (Mapping a.host.cpu))} {new : List (Mapping a.host.cpu)}
    (hsize : a.pageSize = 2 ^ k)
    (hplaced : Placed a.host.cpu k (Segment.ofBytes (classCpu isClass64) header))
    (hrun : Execve.addMapping (BitVec.ofNat _ (2 ^ k)) alloc mappings
      (Segment.ofBytes (classCpu isClass64) header) = .ok new) :
    new.length = (mappings.getD []).length + if a.needsPages isClass64 header then 2 else 1 := by
  obtain ⟨file, -, hnew⟩ := hplaced.addMapping_ok hrun
  have hpages := needsPages_iff hsize isClass64 header hplaced
  split at hnew
  · rename_i hextra
    obtain ⟨anonymous, -, rfl⟩ := hnew
    rw [if_pos (hpages.mpr hextra), List.length_append]
    rfl
  · rename_i hextra
    rw [hnew, if_neg (mt hpages.mp hextra), List.length_append]
    rfl

/-- The array of a record grows by one mapping or by two. -/
theorem growBoth_follows (hfirst : a.host.allocates (.noMappings ofInterp) = true) (twice : Bool)
    (i : ℕ) :
    Follows (Told a ofInterp info interp)
      (if twice then do
        growMappings info (a.gets (.mapping ofInterp i) 2 0)
        growMappings info (a.gets (.mapping ofInterp i) 2 1)
      else growMappings info (a.gets (.mapping ofInterp i) 1 0))
      (if a.host.allocates (.mapping ofInterp i) = false then status (-enomem) else .ok ())
      fun _ _ => Told a ofInterp info interp := by
  cases twice with
  | true =>
    have hunit : ∀ result : Except Stop Unit, (result >>= fun _ => .ok ()) = result :=
      fun _ => bind_pure_unit
    rw [← allocated_two, hunit]
    exact (growMappings_follows hfirst _).bind fun _ _ _ => growMappings_follows hfirst _
  | false =>
    have hone : allocated (a.gets (.mapping ofInterp i) 1 0) =
        if a.host.allocates (.mapping ofInterp i) = false then status (-enomem) else .ok () := by
      unfold Attempt.gets allocated
      cases a.host.allocates (.mapping ofInterp i) <;> simp
    rw [← hone]
    exact growMappings_follows hfirst _

/-- The mappings of a segment are added as the front end says. -/
theorem addMapping_follows (isClass64 : Bool) (i : ℕ) (header : List Byte) :
    Follows (Told a ofInterp info interp) (addMapping a ofInterp info isClass64 i header)
      (if a.host.allocates (.noMappings ofInterp) = false then .error .nullPointer
        else if a.host.allocates (.mapping ofInterp i) = false then status (-enomem)
        else .ok ()) fun _ _ => Told a ofInterp info interp := by
  cases hfirst : a.host.allocates (.noMappings ofInterp) with
  | false =>
    -- There is no array yet.
    refine Follows.of_error fun st ⟨_, k, l, hinfo, hmapped, _⟩ => ?_
    have hnone : l.mappings = none := by
      cases hmappings : l.mappings with
      | none => rfl
      | some old =>
        rw [hmappings, hfirst] at hmapped
        cases hmapped rfl
    unfold addMapping
    rw [bind_apply_ok (readInfo_apply info st),
      info_of_holds hinfo, hnone, hfirst]
    rfl
  | true =>
    rw [if_neg (by decide)]
    intro st hst
    obtain ⟨k, l, hinfo, -⟩ := hst.record
    have hstart : ∃ st₁, Told a ofInterp info interp st₁ ∧
        addMapping a ofInterp info isClass64 i header st =
          (if a.needsPages isClass64 header then do
            growMappings info (a.gets (.mapping ofInterp i) 2 0)
            growMappings info (a.gets (.mapping ofInterp i) 2 1)
          else growMappings info (a.gets (.mapping ofInterp i) 1 0) : Exec Unit) st₁ := by
      unfold addMapping
      rw [bind_apply_ok (readInfo_apply info st),
        info_of_holds hinfo, hfirst]
      cases hmappings : l.mappings with
      | some old => exact ⟨st, hst, rfl⟩
      | none =>
        -- The first array is what a longer one would be.
        obtain ⟨st₁, -, hgrow, -⟩ := growMappings_apply hst.sound hinfo true
        obtain ⟨-, -, hst₁⟩ := (growMappings_follows hfirst true st hst).1 _ _ hgrow
        have hsame : growMappings info true st = (do
            let new ← alloc true (.mappings info)
            writeInfo info fun l => { l with mappings := some new } : Exec Unit) st := by
          unfold growMappings
          rw [bind_apply_ok (readInfo_apply info st),
            info_of_holds hinfo, hmappings, if_pos rfl,
            bind_apply_ok (alloc_apply (.mappings info) st),
            bind_apply_ok (alloc_apply (.mappings info) st)]
          exact congrFun (bind_return (writeInfo info _)) _
        rw [hsame] at hgrow
        refine ⟨st₁, hst₁, ?_⟩
        exact bind_apply_ok hgrow
    obtain ⟨st₁, hst₁, hrun⟩ := hstart
    rw [hrun]
    exact growBoth_follows hfirst _ _ st₁ hst₁

/-- While the interpreter of a record is added: the record, and that of the interpreter. -/
structure Adds (info i : ℕ) (k : Bool) (l l' : LoadInfo) (st : State) : Prop where
  blocks : st.blocks.Sound
  record : st.blocks.Holds info (.info k l)
  added : st.blocks.Holds i (.info true l')
  ne : i ≠ info

/-- Other blocks may be allocated. -/
theorem Adds.alloc {i : ℕ} {l' : LoadInfo} (h : Adds info i k l l' st) (b : Block) :
    Adds info i k l l' { st with blocks := st.blocks.alloc b } :=
  ⟨h.blocks.alloc b, h.record.alloc h.blocks b, h.added.alloc h.blocks b, h.ne⟩

/-- The record of the interpreter is changed, but no path. -/
theorem Adds.write {i p : ℕ} {l' : LoadInfo} {path : Path} (h : Adds info i k l l' st)
    (hp : st.blocks.Holds p (.path path)) (l'' : LoadInfo) :
    Adds info i k l l'' { st with blocks := st.blocks.write i (.info true l'') } ∧
      (st.blocks.write i (.info true l'')).Holds p (.path path) := by
  have hne : p ≠ i := by
    rintro rfl
    cases hp.unique h.added
  exact ⟨⟨h.blocks.write ⟨_, h.added⟩ _, h.record.write_other h.ne.symm _, h.added.write _, h.ne⟩,
    hp.write_other hne _⟩

/-- The front end, with all allocations. -/
theorem addInterp_allocated (file : File) (header : ProgramHeader) :
    (Execve.addInterp a.host ofInterp file header none).result a.host.link a.getcwd = (do
      allocated (a.gets (.interp ofInterp) 2 0)
      allocated (a.gets (.interp ofInterp) 2 1)
      let userPath ← readInterp a.host file header
      let hostPath ← (translateAndCheckExec a.host userPath).result a.host.link a.getcwd
      allocated (a.gets (.interpPaths ofInterp) 2 0)
      allocated (a.gets (.interpPaths ofInterp) 2 1)
      .ok (some hostPath)) := by
  simp only [allocated_two]
  unfold Execve.addInterp
  rw [if_neg (by decide)]
  split
  · rfl
  · rw [Front.result_bind]
    change readInterp a.host file header >>= _ = _
    congr 1
    funext userPath
    rw [Front.result_bind]
    congr 1
    funext hostPath
    split <;> rfl

/-- The record of the interpreter gets its paths. -/
theorem setInterpPaths_follows {i : ℕ} (userPath hostPath : Path) (first second : Bool) :
    Follows (Adds info i k l {}) (do
        let newHostPath ← alloc first (.path hostPath)
        writeInfo i fun l => { l with hostPath := some newHostPath }
        let newUserPath ← alloc second (.path userPath)
        writeInfo i fun l => { l with userPath := some newUserPath }) (do
        allocated first
        allocated second
        .ok (some hostPath))
      fun _ found st' => ∃ l' p, found = some hostPath ∧ Adds info i k l l' st' ∧
        l'.mappings = none ∧ l'.interp = none ∧ l'.hostPath = some p ∧
        st'.blocks.Holds p (.path hostPath) := by
  have hpath : Follows (Adds info i k l {}) (alloc first (.path hostPath)) (allocated first)
      fun p _ st' => Adds info i k l {} st' ∧ st'.blocks.Holds p (.path hostPath) :=
    alloc_follows _ _ fun st' hst' => ⟨hst'.alloc _, Blocks.holds_alloc hst'.blocks _⟩
  refine hpath.bind fun p _ _ => ?_
  have hsetPath : Follows (fun st' => Adds info i k l {} st' ∧
        st'.blocks.Holds p (.path hostPath))
      (writeInfo i fun l => { l with hostPath := some p }) (.ok ())
      fun _ _ st' => Adds info i k l { hostPath := some p } st' ∧
        st'.blocks.Holds p (.path hostPath) :=
    writeInfo_follows fun st' hst' => ⟨true, {}, hst'.1.added, hst'.1.write hst'.2 _⟩
  refine hsetPath.ok_bind fun _ => ?_
  have hother : Follows (fun st' => Adds info i k l { hostPath := some p } st' ∧
        st'.blocks.Holds p (.path hostPath)) (alloc second (.path userPath)) (allocated second)
      fun _ _ st' => Adds info i k l { hostPath := some p } st' ∧
        st'.blocks.Holds p (.path hostPath) :=
    alloc_follows _ _ fun st' hst' => ⟨hst'.1.alloc _, hst'.2.alloc hst'.1.blocks _⟩
  refine hother.bind fun q _ _ => writeInfo_follows fun st' hst' => ?_
  obtain ⟨hadds, hp⟩ := hst'.1.write hst'.2 { hostPath := some p, userPath := some q }
  exact ⟨true, _, hst'.1.added, _, p, rfl, hadds, rfl, rfl, rfl, hp⟩

/-- The blocks of an interpreter that is added. -/
theorem addInterp_added (h : Sound st) (hinfo : st.blocks.Holds info (.info k l))
    (hold : l.interp = none) (file : File) (header : ProgramHeader) :
    Follows (fun st' => st' = st) (addInterp a ofInterp info file header)
      ((Execve.addInterp a.host ofInterp file header none).result a.host.link a.getcwd)
      fun _ found st' => ∃ i l' p hostPath, found = some hostPath ∧
        Adds info i k { l with interp := some i } l' st' ∧ l'.mappings = none ∧ l'.interp = none ∧
        l'.hostPath = some p ∧ st'.blocks.Holds p (.path hostPath) := by
  rw [addInterp_allocated]
  have hread : Follows (fun st' => st' = st) (readInfo info) (.ok l) fun l' _ st' =>
      l' = l ∧ st' = st := by
    refine Follows.of_ok ?_
    rintro st' rfl
    exact ⟨_, st', rfl, info_of_holds hinfo, rfl⟩
  refine hread.ok_bind fun l' => Follows.of_and ?_
  rintro rfl
  rw [hold, if_neg (by decide)]
  have hinterp : ∀ success, Follows (fun st' => st' = st) (alloc success (.info true {}))
      (allocated success) fun i _ => Adds info i k l' {} := by
    refine fun success => alloc_follows _ _ ?_
    rintro st' rfl
    exact ⟨h.blocks.alloc _, hinfo.alloc h.blocks _, Blocks.holds_alloc h.blocks _,
      (hinfo.lt h.blocks).ne'⟩
  refine (hinterp _).bind fun i _ _ => ?_
  have hset : Follows (Adds info i k l' {})
      (writeInfo info fun l => { l with interp := some i }) (.ok ())
      fun _ _ => Adds info i k { l' with interp := some i } {} :=
    writeInfo_follows fun st' hst' => ⟨k, l', hst'.record, hst'.blocks.write ⟨_, hst'.record⟩ _,
      hst'.record.write _, hst'.added.write_other hst'.ne _, hst'.ne⟩
  refine hset.ok_bind fun _ => ?_
  have hbuffer : ∀ success, Follows (Adds info i k { l' with interp := some i } {})
      (alloc success .buffer) (allocated success)
      fun _ _ => Adds info i k { l' with interp := some i } {} := fun success =>
    alloc_follows _ _ fun st' hst' => hst'.alloc _
  refine (hbuffer _).bind fun _ _ _ =>
    of_bind_follows fun userPath _ => of_bind_follows fun hostPath _ => ?_
  refine (setInterpPaths_follows userPath hostPath _ _).conseq (fun _ h => h) ?_
  rintro _ _ st' ⟨l'', p, rfl, hfilled⟩
  exact ⟨i, l'', p, hostPath, rfl, hfilled⟩

/-- An interpreter is added as the front end says. -/
theorem addInterp_follows (file : File) (header : ProgramHeader) :
    Follows (Told a ofInterp info interp) (addInterp a ofInterp info file header)
      ((Execve.addInterp a.host ofInterp file header interp).result a.host.link a.getcwd)
      fun _ interp => Told a ofInterp info interp := by
  intro st hst
  obtain ⟨k, l, hinfo, hmapped, hinterp⟩ := hst.record
  cases hold : l.interp with
  | some old =>
    rw [hold] at hinterp
    cases hinterp
    have hrun : addInterp a ofInterp info file header st = (status (-einval), st) := by
      unfold addInterp
      rw [bind_apply_ok (readInfo_apply info st),
        info_of_holds hinfo, hold]
      rfl
    exact Triple.of_error hrun rfl
  | none =>
    rw [hold] at hinterp
    cases hinterp
    have hkeeps : Triple (fun st' => st' = st) (addInterp a ofInterp info file header)
        (fun _ => Filling 0 st) fun _ => Filling 0 st := by
      refine (addInterp_keeps a info ⟨k, l, hinfo⟩ (Nat.zero_le _) ofInterp file header).conseq ?_
        (fun _ _ h => h) fun _ _ h => h
      rintro _ rfl
      exact ⟨hst.sound, Stays.refl 0 _⟩
    refine ((addInterp_added hst.sound hinfo hold file header).and hkeeps).conseq (fun _ h => h) ?_
      st rfl
    rintro _ _ st' ⟨⟨i, l', p, hostPath, rfl, hadds, hnomaps, hnointerp, hhost, hp⟩, hfilling⟩
    exact ⟨hfilling.sound, k, _, hadds.record, hmapped, .some ⟨hadds.ne, true, l', p, hadds.added,
      hnomaps, hnointerp, hhost, hp⟩⟩

/-- What a program header tells is added as the front end says. -/
theorem addLoadInfo_follows (file : File) (elf : ElfHeader) (i : ℕ) (header : List Byte) :
    Follows (Told a ofInterp info interp) (addLoadInfo a ofInterp info file elf i header)
      ((Execve.addLoadInfo a.host ofInterp file i (.ofBytes elf.isClass64 header) interp).result
        a.host.link a.getcwd)
      fun _ interp => Told a ofInterp info interp := by
  unfold addLoadInfo Execve.addLoadInfo
  dsimp only
  by_cases hload : (ProgramHeader.ofBytes elf.isClass64 header).type = ptLoad
  · rw [if_pos hload, if_pos hload]
    have hsame : Front.result (if a.host.allocates (.noMappings ofInterp) = false then
          Front.of (.error .nullPointer)
        else if a.host.allocates (.mapping ofInterp i) = false then Front.of (status (-enomem))
        else pure interp) a.host.link a.getcwd =
      Except.map (fun _ => interp) (if a.host.allocates (.noMappings ofInterp) = false then
          .error .nullPointer
        else if a.host.allocates (.mapping ofInterp i) = false then status (-enomem)
        else .ok ()) := by
      split_ifs <;> rfl
    rw [hsame]
    exact (addMapping_follows elf.isClass64 i header).map fun _ _ _ h => h
  rw [if_neg hload, if_neg hload]
  by_cases hinterp : (ProgramHeader.ofBytes elf.isClass64 header).type = ptInterp
  · rw [if_pos hinterp, if_pos hinterp]
    exact addInterp_follows file _
  · rw [if_neg hinterp, if_neg hinterp]
    exact Follows.of_ok fun st hst => ⟨(), st, rfl, hst⟩

/-- The program headers are read as the front end says. -/
theorem programHeadersFrom_follows (file : File) (elf : ElfHeader) (n i offset : ℕ) :
    Follows (Told a ofInterp info interp) (programHeadersFrom a ofInterp info file elf n i offset)
      ((Execve.programHeadersFrom a.host ofInterp file elf n i offset interp).result a.host.link
        a.getcwd)
      fun _ interp => Told a ofInterp info interp := by
  induction n generalizing i offset interp with
  | zero => exact Follows.of_ok fun st hst => ⟨(), st, rfl, hst⟩
  | succ n ih =>
    unfold programHeadersFrom Execve.programHeadersFrom
    cases file.pread offset elf.phentsize with
    | error errno => exact Follows.of_error fun _ _ => rfl
    | ok bytes =>
      dsimp only
      by_cases hlength : bytes.length ≠ elf.phentsize
      · rw [if_pos hlength, if_pos hlength]
        exact Follows.of_error fun _ _ => rfl
      · rw [if_neg hlength, if_neg hlength, Front.result_bind]
        exact (addLoadInfo_follows file elf i bytes).bind fun _ _ _ => ih _ _

/-- So are all program headers. -/
theorem iterateProgramHeaders_follows (file : File) (elf : ElfHeader) :
    Follows (Told a ofInterp info none) (iterateProgramHeaders a ofInterp info file elf)
      ((Execve.iterateProgramHeaders a.host ofInterp file elf).result a.host.link a.getcwd)
      fun _ interp => Told a ofInterp info interp := by
  unfold iterateProgramHeaders Execve.iterateProgramHeaders
  split_ifs
  · exact Follows.of_error fun _ _ => rfl
  · exact Follows.of_error fun _ _ => rfl
  · cases file.lseek elf.phoff with
    | error errno => exact Follows.of_error fun _ _ => rfl
    | ok offset =>
      dsimp only
      split_ifs
      · exact Follows.of_ok fun st hst => ⟨(), st, rfl, hst⟩
      · exact programHeadersFrom_follows file elf _ _ _
  · cases file.lseek elf.phoff with
    | error errno => exact Follows.of_error fun _ _ => rfl
    | ok offset =>
      dsimp only
      split_ifs
      · exact Follows.of_error fun _ _ => rfl
      · exact programHeadersFrom_follows file elf _ _ _

/-- A file is extracted as the front end says. -/
theorem extractLoadInfo_follows (hostPath : Path) :
    Follows (fun st => Sound st ∧ Blank hostPath info st) (extractLoadInfo a ofInterp info)
      ((Execve.extractLoadInfo a.host ofInterp hostPath).result a.host.link a.getcwd)
      fun _ interp => Told a ofInterp info interp := by
  rintro st ⟨hsound, k, l, p, hl, hmappings, hinterp, hhost, hp⟩
  have hpath : st.hostPath info = some hostPath := by
    unfold State.hostPath
    rw [info_of_holds hl, hhost, Option.bind_some, hp.1]
  have hrun : extractLoadInfo a ofInterp info st = (of (openElf a.host hostPath) >>= fun opened => do
      writeInfo info fun l => { l with elfHeader := some opened.2 }
      if opened.2.type = etExec ∨ opened.2.type = etDyn then
        iterateProgramHeaders a ofInterp info opened.1 opened.2
      else of (status (-einval)) : Exec Unit) st := by
    unfold extractLoadInfo
    rw [bind_apply_ok (read_apply st), hpath]
  rw [hrun]
  unfold Execve.extractLoadInfo
  rw [Front.result_bind]
  refine of_bind_follows (P := fun st' => st' = st) (fun opened _ => ?_) st rfl
  have hheader : Follows (fun st' => st' = st)
      (writeInfo info fun l => { l with elfHeader := some opened.2 }) (.ok ())
      fun _ _ => Told a ofInterp info none := by
    refine writeInfo_follows ?_
    rintro st' rfl
    have hrecord := hsound.records info k l hl.1
    refine ⟨k, l, hl, hsound.write hl ⟨hrecord.hostPath, hrecord.userPath, hrecord.mappings,
      hrecord.interp⟩, k, _, hl.write _, ?_, ?_⟩
    · rw [hmappings]
      nofun
    · rw [hinterp]
      exact .none
  refine hheader.ok_bind fun _ => ?_
  obtain ⟨file, elf⟩ := opened
  dsimp only
  split
  · exact iterateProgramHeaders_follows file elf
  · exact Follows.of_error fun _ _ => rfl

end Headers

section Entry

variable (a : Attempt) {info raw : ℕ} {hostPath userPath : Path} {st : State}

/-- An executable and its interpreter are extracted as the front end says. -/
theorem extractLoadInfos_follows :
    Follows (fun st => Sound st ∧ Blank hostPath info st) (extractLoadInfos a info) (do
      match ← (Execve.extractLoadInfo a.host false hostPath).result a.host.link a.getcwd with
      | none => .ok ()
      | some interpPath => do
        let nested ← (Execve.extractLoadInfo a.host true interpPath).result a.host.link a.getcwd
        if nested.isSome then status (-einval) else .ok ()) fun _ _ _ => True := by
  refine (extractLoadInfo_follows hostPath).bind fun _ interp _ => ?_
  rintro st ⟨hsound, k, l, hl, -, hinterp⟩
  rw [bind_apply_ok (readInfo_apply info st), info_of_holds hl]
  cases hpointer : l.interp with
  | none =>
    rw [hpointer] at hinterp
    cases hinterp
    exact Triple.of_ok rfl ⟨(), rfl, trivial⟩
  | some i =>
    rw [hpointer] at hinterp
    cases hinterp with
    | some hblank =>
      refine Follows.bind (P := fun st => Sound st ∧ Blank _ i st) (extractLoadInfo_follows _)
        (fun _ nested _ => ?_) st ⟨hsound, hblank.2⟩
      rintro st' ⟨-, k', l', hl', -, hnested⟩
      rw [bind_apply_ok (readInfo_apply i st'),
        info_of_holds hl']
      cases hinner : l'.interp with
      | none =>
        rw [hinner] at hnested
        cases hnested
        exact Triple.of_ok rfl ⟨(), rfl, trivial⟩
      | some j =>
        rw [hinner] at hnested
        cases hnested
        exact Triple.of_error rfl rfl

/-- The tracee gets a new record if there is memory for it. -/
theorem replaceLoadInfo_follows :
    Follows Sound (replaceLoadInfo a) (allocated (a.host.allocates .loadInfo))
      fun info _ st => Sound st ∧ st.loadInfo = some info ∧
        st.blocks.Holds info (.info false {}) := by
  have hverdict : Follows Sound (replaceLoadInfo a) (allocated (a.host.allocates .loadInfo))
      fun _ _ _ => True := by
    refine Follows.of_verdict fun st _ => ?_
    unfold replaceLoadInfo
    rw [bind_apply_ok (read_apply st)]
    cases st.loadInfo <;> cases a.host.allocates .loadInfo <;> rfl
  have hreplaced : Triple Sound (replaceLoadInfo a)
      (fun info st => Sound st ∧ st.loadInfo = some info ∧ st.blocks.Holds info (.info false {}))
      fun _ _ => True := by
    intro st hst
    obtain ⟨hok, -⟩ := replaceLoadInfo_kept a hst st rfl
    refine ⟨fun info st' hrun => ?_, fun _ _ _ => trivial⟩
    obtain ⟨hkept, hload, hinfo, -⟩ := hok info st' hrun
    exact ⟨hkept.sound, hload, hinfo⟩
  exact (hverdict.and hreplaced).conseq (fun _ h => h) fun _ _ _ h => h.2

/-- The record gets its paths if there is memory for them. -/
theorem setPaths_follows :
    Follows (fun st => Sound st ∧ st.loadInfo = some info ∧ st.blocks.Holds info (.info false {}))
      (setPaths a info raw hostPath userPath) (do
        allocated (a.host.allocates .hostPath)
        allocated (a.host.allocates .userPath))
      fun _ _ st => Sound st ∧ Blank hostPath info st := by
  rintro st ⟨hst, hload, hinfo⟩
  have hhost : ∀ success, Follows (fun st' => st' = st) (alloc success (.path hostPath))
      (allocated success) fun p _ st' => st'.blocks.Sound ∧
        st'.blocks.Holds info (.info false {}) ∧ st'.blocks.Holds p (.path hostPath) := by
    refine fun success => alloc_follows _ _ ?_
    rintro st' rfl
    exact ⟨hst.blocks.alloc _, hinfo.alloc hst.blocks _, Blocks.holds_alloc hst.blocks _⟩
  have hne : ∀ {st' : State} {p : ℕ} {l : LoadInfo}, st'.blocks.Holds info (.info false l) →
      st'.blocks.Holds p (.path hostPath) → p ≠ info := by
    rintro st' p l hl hp rfl
    cases hl.unique hp
  have hsetHost : ∀ p, Follows (fun st' : State => st'.blocks.Sound ∧
        st'.blocks.Holds info (.info false {}) ∧ st'.blocks.Holds p (.path hostPath))
      (writeInfo info fun l => { l with hostPath := some p }) (.ok ())
      fun _ _ st' => st'.blocks.Sound ∧
        st'.blocks.Holds info (.info false { hostPath := some p }) ∧
        st'.blocks.Holds p (.path hostPath) := fun p =>
    writeInfo_follows fun st' ⟨hblocks, hl, hp⟩ => ⟨false, {}, hl, hblocks.write ⟨_, hl⟩ _,
      hl.write _, hp.write_other (hne hl hp) _⟩
  have huser : ∀ p success, Follows (fun st' : State => st'.blocks.Sound ∧
        st'.blocks.Holds info (.info false { hostPath := some p }) ∧
        st'.blocks.Holds p (.path hostPath)) (alloc success (.path userPath)) (allocated success)
      fun _ _ st' => st'.blocks.Sound ∧
        st'.blocks.Holds info (.info false { hostPath := some p }) ∧
        st'.blocks.Holds p (.path hostPath) := fun p success =>
    alloc_follows _ _ fun st' ⟨hblocks, hl, hp⟩ => ⟨hblocks.alloc _, hl.alloc hblocks _,
      hp.alloc hblocks _⟩
  have hsetUser : ∀ p q, Follows (fun st' : State => st'.blocks.Sound ∧
        st'.blocks.Holds info (.info false { hostPath := some p }) ∧
        st'.blocks.Holds p (.path hostPath))
      (writeInfo info fun l => { l with userPath := some q }) (.ok ())
      fun _ _ st' => st'.blocks.Holds info (.info false
          { hostPath := some p, userPath := some q }) ∧
        st'.blocks.Holds p (.path hostPath) := fun p q =>
    writeInfo_follows fun st' ⟨_, hl, hp⟩ => ⟨false, _, hl, hl.write _,
      hp.write_other (hne hl hp) _⟩
  have hpaths : Follows (fun st' => st' = st) (setPaths a info raw hostPath userPath) (do
        allocated (a.host.allocates .hostPath)
        allocated (a.host.allocates .userPath)
        .ok ())
      fun _ _ => Blank hostPath info := by
    refine (hhost _).bind fun p _ _ => (hsetHost p).ok_bind fun _ => (huser p _).bind fun q _ _ =>
      (hsetUser p q).ok_bind fun _ => ?_
    refine writeInfo_follows fun st' ⟨hl, hp⟩ => ⟨false, _, hl, ?_⟩
    exact ⟨false, _, p, hl.write _, rfl, rfl, rfl, hp.write_other (hne hl hp) _⟩
  have hunit : ∀ result : Except Stop Unit, (result >>= fun _ => .ok ()) = result :=
    fun _ => bind_pure_unit
  rw [hunit] at hpaths
  refine (hpaths.and (setPaths_filling a hst hload hinfo)).conseq (fun _ h => h) ?_ st rfl
  rintro _ _ st' ⟨hblank, hfilling, -⟩
  exact ⟨hfilling.sound, hblank⟩

/-- The load information is filled as the front end says. -/
theorem fillLoadInfo_follows :
    Follows Sound (fillLoadInfo a raw hostPath userPath)
      ((Execve.extractLoadInfos a.host hostPath).result a.host.link a.getcwd)
      fun _ _ _ => True := by
  have hresult : (Execve.extractLoadInfos a.host hostPath).result a.host.link a.getcwd = (do
      allocated (a.host.allocates .loadInfo)
      (do
        allocated (a.host.allocates .hostPath)
        allocated (a.host.allocates .userPath))
      match ← (Execve.extractLoadInfo a.host false hostPath).result a.host.link a.getcwd with
      | none => .ok ()
      | some interpPath => do
        let nested ← (Execve.extractLoadInfo a.host true interpPath).result a.host.link a.getcwd
        if nested.isSome then status (-einval) else .ok ()) := by
    unfold Execve.extractLoadInfos
    cases a.host.allocates .loadInfo with
    | false => rfl
    | true =>
      cases a.host.allocates .hostPath with
      | false => rfl
      | true =>
        cases a.host.allocates .userPath with
        | false => rfl
        | true =>
          change (Execve.extractLoadInfo a.host false hostPath >>= _).result _ _ = _ >>= _
          rw [Front.result_bind]
          congr 1
          funext interp
          cases interp with
          | none => rfl
          | some interpPath =>
            dsimp only
            rw [Front.result_bind]
            congr 1
            funext nested
            split <;> rfl
  rw [hresult]
  exact (replaceLoadInfo_follows a).bind fun info _ _ => (setPaths_follows a).bind fun _ _ _ =>
    extractLoadInfos_follows a

/-- The verdict is that on what is found. -/
theorem front_verdict :
    Execve.translateExecveEnter a.host a.getcwd a.loadDone (a.sysarg.mapError .status) =
      a.front >>= fun found => match found with
        | none => .ok ()
        | some (_, _, hostPath, _) =>
          (Execve.extractLoadInfos a.host hostPath).result a.host.link a.getcwd := by
  unfold Attempt.front
  cases a.loadDone with
  | true => rfl
  | false =>
    rw [if_neg Bool.false_ne_true]
    cases a.sysarg with
    | error z => rfl
    | ok path =>
      cases hraw : a.host.allocates .rawPath with
      | false =>
        have hverdict : Execve.translateExecveEnter a.host a.getcwd false (.ok path) =
          status (-enomem) := if_pos hraw
        exact hverdict
      | true =>
        refine (translateExecveEnter_path hraw a.getcwd).trans ?_
        change _ = ((a.shebang path).mapError directoryError >>= fun found => _) >>= _
        change (a.shebang path).mapError directoryError >>= _ = _
        cases (a.shebang path).mapError directoryError <;> rfl

variable {a}

/-- An attempt ends as the front end says, whatever the tracee has executed before. -/
theorem translateExecveEnter_verdict (h : Sound st) :
    (translateExecveEnter a st).1 =
      Execve.translateExecveEnter a.host a.getcwd a.loadDone (a.sysarg.mapError .status) := by
  have hframe : (translateExecveEnter a st).1 =
      (enterWith a st.blocks.next { st with blocks := st.blocks.alloc .buffer }).1 := by
    rcases hrun : enterWith a st.blocks.next { st with blocks := st.blocks.alloc .buffer } with
      ⟨result, st'⟩
    rw [translateExecveEnter, inFrame_apply hrun]
  have hsound : Sound { st with blocks := st.blocks.alloc .buffer } := h.alloc nofun
  rw [hframe, front_verdict]
  rcases enterWith_cases a st.blocks.next { st with blocks := st.blocks.alloc .buffer } with
    ⟨-, hfront, hrun⟩ | ⟨stop, _, hfront, hrun, -⟩ | ⟨path, hasShebang, hostPath, userPath, -, -, -,
      hfront, hrun⟩
  · rw [hrun, hfront]
    rfl
  · rw [hrun, hfront]
    rfl
  · have hfound : Sound (foundState st.blocks.next path hasShebang
        { st with blocks := st.blocks.alloc .buffer }) := (foundState_kept hsound path hasShebang).1
    have hunit : ∀ result : Except Stop Unit, result.map (fun _ => ()) = result := by
      rintro (_ | _) <;> rfl
    rw [hrun, hfront, Outcome.ok_bind]
    exact (hunit _).symm.trans (((fillLoadInfo_follows a).verdict hfound).trans (hunit _))

/-- So does every attempt of a run. -/
theorem runAttempts_verdict (attempts : List Attempt) :
    (translateExecveEnter a (runAttempts attempts .initial)).1 =
      Execve.translateExecveEnter a.host a.getcwd a.loadDone (a.sysarg.mapError .status) :=
  translateExecveEnter_verdict (runAttempts_sound attempts sound_initial)

end Entry

end Memory

end Abyss.Execve
