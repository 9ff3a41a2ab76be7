import Abyss.Execve.Enter
import Abyss.Library.Blocks
import Abyss.Library.Machine

/-!
# The memory of an `execve`

The entry of an `execve` replaces the load information of the tracee: a record with the paths of the
executable, its mappings and a record for its ELF interpreter. All of them are allocated one by one,
and only the record and the path that was passed are ever freed. The exit reads the record.

Where no script is executed the path that was passed is freed, but the record keeps the pointer to
it. The path for `/proc/self/exe` is a buffer of the entry, and the tracee keeps the pointer to it,
too. All else is live or null.
-/

namespace Abyss.Execve.Memory

open Bytes Machine

/-! ## Blocks -/

/-- `LoadInfo`, as far as it is used; the pointers are identities of blocks. -/
structure LoadInfo where
  hostPath : Option ℕ := none
  userPath : Option ℕ := none
  rawPath : Option ℕ := none
  mappings : Option ℕ := none
  elfHeader : Option ElfHeader := none
  interp : Option ℕ := none

/-- What is in a block: a path that was duplicated, the path that was passed, the load information of
an executable or of its interpreter, the mappings of a record, or bytes that are not looked at. -/
inductive Block where
  | path (path : Path)
  | rawPath (path : Path)
  | info (ofInterp : Bool) (info : LoadInfo)
  | mappings (info : ℕ)
  | buffer

/-- The blocks, and the pointers of the tracee to its load information and to its new executable. -/
structure State where
  blocks : Blocks Block
  loadInfo : Option ℕ
  newExe : Option ℕ

/-- A tracee that has not executed anything. -/
def State.initial : State := ⟨.empty, none, none⟩

/-- The record at an identity. -/
def State.info (st : State) (i : ℕ) : LoadInfo :=
  match st.blocks.content i with
  | some (.info _ info) => info
  | _ => {}

/-- A computation on the memory, which may end early. -/
abbrev Exec (α : Type) := Machine State Stop α

/-- A computation that does not touch the memory. -/
def of {α : Type} (result : Except Stop α) : Exec α := fun st => (result, st)

/-- Allocate a block, if there is memory. -/
def alloc (success : Bool) (b : Block) : Exec ℕ := fun st =>
  if success then (.ok st.blocks.next, { st with blocks := st.blocks.alloc b })
  else (status (-enomem), st)

/-- Free a block. -/
def free (i : ℕ) : Exec Unit := modify fun st => { st with blocks := st.blocks.free i }

/-- The record at an identity. -/
def readInfo (i : ℕ) : Exec LoadInfo := fun st => (.ok (st.info i), st)

/-- Change the record at an identity. -/
def writeInfo (i : ℕ) (f : LoadInfo → LoadInfo) : Exec Unit := modify fun st =>
  match st.blocks.content i with
  | some (.info ofInterp info) => { st with blocks := st.blocks.write i (.info ofInterp (f info)) }
  | _ => st

/-- Run a computation with a buffer that only lives as long. -/
def inFrame {α : Type} (body : ℕ → Exec α) : Exec α := fun st =>
  match body st.blocks.next { st with blocks := st.blocks.alloc .buffer } with
  | (result, st') => (result, { st' with blocks := st'.blocks.free st.blocks.next })

/-! ## The entry -/

/-- What an `execve` finds: the files and the memory, which of several allocations fails where one of
them does, the working directory of the tracer, the size of a page, whether it is the notification of
a loader at its entry and at its exit, and the path or the error that is read from the tracee. -/
structure Attempt where
  host : Host
  failing : Allocation → ℕ
  getcwd : Getcwd
  pageSize : ℕ
  loadDone : Bool
  leftDone : Bool
  sysarg : Except ℤ Path

/-- Whether there is memory for one of the parts of an allocation. -/
def Attempt.gets (a : Attempt) (allocation : Allocation) (parts part : ℕ) : Bool :=
  a.host.allocates allocation || part < min (a.failing allocation) (parts - 1)

/-- Whether a segment needs pages that are not in the file. -/
def Attempt.needsPages (a : Attempt) (isClass64 : Bool) (header : List Byte) : Bool :=
  let vaddr := if isClass64 then field header 16 8 else field header 8 4
  let filesz := if isClass64 then field header 32 8 else field header 16 4
  let memsz := if isClass64 then field header 40 8 else field header 20 4
  let page (n : ℕ) := n % 2 ^ a.host.cpu.wordBits / a.pageSize
  filesz < memsz && page (vaddr + filesz + a.pageSize) < page (vaddr + memsz + a.pageSize)

section Entry

variable (a : Attempt) (ofInterp : Bool) (info : ℕ)

/-- `vl_array_realloc` of the mappings of a record. -/
def growMappings (success : Bool) : Exec Unit := do
  let old ← readInfo info
  if success then do
    let new ← alloc true (.mappings info)
    writeInfo info fun l => { l with mappings := some new }
    match old.mappings with
    | some mappings => free mappings
    | none => pure ()
  else do
    writeInfo info fun l => { l with mappings := none }
    of (status (-enomem))

/-- Add the mappings of a segment. -/
def addMapping (isClass64 : Bool) (i : ℕ) (header : List Byte) : Exec Unit := do
  let old ← readInfo info
  -- Without memory for an array there is none that could grow.
  (if old.mappings.isNone then
    if a.host.allocates (.noMappings ofInterp) then do
      let new ← alloc true (.mappings info)
      writeInfo info fun l => { l with mappings := some new }
    else fault .nullPointer
  else pure ())
  if a.needsPages isClass64 header then do
    growMappings info (a.gets (.mapping ofInterp i) 2 0)
    growMappings info (a.gets (.mapping ofInterp i) 2 1)
  else growMappings info (a.gets (.mapping ofInterp i) 1 0)

/-- Add the interpreter of an executable, or of an interpreter. -/
def addInterp (file : File) (header : ProgramHeader) : Exec Unit := do
  let old ← readInfo info
  if old.interp.isSome then of (status (-einval))
  else do
    let interp ← alloc (a.gets (.interp ofInterp) 2 0) (.info true {})
    writeInfo info fun l => { l with interp := some interp }
    let _ ← alloc (a.gets (.interp ofInterp) 2 1) .buffer
    let userPath ← of (readInterp a.host file header)
    let hostPath ← of ((translateAndCheckExec a.host userPath).result a.host.link a.getcwd)
    let newHostPath ← alloc (a.gets (.interpPaths ofInterp) 2 0) (.path hostPath)
    writeInfo interp fun l => { l with hostPath := some newHostPath }
    let newUserPath ← alloc (a.gets (.interpPaths ofInterp) 2 1) (.path userPath)
    writeInfo interp fun l => { l with userPath := some newUserPath }

/-- Add what a program header tells. -/
def addLoadInfo (file : File) (elf : ElfHeader) (i : ℕ) (header : List Byte) : Exec Unit :=
  let programHeader := ProgramHeader.ofBytes elf.isClass64 header
  if programHeader.type = ptLoad then addMapping a ofInterp info elf.isClass64 i header
  else if programHeader.type = ptInterp then addInterp a ofInterp info file programHeader
  else pure ()

/-- Read the program headers from an offset on. -/
def programHeadersFrom (file : File) (elf : ElfHeader) : ℕ → ℕ → ℕ → Exec Unit
  | 0, _, _ => pure ()
  | n + 1, i, offset => do
    match file.pread offset elf.phentsize with
    | .error errno => of (status (-errno))
    | .ok bytes =>
      if bytes.length ≠ elf.phentsize then of (status (-enotsup))
      else do
        addLoadInfo a ofInterp info file elf i bytes
        programHeadersFrom file elf n (i + 1) (offset + elf.phentsize)

/-- Read all program headers. -/
def iterateProgramHeaders (file : File) (elf : ElfHeader) : Exec Unit :=
  if elf.phnum ≥ 0xffff then of (status (-enotsup))
  else if !knownPhentsize elf then of (status (-enotsup))
  else
    match file.lseek elf.phoff with
    | .error errno => of (status (-errno))
    | .ok offset =>
      if intOf offset < 0 then
        if a.host.errno = 0 then pure () else of (status (-a.host.errno))
      else programHeadersFrom a ofInterp info file elf elf.phnum 0 offset

/-- The path of a record for the host. -/
def State.hostPath (st : State) (info : ℕ) : Option Path :=
  match (st.info info).hostPath.bind st.blocks.content with
  | some (.path hostPath) => some hostPath
  | _ => none

/-- Extract what is needed of the file that a record tells. -/
def extractLoadInfo : Exec Unit := do
  let st ← read
  match st.hostPath info with
  | none => fault .assertion
  | some hostPath => do
    let (file, elf) ← of (openElf a.host hostPath)
    writeInfo info fun l => { l with elfHeader := some elf }
    if elf.type = etExec ∨ elf.type = etDyn then iterateProgramHeaders a ofInterp info file elf
    else of (status (-einval))

/-- Replace the load information of the tracee by an empty record. -/
def replaceLoadInfo : Exec ℕ := do
  let st ← read
  match st.loadInfo with
  | some old => free old
  | none => pure ()
  modify fun st => { st with loadInfo := none }
  let info ← alloc (a.host.allocates .loadInfo) (.info false {})
  modify fun st => { st with loadInfo := some info }
  pure info

/-- Set the paths of a record; `raw` is the path that was passed, which may have been freed. -/
def setPaths (raw : ℕ) (hostPath userPath : Path) : Exec Unit := do
  let newHostPath ← alloc (a.host.allocates .hostPath) (.path hostPath)
  writeInfo info fun l => { l with hostPath := some newHostPath }
  let newUserPath ← alloc (a.host.allocates .userPath) (.path userPath)
  writeInfo info fun l => { l with userPath := some newUserPath }
  writeInfo info fun l => { l with rawPath := some raw }

/-- Extract what is needed of the executable of a record and of its interpreter, which must not have
an interpreter. -/
def extractLoadInfos : Exec Unit := do
  extractLoadInfo a false info
  let l ← readInfo info
  match l.interp with
  | none => pure ()
  | some interp => do
    extractLoadInfo a true interp
    let nested ← readInfo interp
    if nested.interp.isSome then of (status (-einval)) else pure ()

/-- Fill a new record for the tracee. -/
def fillLoadInfo (raw : ℕ) (hostPath userPath : Path) : Exec Unit := do
  let info ← replaceLoadInfo a
  setPaths a info raw hostPath userPath
  extractLoadInfos a info

/-- The scripts and their interpreters. -/
def Attempt.shebang (a : Attempt) (userPath : Path) : Except Stop (Bool × Path × Path) :=
  (expandShebang a.host userPath).result a.host.link a.getcwd

/-- Extract what an `execve` will need; `newExe` is a buffer for the new executable. -/
def enterWith (newExe : ℕ) : Exec Unit :=
  if a.loadDone then pure ()
  else do
    let userPath ← of (a.sysarg.mapError .status)
    let raw ← alloc (a.host.allocates .rawPath) (.rawPath userPath)
    let (hasShebang, hostPath, userPath) ← of ((a.shebang userPath).mapError directoryError)
    when (hasShebang = false) (free raw)
    modify fun st => { st with newExe := some newExe }
    fillLoadInfo a raw hostPath userPath

/-- The entry of an `execve`. -/
def translateExecveEnter : Exec Unit := inFrame (enterWith a)

/-- The exit of an `execve`: the record that it reads, if any. -/
def translateExecveExit : Exec (Option ℕ) :=
  if a.leftDone then pure none
  else
    match a.host.cpu with
    | .armEabi => pure none
    | .arm64 => do
      let st ← read
      match st.loadInfo with
      | none => fault .nullPointer
      | some info => pure (some info)

end Entry

/-! ## Sound records -/

/-- A path that the load information may point to. -/
def Block.isPath : Block → Prop
  | .path _ => True
  | _ => False

/-- The load information of an executable, or of its interpreter. -/
def Block.isInfo (ofInterp : Bool) : Block → Prop
  | .info ofInterp' _ => ofInterp' = ofInterp
  | _ => False

/-- All pointers of a record but that to the path that was passed are null or live. -/
structure RecordSound (blocks : Blocks Block) (i : ℕ) (l : LoadInfo) : Prop where
  hostPath : blocks.Points Block.isPath l.hostPath
  userPath : blocks.Points Block.isPath l.userPath
  mappings : blocks.Points (· = .mappings i) l.mappings
  interp : blocks.Points (Block.isInfo true) l.interp

/-- All records are sound, the tracee has one or none, and nothing was freed twice. -/
structure Sound (st : State) : Prop where
  blocks : st.blocks.Sound
  records : ∀ i ofInterp l, st.blocks.content i = some (.info ofInterp l) →
    RecordSound st.blocks i l
  loadInfo : st.blocks.Points (Block.isInfo false) st.loadInfo

section Sound

variable {blocks : Blocks Block} {st : State} {i j : ℕ} {b : Block} {l l' : LoadInfo}
  {ofInterp : Bool}

/-- A tracee that has not executed anything is sound. -/
theorem sound_initial : Sound .initial :=
  ⟨Blocks.sound_empty, nofun, Blocks.points_null⟩

/-- A new record has no pointers. -/
theorem recordSound_new : RecordSound blocks i {} := ⟨nofun, nofun, nofun, nofun⟩

/-- An allocation leaves the pointers of a record sound. -/
theorem RecordSound.alloc (h : RecordSound blocks i l) (hs : blocks.Sound) (b : Block) :
    RecordSound (blocks.alloc b) i l :=
  ⟨h.hostPath.alloc hs b, h.userPath.alloc hs b, h.mappings.alloc hs b, h.interp.alloc hs b⟩

/-- A change of a record keeps the kind of its block. -/
theorem RecordSound.write (h : RecordSound blocks i l)
    (hj : blocks.Holds j (.info ofInterp l')) (l'' : LoadInfo) :
    RecordSound (blocks.write j (.info ofInterp l'')) i l :=
  ⟨h.hostPath.write hj id, h.userPath.write hj id, h.mappings.write hj nofun, h.interp.write hj id⟩

/-- A new block keeps the memory sound; a new record has no pointers yet. -/
theorem Sound.alloc (h : Sound st) (hb : ∀ ofInterp l, b = .info ofInterp l → l = {}) :
    Sound { st with blocks := st.blocks.alloc b } := by
  refine ⟨h.blocks.alloc b, fun i ofInterp l hi => ?_, h.loadInfo.alloc h.blocks b⟩
  by_cases hnew : i = st.blocks.next
  · subst hnew
    obtain rfl := hb ofInterp l
      (Option.some.inj ((Function.update_self (f := st.blocks.content) ..).symm.trans hi))
    exact recordSound_new
  · have hold : st.blocks.content i = some (.info ofInterp l) :=
      (Function.update_of_ne hnew _ _).symm.trans hi
    exact (h.records i ofInterp l hold).alloc h.blocks b

/-- A record may get other pointers that are sound. -/
theorem Sound.write (h : Sound st) (hi : st.blocks.Holds i (.info ofInterp l))
    (hl : RecordSound st.blocks i l') :
    Sound { st with blocks := st.blocks.write i (.info ofInterp l') } := by
  refine ⟨h.blocks.write ⟨_, hi⟩ _, fun j ofInterp' l'' hj => ?_, h.loadInfo.write hi id⟩
  by_cases hself : j = i
  · subst j
    obtain ⟨rfl, rfl⟩ := Block.info.inj
      (Option.some.inj ((Function.update_self (f := st.blocks.content) ..).symm.trans hj))
    exact hl.write hi l'
  · have hold : st.blocks.content j = some (.info ofInterp' l'') :=
      (Function.update_of_ne hself _ _).symm.trans hj
    exact (h.records j ofInterp' l'' hold).write hi l'

/-- A block that no record points to may be freed, unless it is the record of the tracee. -/
theorem Sound.free (h : Sound st) (hj : st.blocks.Holds j b) (hpath : ¬b.isPath)
    (hinterp : ¬b.isInfo true) (hload : st.loadInfo ≠ some j)
    (hmappings : ∀ i, b = .mappings i → ∀ ofInterp l,
      st.blocks.content i = some (.info ofInterp l) → l.mappings ≠ some j) :
    Sound { st with blocks := st.blocks.free j } := by
  refine ⟨h.blocks.free ⟨b, hj⟩, fun i ofInterp l hi => ?_, fun i hi => ?_⟩
  · obtain ⟨hhost, huser, hmapped, hinner⟩ := h.records i ofInterp l hi
    refine ⟨hhost.free hj hpath, huser.free hj hpath, fun k hk => ?_, hinner.free hj hinterp⟩
    obtain ⟨b', hb', rfl⟩ := hmapped k hk
    refine ⟨_, hb'.free ?_, rfl⟩
    rintro rfl
    exact hmappings i (hb'.unique hj).symm ofInterp l hi hk
  · obtain ⟨b', hb', hkind⟩ := h.loadInfo i hi
    refine ⟨b', hb'.free ?_, hkind⟩
    rintro rfl
    exact hload hi

end Sound

/-! ## What the extraction leaves -/

/-- A block whose content is not changed after its allocation, and that the extraction does not
free. -/
def Block.isPlain : Block → Prop
  | .path _ => True
  | .rawPath _ => True
  | .buffer => True
  | _ => False

/-- The paths of a record. -/
def LoadInfo.paths (l : LoadInfo) : Option ℕ × Option ℕ × Option ℕ :=
  (l.hostPath, l.userPath, l.rawPath)

/-- While records are filled all paths and records stay, and so do the paths of the records below
`m`. -/
structure Stays (m : ℕ) (st₀ st : State) : Prop where
  loadInfo : st.loadInfo = st₀.loadInfo
  newExe : st.newExe = st₀.newExe
  next : st₀.blocks.next ≤ st.blocks.next
  freed : ∀ i ∈ st₀.blocks.freed, i ∈ st.blocks.freed
  plain : ∀ i b, b.isPlain → st₀.blocks.Holds i b → st.blocks.Holds i b
  records : ∀ i ofInterp l, st₀.blocks.Holds i (.info ofInterp l) →
    ∃ l', st.blocks.Holds i (.info ofInterp l') ∧ (i < m → l'.paths = l.paths) ∧
      (l.elfHeader.isSome → l'.elfHeader.isSome)

/-- All stays where nothing is done. -/
theorem Stays.refl (m : ℕ) (st : State) : Stays m st st :=
  ⟨rfl, rfl, le_rfl, fun _ h => h, fun _ _ _ h => h, fun _ _ l h => ⟨l, h, fun _ => rfl, id⟩⟩

/-- What stays twice stays. -/
theorem Stays.trans {m : ℕ} {st₀ st₁ st₂ : State} (h : Stays m st₀ st₁) (h' : Stays m st₁ st₂) :
    Stays m st₀ st₂ := by
  refine ⟨h'.loadInfo.trans h.loadInfo, h'.newExe.trans h.newExe, h.next.trans h'.next,
    fun i hi => h'.freed i (h.freed i hi), fun i b hb hi => h'.plain i b hb (h.plain i b hb hi),
    fun i ofInterp l hi => ?_⟩
  obtain ⟨l₁, hi₁, hpaths₁, helf₁⟩ := h.records i ofInterp l hi
  obtain ⟨l₂, hi₂, hpaths₂, helf₂⟩ := h'.records i ofInterp l₁ hi₁
  exact ⟨l₂, hi₂, fun hlt => (hpaths₂ hlt).trans (hpaths₁ hlt), fun hsome => helf₂ (helf₁ hsome)⟩

/-- A sound memory while records are filled. -/
structure Filling (m : ℕ) (st₀ st : State) : Prop where
  sound : Sound st
  stays : Stays m st₀ st

/-- A computation that keeps the memory sound while records are filled, however it ends. -/
abbrev KeepsFilling {α : Type} (m : ℕ) (st₀ : State) (x : Exec α) : Prop :=
  Keeps (Filling m st₀) (fun _ => Filling m st₀) x

section Filling

variable {m : ℕ} {st₀ st : State} {i j : ℕ} {b : Block} {l l' : LoadInfo} {ofInterp : Bool}

/-- Blocks may be allocated while records are filled. -/
theorem Filling.alloc (h : Filling m st₀ st) (hb : ∀ ofInterp l, b = .info ofInterp l → l = {}) :
    Filling m st₀ { st with blocks := st.blocks.alloc b } := by
  refine ⟨h.sound.alloc hb, h.stays.trans ⟨rfl, rfl, Nat.le_succ _, fun _ hi => hi,
    fun i b' _ hi => ?_, fun i ofInterp l hi => ?_⟩⟩
  · exact hi.alloc h.sound.blocks b
  · exact ⟨l, hi.alloc h.sound.blocks b, fun _ => rfl, id⟩

/-- A record may be changed; its paths only if it is a new one. -/
theorem Filling.write (h : Filling m st₀ st) (hi : st.blocks.Holds i (.info ofInterp l))
    (hl : RecordSound st.blocks i l') (hpaths : i < m → l'.paths = l.paths)
    (helf : l.elfHeader.isSome → l'.elfHeader.isSome) :
    Filling m st₀ { st with blocks := st.blocks.write i (.info ofInterp l') } := by
  refine ⟨h.sound.write hi hl, h.stays.trans ⟨rfl, rfl, le_rfl, fun _ hj => hj,
    fun j b hb hj => ?_, fun j ofInterp' l'' hj => ?_⟩⟩
  · refine hj.write_other ?_ _
    rintro rfl
    rw [hj.unique hi] at hb
    exact hb
  · by_cases hself : j = i
    · subst j
      obtain ⟨rfl, rfl⟩ := Block.info.inj (hj.unique hi)
      exact ⟨l', hi.write _, hpaths, helf⟩
    · exact ⟨l'', hj.write_other hself _, fun _ => rfl, id⟩

/-- Mappings that their record does not point to any more may be freed. -/
theorem Filling.freeMappings (h : Filling m st₀ st) (hj : st.blocks.Holds j (.mappings i))
    (hi : st.blocks.Holds i (.info ofInterp l)) (hl : l.mappings ≠ some j) :
    Filling m st₀ { st with blocks := st.blocks.free j } := by
  have hload : st.loadInfo ≠ some j := by
    intro hload
    obtain ⟨b, hb, hkind⟩ := h.sound.loadInfo j hload
    rw [hb.unique hj] at hkind
    exact hkind
  refine ⟨h.sound.free hj id id hload fun i' hi' ofInterp' l' hcontent => ?_,
    h.stays.trans ⟨rfl, rfl, le_rfl, fun _ hk => List.mem_cons_of_mem _ hk,
      fun k b hb hk => ?_, fun k ofInterp' l' hk => ?_⟩⟩
  · obtain rfl := Block.mappings.inj hi'
    obtain ⟨-, rfl⟩ := Block.info.inj (Option.some.inj (hcontent.symm.trans hi.1))
    exact hl
  · refine hk.free ?_
    rintro rfl
    rw [hk.unique hj] at hb
    exact hb
  · refine ⟨l', hk.free ?_, fun _ => rfl, id⟩
    rintro rfl
    cases hk.unique hj

/-! ## Primitive computations -/

/-- A computation that does not touch the memory keeps whatever holds of it. -/
theorem of_keeps {α : Type} {P : State → Prop} (result : Except Stop α) :
    Keeps P (fun _ => P) (of result) := fun _ hst =>
  ⟨fun _ _ h => (Prod.mk.inj h).2 ▸ hst, fun _ _ h => (Prod.mk.inj h).2 ▸ hst⟩

/-- A record is live. -/
def IsRecord (i : ℕ) (st : State) : Prop := ∃ ofInterp l, st.blocks.Holds i (.info ofInterp l)

/-- A record is live while records are filled. -/
theorem Filling.isRecord (h : Filling m st₀ st) (hi : IsRecord i st₀) : IsRecord i st := by
  obtain ⟨ofInterp, l, hl⟩ := hi
  obtain ⟨l', hl', -⟩ := h.stays.records i ofInterp l hl
  exact ⟨ofInterp, l', hl'⟩

/-- The record at an identity is the one that its block holds. -/
theorem info_of_holds (hi : st.blocks.Holds i (.info ofInterp l)) : st.info i = l := by
  unfold State.info
  rw [hi.1]

/-- The record that is read is the live one, and it is sound. -/
theorem Filling.recordSound (h : Filling m st₀ st) (hi : IsRecord i st) :
    ∃ ofInterp, st.blocks.Holds i (.info ofInterp (st.info i)) ∧
      RecordSound st.blocks i (st.info i) := by
  obtain ⟨ofInterp, l, hl⟩ := hi
  rw [info_of_holds hl]
  exact ⟨ofInterp, hl, h.sound.records i ofInterp l hl.1⟩

/-- Reading a record changes nothing. -/
theorem readInfo_apply (i : ℕ) (st : State) : readInfo i st = (.ok (st.info i), st) := rfl

/-- A block that is allocated. -/
theorem alloc_apply (b : Block) (st : State) :
    alloc true b st = (.ok st.blocks.next, { st with blocks := st.blocks.alloc b }) := rfl

/-- A change of a live record. -/
theorem writeInfo_apply (f : LoadInfo → LoadInfo) (hi : st.blocks.Holds i (.info ofInterp l)) :
    writeInfo i f st =
      (.ok (), { st with blocks := st.blocks.write i (.info ofInterp (f l)) }) := by
  unfold writeInfo
  rw [modify_apply, hi.1]

/-- A new block is not older than the memory at the start. -/
theorem alloc_filling (success : Bool) (hb : ∀ ofInterp l, b = .info ofInterp l → l = {}) :
    Triple (Filling m st₀) (alloc success b)
      (fun i st => Filling m st₀ st ∧ st.blocks.Holds i b ∧ st₀.blocks.next ≤ i)
      fun _ => Filling m st₀ := by
  intro st hst
  cases success with
  | false => exact Triple.of_error rfl hst
  | true =>
    exact Triple.of_ok rfl ⟨hst.alloc hb, Blocks.holds_alloc hst.sound.blocks b, hst.stays.next⟩

/-- A pointer of a record is set. -/
theorem writeInfo_filling {P : State → Prop} {f : LoadInfo → LoadInfo}
    (hP : ∀ st, P st → Filling m st₀ st ∧ IsRecord i st)
    (hsound : ∀ st l, P st → RecordSound st.blocks i l → RecordSound st.blocks i (f l))
    (hpaths : i < m → ∀ l, (f l).paths = l.paths)
    (helf : ∀ l, l.elfHeader.isSome → (f l).elfHeader.isSome) :
    Triple P (writeInfo i f) (fun _ => Filling m st₀) fun _ => Filling m st₀ := by
  intro st hp
  obtain ⟨hst, hrecord⟩ := hP st hp
  obtain ⟨ofInterp, hi, hl⟩ := hst.recordSound hrecord
  exact Triple.of_ok (writeInfo_apply f hi)
    (hst.write hi (hsound st _ hp hl) (fun hlt => hpaths hlt _) (helf _))

/-- To read a record does not touch the memory. -/
theorem readInfo_keeps {P : State → Prop} {E : Stop → State → Prop} (i : ℕ) :
    Keeps P E (readInfo i) := fun _ hst => Triple.of_ok rfl hst

/-! ## The extraction -/

variable (a : Attempt) (info : ℕ)

/-- The array of a record is replaced by a longer one, or lost. -/
theorem growMappings_keeps (hi : IsRecord info st₀) (success : Bool) :
    KeepsFilling m st₀ (growMappings info success) := by
  intro st hst
  obtain ⟨k, hrecord, hsound⟩ := hst.recordSound (hst.isRecord hi)
  unfold growMappings
  rw [bind_apply_ok (readInfo_apply info st)]
  cases success with
  | false =>
    rw [if_neg Bool.false_ne_true, bind_apply_ok (writeInfo_apply _ hrecord)]
    refine Triple.of_error rfl (hst.write hrecord ?_ (fun _ => rfl) id)
    exact ⟨hsound.hostPath, hsound.userPath, Blocks.points_null, hsound.interp⟩
  | true =>
    have hblocks := hst.sound.blocks
    have hnew := Blocks.holds_alloc hblocks (.mappings info)
    have hrecord' := hrecord.alloc hblocks (.mappings info)
    have hsound' := hsound.alloc hblocks (.mappings info)
    have hfilled : Filling m st₀ { st with
        blocks := (st.blocks.alloc (.mappings info)).write info
          (.info k { st.info info with mappings := some st.blocks.next }) } := by
      refine (hst.alloc (b := .mappings info) nofun).write hrecord' ?_ (fun _ => rfl) id
      exact ⟨hsound'.hostPath, hsound'.userPath, Blocks.points_alloc hblocks rfl, hsound'.interp⟩
    rw [if_pos rfl, bind_apply_ok (alloc_apply (.mappings info) st),
      bind_apply_ok (writeInfo_apply _ hrecord')]
    cases hold : (st.info info).mappings with
    | none => exact Triple.of_ok rfl hfilled
    | some old =>
      obtain ⟨_, hmapped, rfl⟩ := hsound.mappings old hold
      have hne : old ≠ info := by
        rintro rfl
        cases hmapped.unique hrecord
      refine Triple.of_ok rfl (hfilled.freeMappings
        ((hmapped.alloc hblocks _).write_other hne _) (hrecord'.write _) ?_)
      exact fun hsame => (hmapped.lt hblocks).ne' (Option.some.inj hsame)

/-- The mappings of a segment are added to a record. -/
theorem addMapping_keeps (hi : IsRecord info st₀) (ofInterp isClass64 : Bool) (i : ℕ)
    (header : List Byte) :
    KeepsFilling m st₀ (addMapping a ofInterp info isClass64 i header) := by
  refine Keeps.bind (readInfo_keeps info) fun old => Keeps.bind ?_ fun _ => ?_
  · refine Keeps.ite (fun _ => Keeps.ite (fun _ => ?_) fun _ => Keeps.fault fun _ h => h) fun _ =>
      Keeps.pure _
    refine Triple.bind (alloc_filling true nofun) fun new => ?_
    refine writeInfo_filling (fun st hst => ⟨hst.1, hst.1.isRecord hi⟩) (fun st l hst hl => ?_)
      (fun _ _ => rfl) fun _ => id
    refine ⟨hl.hostPath, hl.userPath, ?_, hl.interp⟩
    rintro _ ⟨⟩
    exact ⟨_, hst.2.1, rfl⟩
  · refine Keeps.ite (fun _ => ?_) fun _ => growMappings_keeps info hi _
    exact Keeps.bind (growMappings_keeps info hi _) fun _ => growMappings_keeps info hi _

/-- A path that was duplicated is set in a record. -/
theorem setPath_filling {f : ℕ → LoadInfo → LoadInfo} (success : Bool) (path : Path)
    (hi : IsRecord i st₀)
    (hsound : ∀ (blocks : Blocks Block) (p : ℕ) l, blocks.Points Block.isPath (some p) →
      RecordSound blocks i l → RecordSound blocks i (f p l))
    (hpaths : i < m → ∀ p l, (f p l).paths = l.paths)
    (helf : ∀ p l, l.elfHeader.isSome → (f p l).elfHeader.isSome) :
    KeepsFilling m st₀ (do
      let p ← alloc success (.path path)
      writeInfo i (f p)) := by
  refine Triple.bind (alloc_filling success nofun) fun p => ?_
  refine writeInfo_filling (fun st hst => ⟨hst.1, hst.1.isRecord hi⟩)
    (fun st l hst hl => hsound _ p l ?_ hl) (fun hlt => hpaths hlt p) (helf p)
  rintro _ ⟨⟩
  exact ⟨_, hst.2.1, trivial⟩

/-- The record of an interpreter is new, and so may get its paths. -/
theorem addInterp_keeps (hi : IsRecord info st₀) (hm : m ≤ st₀.blocks.next) (ofInterp : Bool)
    (file : File) (header : ProgramHeader) :
    KeepsFilling m st₀ (addInterp a ofInterp info file header) := by
  refine Keeps.bind (readInfo_keeps info) fun old => Keeps.ite (fun _ => of_keeps _) fun _ => ?_
  refine Triple.bind (alloc_filling _ fun _ _ h => (Block.info.inj h).2.symm) fun interp => ?_
  rintro st₁ ⟨hst₁, hinterp, hnew⟩
  have hi₁ : IsRecord interp st₁ := ⟨_, _, hinterp⟩
  have hfresh : ¬interp < m := not_lt.mpr (hm.trans hnew)
  have hrest : KeepsFilling m st₁ (do
      writeInfo info fun l => { l with interp := some interp }
      let _ ← alloc (a.gets (.interp ofInterp) 2 1) .buffer
      let userPath ← of (readInterp a.host file header)
      let hostPath ← of ((translateAndCheckExec a.host userPath).result a.host.link a.getcwd)
      let newHostPath ← alloc (a.gets (.interpPaths ofInterp) 2 0) (.path hostPath)
      writeInfo interp fun l => { l with hostPath := some newHostPath }
      let newUserPath ← alloc (a.gets (.interpPaths ofInterp) 2 1) (.path userPath)
      writeInfo interp fun l => { l with userPath := some newUserPath } : Exec Unit) := by
    refine Triple.bind (M := fun _ => Filling m st₁) ?_ fun _ => ?_
    · refine writeInfo_filling (fun st hst => ⟨hst, hst.isRecord (hst₁.isRecord hi)⟩)
        (fun st l hst hl => ?_) (fun _ _ => rfl) fun _ => id
      refine ⟨hl.hostPath, hl.userPath, hl.mappings, ?_⟩
      rintro _ ⟨⟩
      obtain ⟨l', hl', -⟩ := hst.stays.records interp true {} hinterp
      exact ⟨_, hl', rfl⟩
    refine Triple.bind (M := fun _ => Filling m st₁) ?_ fun _ => ?_
    · exact (alloc_filling (b := .buffer) _ nofun).conseq (fun _ h => h) (fun _ _ h => h.1)
        fun _ _ h => h
    refine Keeps.bind (of_keeps _) fun userPath => Keeps.bind (of_keeps _) fun hostPath => ?_
    rw [← Machine.bind_assoc]
    refine Keeps.bind (setPath_filling _ hostPath hi₁ (fun _ _ _ hp hl =>
      ⟨hp, hl.userPath, hl.mappings, hl.interp⟩) (fun hlt => absurd hlt hfresh) fun _ _ => id)
      fun _ => ?_
    exact setPath_filling _ userPath hi₁ (fun _ _ _ hp hl =>
      ⟨hl.hostPath, hp, hl.mappings, hl.interp⟩) (fun hlt => absurd hlt hfresh) fun _ _ => id
  have hback : ∀ st, Filling m st₁ st → Filling m st₀ st := fun st h =>
    ⟨h.sound, hst₁.stays.trans h.stays⟩
  exact (hrest.conseq (fun _ h => h) (fun _ => hback) fun _ => hback) st₁
    ⟨hst₁.sound, Stays.refl m st₁⟩

/-- All program headers from an offset on are read into a record. -/
theorem programHeadersFrom_keeps (hi : IsRecord info st₀) (hm : m ≤ st₀.blocks.next)
    (ofInterp : Bool) (file : File) (elf : ElfHeader) (n i offset : ℕ) :
    KeepsFilling m st₀ (programHeadersFrom a ofInterp info file elf n i offset) := by
  induction n generalizing i offset with
  | zero => exact Keeps.pure _
  | succ n ih =>
    unfold programHeadersFrom
    split
    · exact of_keeps _
    · refine Keeps.ite (fun _ => of_keeps _) fun _ => Keeps.bind ?_ fun _ => ih _ _
      refine Keeps.ite (fun _ => addMapping_keeps a info hi _ _ _ _) fun _ => ?_
      exact Keeps.ite (fun _ => addInterp_keeps a info hi hm _ _ _) fun _ => Keeps.pure _

/-- So are all program headers of a file. -/
theorem iterateProgramHeaders_keeps (hi : IsRecord info st₀) (hm : m ≤ st₀.blocks.next)
    (ofInterp : Bool) (file : File) (elf : ElfHeader) :
    KeepsFilling m st₀ (iterateProgramHeaders a ofInterp info file elf) := by
  refine Keeps.ite (fun _ => of_keeps _) fun _ => Keeps.ite (fun _ => of_keeps _) fun _ => ?_
  split
  · exact of_keeps _
  · refine Keeps.ite (fun _ => ?_) fun _ => programHeadersFrom_keeps a info hi hm _ _ _ _ _ _
    exact Keeps.ite (fun _ => Keeps.pure _) fun _ => of_keeps _

/-- The record of a file that was extracted has its header. -/
def HasHeader (i : ℕ) (st : State) : Prop :=
  ∃ ofInterp l, st.blocks.Holds i (.info ofInterp l) ∧ l.elfHeader.isSome

/-- A record keeps its header while records are filled. -/
theorem Filling.hasHeader (h : Filling m st₀ st) (hi : HasHeader i st₀) : HasHeader i st := by
  obtain ⟨ofInterp, l, hl, hsome⟩ := hi
  obtain ⟨l', hl', -, helf⟩ := h.stays.records i ofInterp l hl
  exact ⟨ofInterp, l', hl', helf hsome⟩

/-- The extraction fills the record with what the file tells. -/
theorem extractLoadInfo_filling (hi : IsRecord info st₀) (hm : m ≤ st₀.blocks.next)
    (ofInterp : Bool) :
    Triple (Filling m st₀) (extractLoadInfo a ofInterp info)
      (fun _ st => Filling m st₀ st ∧ HasHeader info st) fun _ => Filling m st₀ := by
  refine Triple.read_bind fun st hst => ?_
  split
  · refine Triple.fault ?_
    rintro _ rfl
    exact hst
  · refine Triple.bind (M := fun _ => Filling m st₀) ?_ fun ⟨file, elf⟩ => ?_
    · refine (of_keeps (P := Filling m st₀) _).conseq ?_ (fun _ _ h => h) fun _ _ h => h
      rintro _ rfl
      exact hst
    intro st₁ hst₁
    obtain ⟨k, hrecord, hsound⟩ := hst₁.recordSound (hst₁.isRecord hi)
    have hsound' : RecordSound st₁.blocks info { st₁.info info with elfHeader := some elf } :=
      ⟨hsound.hostPath, hsound.userPath, hsound.mappings, hsound.interp⟩
    have hwritten := hst₁.write hrecord hsound' (fun _ => rfl) fun _ => rfl
    dsimp only
    rw [bind_apply_ok (writeInfo_apply _ hrecord)]
    -- The header stays while the rest is extracted.
    generalize hst₂ : ({ st₁ with blocks := _ } : State) = st₂ at hwritten ⊢
    have hheader : HasHeader info st₂ := by
      rw [← hst₂]
      exact ⟨k, _, hrecord.write _, rfl⟩
    have hrest : KeepsFilling m st₂
        (if elf.type = etExec ∨ elf.type = etDyn then iterateProgramHeaders a ofInterp info file elf
        else of (status (-einval)) : Exec Unit) :=
      Keeps.ite (fun _ => iterateProgramHeaders_keeps a info (hwritten.isRecord hi)
        (hm.trans hwritten.stays.next) _ _ _) fun _ => of_keeps _
    have hback : ∀ st, Filling m st₂ st → Filling m st₀ st := fun st h =>
      ⟨h.sound, hwritten.stays.trans h.stays⟩
    exact (hrest.conseq (fun _ h => h) (fun _ st h => ⟨hback st h, h.hasHeader hheader⟩)
      fun _ => hback) st₂ ⟨hwritten.sound, Stays.refl m st₂⟩

/-- So it does for an executable and its interpreter. -/
theorem extractLoadInfos_filling (hi : IsRecord info st₀) (hm : m ≤ st₀.blocks.next) :
    Triple (Filling m st₀) (extractLoadInfos a info)
      (fun _ st => Filling m st₀ st ∧ HasHeader info st) fun _ => Filling m st₀ := by
  refine Triple.bind (extractLoadInfo_filling a info hi hm false) fun _ => ?_
  rintro st ⟨hst, hheader⟩
  obtain ⟨-, -, hsound⟩ := hst.recordSound (hst.isRecord hi)
  rw [bind_apply_ok (readInfo_apply info st)]
  cases hinterp : (st.info info).interp with
  | none => exact Triple.of_ok rfl ⟨hst, hheader⟩
  | some interp =>
    have hrecord : IsRecord interp st := by
      obtain ⟨b, hb, hkind⟩ := hsound.interp interp hinterp
      cases b with
      | info ofInterp l => exact ⟨ofInterp, l, hb⟩
      | _ => cases hkind
    have hrest : KeepsFilling m st (do
        extractLoadInfo a true interp
        let nested ← readInfo interp
        if nested.interp.isSome then of (status (-einval)) else pure () : Exec Unit) := by
      refine Triple.bind (M := fun _ => Filling m st) ?_ fun _ => ?_
      · exact (extractLoadInfo_filling a interp hrecord (hm.trans hst.stays.next) true).conseq
          (fun _ h => h) (fun _ _ h => h.1) fun _ _ h => h
      · exact Keeps.bind (readInfo_keeps interp) fun _ =>
          Keeps.ite (fun _ => of_keeps _) fun _ => Keeps.pure _
    have hback : ∀ st', Filling m st st' → Filling m st₀ st' := fun st' h =>
      ⟨h.sound, hst.stays.trans h.stays⟩
    exact (hrest.conseq (fun _ h => h) (fun _ st' h => ⟨hback st' h, h.hasHeader hheader⟩)
      fun _ => hback) st ⟨hst.sound, Stays.refl m st⟩

end Filling

/-! ## The record of the tracee -/

/-- The memory is sound, and all that is not freed for being load information stays. -/
structure Kept (st st' : State) : Prop where
  sound : Sound st'
  newExe : st'.newExe = st.newExe
  next : st.blocks.next ≤ st'.blocks.next
  freed : ∀ i ∈ st.blocks.freed, i ∈ st'.blocks.freed
  plain : ∀ i b, b.isPlain → st.blocks.Holds i b → st'.blocks.Holds i b

/-- A record of the tracee with its paths. -/
structure HasPaths (info raw : ℕ) (hostPath userPath : Path) (st : State) : Prop where
  loadInfo : st.loadInfo = some info
  record : ∃ l newHostPath newUserPath, st.blocks.Holds info (.info false l) ∧
    l.hostPath = some newHostPath ∧ st.blocks.Holds newHostPath (.path hostPath) ∧
    l.userPath = some newUserPath ∧ st.blocks.Holds newUserPath (.path userPath) ∧
    l.rawPath = some raw

section Record

variable {m : ℕ} {st st₀ st' : State} {info raw : ℕ} {hostPath userPath : Path} (a : Attempt)

/-- All is kept where nothing is done. -/
theorem Kept.refl (h : Sound st) : Kept st st :=
  ⟨h, rfl, le_rfl, fun _ hi => hi, fun _ _ _ hi => hi⟩

/-- What is kept twice is kept. -/
theorem Kept.trans (h : Kept st₀ st) (h' : Kept st st') : Kept st₀ st' :=
  ⟨h'.sound, h'.newExe.trans h.newExe, h.next.trans h'.next,
    fun i hi => h'.freed i (h.freed i hi), fun i b hb hi => h'.plain i b hb (h.plain i b hb hi)⟩

/-- All is kept while records are filled. -/
theorem Filling.kept (h : Filling m st₀ st) : Kept st₀ st :=
  ⟨h.sound, h.stays.newExe, h.stays.next, h.stays.freed, h.stays.plain⟩

/-- The extraction leaves the paths of the record of the tracee. -/
theorem Filling.hasPaths (h : Filling m st₀ st) (hinfo : info < m)
    (hpaths : HasPaths info raw hostPath userPath st₀) :
    HasPaths info raw hostPath userPath st := by
  obtain ⟨hload, l, newHostPath, newUserPath, hl, hhost, hhost', huser, huser', hraw⟩ := hpaths
  obtain ⟨l', hl', hsame, -⟩ := h.stays.records info false l hl
  obtain ⟨hhost'', huser'', hraw''⟩ :
      l'.hostPath = l.hostPath ∧ l'.userPath = l.userPath ∧ l'.rawPath = l.rawPath := by
    simpa [LoadInfo.paths] using hsame hinfo
  exact ⟨h.stays.loadInfo.trans hload, l', newHostPath, newUserPath, hl', hhost''.trans hhost,
    h.stays.plain _ _ trivial hhost', huser''.trans huser, h.stays.plain _ _ trivial huser',
    hraw''.trans hraw⟩

/-- The old record is freed, and the tracee has a new one or none. -/
theorem replaceLoadInfo_kept (h : Sound st) :
    Triple (fun st' => st' = st) (replaceLoadInfo a)
      (fun info st' => Kept st st' ∧ st'.loadInfo = some info ∧
        st'.blocks.Holds info (.info false {}) ∧ st.blocks.next ≤ info)
      fun _ => Kept st := by
  rintro st rfl
  have hfreed : ∃ blocks, replaceLoadInfo a st = (do
        let info ← alloc (a.host.allocates .loadInfo) (.info false {})
        modify fun st => { st with loadInfo := some info }
        pure info : Exec ℕ) { st with blocks := blocks, loadInfo := none } ∧
      Kept st { st with blocks := blocks, loadInfo := none } := by
    unfold replaceLoadInfo
    rw [bind_apply_ok (read_apply st)]
    have hnone : Sound { st with loadInfo := none } := ⟨h.blocks, h.records, Blocks.points_null⟩
    cases hload : st.loadInfo with
    | none => exact ⟨st.blocks, rfl, hnone, rfl, le_rfl, fun _ hi => hi, fun _ _ _ hi => hi⟩
    | some old =>
      obtain ⟨b, hold, hkind⟩ := h.loadInfo old hload
      refine ⟨st.blocks.free old, rfl, ?_, rfl, le_rfl, fun _ hi => List.mem_cons_of_mem _ hi,
        fun i b' hb' hi => ?_⟩
      · cases b with
        | info ofInterp l =>
          obtain rfl : ofInterp = false := hkind
          exact hnone.free hold id nofun nofun nofun
        | _ => cases hkind
      · refine hi.free ?_
        rintro rfl
        rw [hi.unique hold] at hb'
        cases b <;> first | exact absurd hb' id | cases hkind
  obtain ⟨blocks, hrun, hkept⟩ := hfreed
  rw [hrun]
  cases a.host.allocates .loadInfo with
  | false => exact Triple.of_error rfl hkept
  | true =>
    have hnew := Blocks.holds_alloc hkept.sound.blocks (.info false {})
    have hsound := hkept.sound.alloc (b := .info false {}) fun _ _ heq =>
      (Block.info.inj heq).2.symm
    refine Triple.of_ok rfl ⟨⟨⟨hsound.blocks, hsound.records, ?_⟩, rfl,
      hkept.next.trans (Nat.le_succ _), hkept.freed, fun i b hb hi => ?_⟩, rfl, hnew, hkept.next⟩
    · rintro _ ⟨⟩
      exact ⟨_, hnew, rfl⟩
    · exact (hkept.plain i b hb hi).alloc hkept.sound.blocks _

/-- A path is duplicated and set in the record; the paths that are held stay. -/
theorem setPath_record {f : ℕ → LoadInfo → LoadInfo} {l : LoadInfo} (success : Bool) (path : Path)
    (hsound : ∀ (blocks : Blocks Block) p, blocks.Points Block.isPath (some p) →
      RecordSound blocks info l → RecordSound blocks info (f p l))
    (helf : ∀ p, l.elfHeader.isSome → (f p l).elfHeader.isSome) (held : List (ℕ × Path)) :
    Triple (fun st => Filling 0 st₀ st ∧ st.blocks.Holds info (.info false l) ∧
        ∀ x ∈ held, st.blocks.Holds x.1 (.path x.2))
      (do
        let p ← alloc success (.path path)
        writeInfo info (f p))
      (fun _ st => Filling 0 st₀ st ∧ ∃ p, st.blocks.Holds info (.info false (f p l)) ∧
        ∀ x ∈ (p, path) :: held, st.blocks.Holds x.1 (.path x.2))
      fun _ => Filling 0 st₀ := by
  rintro st ⟨hst, hinfo, hheld⟩
  cases success with
  | false => exact Triple.of_error rfl hst
  | true =>
    have hblocks := hst.sound.blocks
    have hinfo' := hinfo.alloc hblocks (.path path)
    have hother : ∀ {i p}, (st.blocks.alloc (.path path)).Holds i (.path p) → i ≠ info := by
      rintro i p hi rfl
      cases hi.unique hinfo'
    rw [bind_apply_ok (show alloc true (.path path) st = (.ok _, _) from rfl)]
    refine Triple.of_ok (writeInfo_apply _ hinfo') ⟨(hst.alloc (b := .path path) nofun).write hinfo'
      (hsound _ _ (Blocks.points_alloc hblocks trivial)
        ((hst.sound.records info false l hinfo.1).alloc hblocks _)) nofun (helf _),
      st.blocks.next, hinfo'.write _, List.forall_mem_cons.mpr ⟨?_, fun x hx => ?_⟩⟩
    · have hnew := Blocks.holds_alloc hblocks (.path path)
      exact hnew.write_other (hother hnew) _
    · have hx' := (hheld x hx).alloc hblocks (.path path)
      exact hx'.write_other (hother hx') _

/-- The paths are duplicated, and the record gets them. -/
theorem setPaths_filling (h : Sound st) (hload : st.loadInfo = some info)
    (hinfo : st.blocks.Holds info (.info false {})) :
    Triple (fun st' => st' = st) (setPaths a info raw hostPath userPath)
      (fun _ st' => Filling 0 st st' ∧ HasPaths info raw hostPath userPath st')
      fun _ => Filling 0 st := by
  refine Triple.conseq (P := fun st' => Filling 0 st st' ∧ st'.blocks.Holds info (.info false {}) ∧
    ∀ x ∈ ([] : List (ℕ × Path)), st'.blocks.Holds x.1 (.path x.2)) ?_ ?_ (fun _ _ h => h)
    fun _ _ h => h
  · unfold setPaths
    rw [← Machine.bind_assoc]
    refine Triple.bind (setPath_record _ hostPath (fun _ _ hp hl =>
      ⟨hp, hl.userPath, hl.mappings, hl.interp⟩) (fun _ => id) []) fun _ => ?_
    rintro st₁ ⟨hst₁, newHostPath, hinfo₁, hheld₁⟩
    rw [← Machine.bind_assoc]
    refine Triple.bind (setPath_record _ userPath (fun _ _ hp hl =>
      ⟨hl.hostPath, hp, hl.mappings, hl.interp⟩) (fun _ => id) [(newHostPath, hostPath)])
      (fun _ => ?_) st₁ ⟨hst₁, hinfo₁, hheld₁⟩
    rintro st₂ ⟨hst₂, newUserPath, hinfo₂, hheld₂⟩
    have hl := hst₂.sound.records info false _ hinfo₂.1
    refine Triple.of_ok (writeInfo_apply _ hinfo₂) ⟨hst₂.write hinfo₂
      ⟨hl.hostPath, hl.userPath, hl.mappings, hl.interp⟩ nofun id, ?_⟩
    simp only [List.forall_mem_cons] at hheld₂
    obtain ⟨huser, hhost, -⟩ := hheld₂
    have hother : ∀ {i p}, st₂.blocks.Holds i (.path p) → i ≠ info := by
      rintro i p hi rfl
      cases hi.unique hinfo₂
    exact ⟨hst₂.stays.loadInfo.trans hload, _, newHostPath, newUserPath, hinfo₂.write _, rfl,
      hhost.write_other (hother hhost) _, rfl, huser.write_other (hother huser) _, rfl⟩
  · rintro st rfl
    exact ⟨⟨h, Stays.refl 0 st⟩, hinfo, nofun⟩

/-- The tracee has a new record with its paths and its header, or the entry fails. -/
theorem fillLoadInfo_kept (h : Sound st) :
    Triple (fun st' => st' = st) (fillLoadInfo a raw hostPath userPath)
      (fun _ st' => Kept st st' ∧ ∃ info, st.blocks.next ≤ info ∧
        HasPaths info raw hostPath userPath st' ∧ HasHeader info st')
      fun _ => Kept st := by
  refine Triple.bind (replaceLoadInfo_kept a h) fun info => ?_
  rintro st₁ ⟨hst₁, hload, hinfo, hnew⟩
  have hback : ∀ {m st'}, Filling m st₁ st' → Kept st st' := fun hst' => hst₁.trans hst'.kept
  refine Triple.bind ((setPaths_filling a hst₁.sound hload hinfo).conseq (fun _ h => h)
    (fun _ _ h => h) fun _ _ => hback) (fun _ => ?_) st₁ rfl
  rintro st₂ ⟨hst₂, hpaths⟩
  obtain ⟨l, -, -, hl, -⟩ := hpaths.record
  have hback' : ∀ {st'}, Filling (info + 1) st₂ st' → Kept st st' := fun hst' =>
    (hback hst₂).trans hst'.kept
  exact ((extractLoadInfos_filling a info ⟨false, l, hl⟩ (hl.lt hst₂.sound.blocks)).conseq
    (fun _ h => h) (fun _ st' hst' => ⟨hback' hst'.1, info, hnew,
      hst'.1.hasPaths (Nat.lt_succ_self _) hpaths, hst'.2⟩) fun _ _ => hback') st₂
    ⟨hst₂.sound, Stays.refl _ st₂⟩

end Record

/-! ## The entry as a whole -/

/-- What the entry finds before it touches the load information: nothing for a notification, and
otherwise the path that was passed, whether it is that of a script, and the paths of what is to be
executed. -/
def Attempt.front (a : Attempt) : Except Stop (Option (Path × Bool × Path × Path)) :=
  if a.loadDone then .ok none
  else do
    let path ← a.sysarg.mapError .status
    if a.host.allocates .rawPath then do
      let found ← (a.shebang path).mapError directoryError
      pure (some (path, found))
    else status (-enomem)

section Entry

variable (a : Attempt) {st st' : State} {frame : ℕ}

/-- The memory in which the load information is replaced. -/
def foundState (frame : ℕ) (path : Path) (hasShebang : Bool) (st : State) : State :=
  { st with
    blocks := if hasShebang then st.blocks.alloc (.rawPath path)
      else (st.blocks.alloc (.rawPath path)).free st.blocks.next
    newExe := some frame }

/-- The entry stops at the first step that fails, and only goes on from what is found. -/
theorem enterWith_cases (frame : ℕ) (st : State) :
    (a.loadDone = true ∧ a.front = .ok none ∧ enterWith a frame st = (.ok (), st)) ∨
    (∃ stop st', a.front = .error stop ∧ enterWith a frame st = (.error stop, st') ∧
      (st' = st ∨ ∃ path, st' = { st with blocks := st.blocks.alloc (.rawPath path) })) ∨
    ∃ path hasShebang hostPath userPath, a.loadDone = false ∧ a.sysarg = .ok path ∧
      a.shebang path = .ok (hasShebang, hostPath, userPath) ∧
      a.front = .ok (some (path, hasShebang, hostPath, userPath)) ∧
      enterWith a frame st =
        fillLoadInfo a st.blocks.next hostPath userPath (foundState frame path hasShebang st) := by
  unfold Attempt.front enterWith
  cases hdone : a.loadDone with
  | true => exact Or.inl ⟨rfl, rfl, rfl⟩
  | false =>
    refine Or.inr ?_
    rw [if_neg Bool.false_ne_true, if_neg Bool.false_ne_true]
    cases hsysarg : a.sysarg with
    | error z => exact Or.inl ⟨_, st, rfl, rfl, Or.inl rfl⟩
    | ok path =>
      have hpath : of (Except.mapError Stop.status (.ok path)) st = (.ok path, st) := rfl
      rw [bind_apply_ok hpath]
      cases hraw : a.host.allocates .rawPath with
      | false => exact Or.inl ⟨_, st, rfl, rfl, Or.inl rfl⟩
      | true =>
        have halloc : alloc true (.rawPath path) st =
            (.ok st.blocks.next, { st with blocks := st.blocks.alloc (.rawPath path) }) := rfl
        rw [bind_apply_ok halloc]
        cases hshebang : a.shebang path with
        | error stop =>
          refine Or.inl ⟨directoryError stop, _, ?_, ?_, Or.inr ⟨path, rfl⟩⟩
          · change (do
              let found ← (a.shebang path).mapError directoryError
              pure (some (path, found)) : Except Stop _) = _
            rw [hshebang]
            rfl
          · rfl
        | ok found =>
          obtain ⟨hasShebang, hostPath, userPath⟩ := found
          refine Or.inr ⟨path, hasShebang, hostPath, userPath, rfl, rfl, hshebang, ?_, ?_⟩
          · change (do
              let found ← (a.shebang path).mapError directoryError
              pure (some (path, found)) : Except Stop _) = _
            rw [hshebang]
            rfl
          · cases hasShebang <;> rfl

/-- The memory in which the load information is replaced is sound, and all that was live stays. -/
theorem foundState_kept (h : Sound st) (path : Path) (hasShebang : Bool) :
    Sound (foundState frame path hasShebang st) ∧
      (∀ i b, st.blocks.Holds i b → (foundState frame path hasShebang st).blocks.Holds i b) ∧
      (hasShebang = true →
        (foundState frame path hasShebang st).blocks.Holds st.blocks.next (.rawPath path)) ∧
      (hasShebang = false →
        st.blocks.next ∈ (foundState frame path hasShebang st).blocks.freed) := by
  have hsound := h.alloc (b := .rawPath path) nofun
  have hnew := Blocks.holds_alloc h.blocks (.rawPath path)
  have hold : ∀ i b, st.blocks.Holds i b → (st.blocks.alloc (.rawPath path)).Holds i b :=
    fun i b hi => hi.alloc h.blocks _
  cases hasShebang with
  | true => exact ⟨⟨hsound.blocks, hsound.records, hsound.loadInfo⟩, hold, fun _ => hnew, nofun⟩
  | false =>
    have hload : st.loadInfo ≠ some st.blocks.next := by
      intro hload
      obtain ⟨b, hb, -⟩ := h.loadInfo _ hload
      exact (hb.lt h.blocks).false
    have hfreed := hsound.free hnew id id hload nofun
    refine ⟨⟨hfreed.blocks, hfreed.records, hfreed.loadInfo⟩, fun i b hi => ?_, nofun,
      fun _ => List.mem_cons_self⟩
    exact (hold i b hi).free (hi.lt h.blocks).ne

/-- The end of a buffer. -/
theorem Kept.endFrame (h : Kept st st') (hframe : st.blocks.Holds frame .buffer) :
    Sound { st' with blocks := st'.blocks.free frame } := by
  have hframe' := h.plain frame .buffer trivial hframe
  refine h.sound.free hframe' id id ?_ nofun
  intro hload
  obtain ⟨b, hb, hkind⟩ := h.sound.loadInfo frame hload
  rw [hb.unique hframe'] at hkind
  exact hkind

/-- The record does not need a buffer. -/
theorem HasPaths.endFrame {info raw : ℕ} {hostPath userPath : Path}
    (h : HasPaths info raw hostPath userPath st) (hframe : st.blocks.Holds frame .buffer) :
    HasPaths info raw hostPath userPath { st with blocks := st.blocks.free frame } := by
  have hother : ∀ {i b}, b ≠ .buffer → st.blocks.Holds i b → (st.blocks.free frame).Holds i b := by
    refine fun hb hi => hi.free ?_
    rintro rfl
    exact hb (hi.unique hframe)
  obtain ⟨hload, l, newHostPath, newUserPath, hl, hhost, hhost', huser, huser', hraw⟩ := h
  exact ⟨hload, l, newHostPath, newUserPath, hother nofun hl, hhost, hother nofun hhost', huser,
    hother nofun huser', hraw⟩

/-- Nor does its header. -/
theorem HasHeader.endFrame {info : ℕ} (h : HasHeader info st)
    (hframe : st.blocks.Holds frame .buffer) :
    HasHeader info { st with blocks := st.blocks.free frame } := by
  obtain ⟨ofInterp, l, hl, hsome⟩ := h
  refine ⟨ofInterp, l, hl.free ?_, hsome⟩
  rintro rfl
  cases hl.unique hframe

/-- A computation with a buffer, whose result is known. -/
theorem inFrame_apply {α : Type} {body : ℕ → Exec α} {result : Except Stop α}
    (h : body st.blocks.next { st with blocks := st.blocks.alloc .buffer } = (result, st')) :
    inFrame body st = (result, { st' with blocks := st'.blocks.free st.blocks.next }) := by
  unfold inFrame
  rw [h]

/-- What an entry leaves that finds something to execute: the pointer to the new executable dangles,
and the one to the path that was passed unless a script is executed. -/
structure Entered (path : Path) (hasShebang : Bool) (hostPath userPath : Path) (st : State)
    (verdict : Except Stop Unit) (st' : State) : Prop where
  newExe : ∃ frame, st'.newExe = some frame ∧ ¬st'.blocks.Live frame
  filled : verdict = .ok () → ∃ info raw, st.blocks.next ≤ info ∧
    HasPaths info raw hostPath userPath st' ∧ HasHeader info st' ∧
    (hasShebang = true → st'.blocks.Holds raw (.rawPath path)) ∧
    (hasShebang = false → ¬st'.blocks.Live raw)

/-- The tracee keeps its pointers. -/
def SamePointers (st st' : State) : Prop := st'.loadInfo = st.loadInfo ∧ st'.newExe = st.newExe

/-- Every entry leaves a sound memory; it leaves the pointers of the tracee alone unless it finds
something to execute. -/
theorem translateExecveEnter_cases (h : Sound st) : ∃ verdict st',
    translateExecveEnter a st = (verdict, st') ∧ Sound st' ∧
      ((a.front = .ok none ∧ verdict = .ok () ∧ SamePointers st st') ∨
      (∃ stop, a.front = .error stop ∧ verdict = .error stop ∧ SamePointers st st') ∨
      ∃ path hasShebang hostPath userPath, a.sysarg = .ok path ∧
        a.shebang path = .ok (hasShebang, hostPath, userPath) ∧
        a.front = .ok (some (path, hasShebang, hostPath, userPath)) ∧
        Entered path hasShebang hostPath userPath st verdict st') := by
  have hsound : Sound { st with blocks := st.blocks.alloc .buffer } := h.alloc nofun
  have hframe : (st.blocks.alloc .buffer).Holds st.blocks.next .buffer :=
    Blocks.holds_alloc h.blocks .buffer
  rcases enterWith_cases a st.blocks.next { st with blocks := st.blocks.alloc .buffer } with
    ⟨-, hfront, hrun⟩ | ⟨stop, st', hfront, hrun, hst'⟩ |
    ⟨path, hasShebang, hostPath, userPath, -, hsysarg, hshebang, hfront, hrun⟩
  · exact ⟨_, _, inFrame_apply hrun, (Kept.refl hsound).endFrame hframe,
      Or.inl ⟨hfront, rfl, rfl, rfl⟩⟩
  · refine ⟨_, _, inFrame_apply hrun, ?_, Or.inr (Or.inl ⟨stop, hfront, rfl, ?_⟩)⟩
    · rcases hst' with rfl | ⟨path, rfl⟩
      · exact (Kept.refl hsound).endFrame hframe
      · exact (Kept.refl (hsound.alloc (b := .rawPath path) nofun)).endFrame
          (hframe.alloc hsound.blocks _)
    · rcases hst' with rfl | ⟨path, rfl⟩ <;> exact ⟨rfl, rfl⟩
  · obtain ⟨hfound, hold, hraw, hfreed⟩ := foundState_kept hsound path hasShebang
    generalize hst₁ : foundState st.blocks.next path hasShebang
      { st with blocks := st.blocks.alloc .buffer } = st₁ at hrun hfound hold hraw hfreed
    have hnewExe : st₁.newExe = some st.blocks.next := by
      rw [← hst₁]
      rfl
    have hnext : st.blocks.next ≤ st₁.blocks.next := ((hold _ _ hframe).lt hfound.blocks).le
    have hframe₁ := hold _ _ hframe
    rcases hfill : fillLoadInfo a (st.blocks.alloc .buffer).next hostPath userPath st₁ with
      ⟨verdict, st'⟩
    rw [hfill] at hrun
    obtain ⟨hok, herror⟩ := (fillLoadInfo_kept a hfound : Triple _
      (fillLoadInfo a (st.blocks.alloc .buffer).next hostPath userPath) _ _) st₁ rfl
    have hkept : Kept st₁ st' := by
      cases verdict with
      | error stop => exact herror stop st' hfill
      | ok => exact (hok _ st' hfill).1
    have hframe' := hkept.plain _ .buffer trivial hframe₁
    refine ⟨verdict, _, inFrame_apply hrun, hkept.endFrame hframe₁, Or.inr (Or.inr
      ⟨path, hasShebang, hostPath, userPath, hsysarg, hshebang, hfront, ?_, ?_⟩)⟩
    · exact ⟨_, hkept.newExe.trans hnewExe, Blocks.not_live_free⟩
    · rintro rfl
      obtain ⟨-, info, hinfo, hpaths, hheader⟩ := hok _ st' hfill
      refine ⟨info, _, hnext.trans hinfo, hpaths.endFrame hframe', hheader.endFrame hframe',
        fun hscript => ?_, fun hplain => ?_⟩
      · refine (hkept.plain _ (.rawPath path) trivial (hraw hscript)).free ?_
        exact (Nat.lt_succ_self _).ne'
      · rintro ⟨b, hb⟩
        exact hb.2 (List.mem_cons_of_mem _ (hkept.freed _ (hfreed hplain)))

end Entry

/-! ## The chain of interpreters -/

/-- The path for the host of a path of the tracee that can be executed. -/
def Attempt.translates (a : Attempt) (userPath hostPath : Path) : Prop :=
  (translateAndCheckExec a.host userPath).result a.host.link a.getcwd = .ok hostPath

/-- The last element of the chain of interpreters of a path, with its path for the host. -/
inductive Attempt.Expands (a : Attempt) : Path → Path → Path → Prop
  | last {path hostPath : Path} (translates : a.translates path hostPath)
      (extracts : extractShebang a.host hostPath = .ok none) : a.Expands path path hostPath
  | script {path scriptPath interp userPath hostPath : Path}
      (translates : a.translates path scriptPath)
      (extracts : extractShebang a.host scriptPath = .ok (some interp))
      (expands : a.Expands interp userPath hostPath) : a.Expands path userPath hostPath

/-- The last element of the chain has been translated. -/
theorem Attempt.Expands.translated {a : Attempt} {path userPath hostPath : Path}
    (h : a.Expands path userPath hostPath) : a.translates userPath hostPath := by
  induction h with
  | last htranslates _ => exact htranslates
  | script _ _ _ ih => exact ih

/-- The result of a sequence. -/
theorem result_bind_ok {α β : Type} {x : Front α} {f : α → Front β} {link : ℤ → Option Path}
    {getcwd : Getcwd} {b : β} (h : (x >>= f).result link getcwd = .ok b) :
    ∃ c, x.result link getcwd = .ok c ∧ (f c).result link getcwd = .ok b := by
  rw [Front.result, Inquiry.run_bind] at h
  cases hx : x.run (translatePath link getcwd atFdcwd) with
  | error stop =>
    rw [hx] at h
    cases h
  | ok c =>
    rw [hx] at h
    exact ⟨c, hx, h⟩

/-- Scripts are replaced by their interpreters up to the last one. -/
theorem expandShebangFrom_expands (a : Attempt) {levels i : ℕ} {path hostPath userPath : Path}
    {hasShebang found : Bool}
    (h : (expandShebangFrom a.host levels i path hasShebang).result a.host.link a.getcwd =
      .ok (found, hostPath, userPath)) : a.Expands path userPath hostPath := by
  induction levels generalizing i path hasShebang with
  | zero => cases h
  | succ levels ih =>
    unfold expandShebangFrom at h
    obtain ⟨scriptPath, htranslates, h⟩ := result_bind_ok h
    split at h
    · cases h
    · obtain ⟨extracted, hextracts, h⟩ := result_bind_ok h
      cases extracted with
      | none =>
        obtain ⟨-, rfl, rfl⟩ := Prod.mk.inj (Except.ok.inj h) |>.imp id Prod.mk.inj
        exact .last htranslates hextracts
      | some interp =>
        obtain ⟨_, -, h⟩ := result_bind_ok h
        exact .script htranslates hextracts (ih h)

/-! ## The load information over a run -/

section Runs

variable (a : Attempt)

/-- A pointer is null or live. -/
def State.NullOrLive (st : State) (p : Option ℕ) : Prop := ∀ i, p = some i → st.blocks.Live i

/-- The pointers of the tracee and of its load information are null or live, and nothing was freed
twice. -/
structure PointersLive (st : State) : Prop where
  loadInfo : st.NullOrLive st.loadInfo
  newExe : st.NullOrLive st.newExe
  fields : ∀ i, st.loadInfo = some i → ∀ p ∈ [(st.info i).rawPath, (st.info i).userPath,
    (st.info i).hostPath, (st.info i).interp, (st.info i).mappings], st.NullOrLive p
  once : st.blocks.freed.Nodup

/-- The load information has the path that was passed, the last element of the chain of interpreters,
and its path for the host. -/
def Filled (st : State) : Prop :=
  ∃ path userPath hostPath info raw, a.sysarg = .ok path ∧ a.Expands path userPath hostPath ∧
    HasPaths info raw hostPath userPath st ∧ st.blocks.Holds raw (.rawPath path)

/-- The exit reads no record, or one that is live and that the entry has allocated and filled. -/
def ReadsFilled (st st' : State) : Prop :=
  (translateExecveExit a st').1 = .ok none ∨
    ∃ info, (translateExecveExit a st').1 = .ok (some info) ∧ st'.blocks.Live info ∧
      st.blocks.next ≤ info ∧ HasHeader info st'

/-- An entry from one state to another is as it should be. -/
structure AttemptSound (st : State) (verdict : Except Stop Unit) (st' : State) : Prop where
  returns : ∀ stop, verdict = .error stop → ∃ z, stop = .status z
  pointers : PointersLive st'
  filled : verdict = .ok () → a.loadDone = false → Filled a st'
  reads : verdict = .ok () → ReadsFilled a st st'

/-- All attempts of a tracee to execute something are as they should be. -/
def KeepsLoadInfo : List Attempt → State → Prop
  | [], _ => True
  | a :: rest, st =>
    AttemptSound a st (translateExecveEnter a st).1 (translateExecveEnter a st).2 ∧
      KeepsLoadInfo rest (translateExecveEnter a st).2

/-- An attempt fails before something to execute is found, or is a notification at its entry and, on
the 64-bit processor, still at its exit. -/
def Attempt.Harmless (a : Attempt) : Prop :=
  match a.front with
  | .ok none => a.leftDone = true ∨ a.host.cpu = .armEabi
  | .error (.status _) => True
  | _ => False

/-- A tracee without load information. -/
structure Untouched (st : State) : Prop where
  sound : Sound st
  loadInfo : st.loadInfo = none
  newExe : st.newExe = none

variable {a} {st : State}

/-- A tracee without load information has no pointer that could dangle. -/
theorem Untouched.pointersLive (h : Untouched st) : PointersLive st := by
  refine ⟨?_, ?_, ?_, h.sound.blocks.once⟩
  · rw [h.loadInfo]
    nofun
  · rw [h.newExe]
    nofun
  · rw [h.loadInfo]
    nofun

/-- Only a notification finds nothing. -/
theorem Attempt.loadDone_of_front (h : a.front = .ok none) : a.loadDone = true := by
  rcases enterWith_cases a 0 .initial with ⟨hdone, -⟩ | ⟨_, _, hfront, -⟩ |
    ⟨_, _, _, _, -, -, -, hfront, -⟩
  · exact hdone
  · rw [h] at hfront
    cases hfront
  · rw [h] at hfront
    cases hfront

/-- Without load information the exit of a notification reads nothing exactly if it is one still. -/
theorem readsFilled_none_iff {st' : State} (h : st'.loadInfo = none) :
    ReadsFilled a st st' ↔ a.leftDone = true ∨ a.host.cpu = .armEabi := by
  unfold ReadsFilled translateExecveExit
  cases a.leftDone with
  | true => exact iff_of_true (Or.inl rfl) (Or.inl rfl)
  | false =>
    rw [if_neg Bool.false_ne_true]
    cases a.host.cpu with
    | armEabi => exact iff_of_true (Or.inl rfl) (Or.inr rfl)
    | arm64 =>
      dsimp only
      rw [bind_apply_ok (read_apply st'), h]
      refine iff_of_false ?_ (by simp)
      rintro (hnone | ⟨info, hsome, -⟩)
      · cases hnone
      · cases hsome

/-- An entry that finds something to execute and succeeds has filled what its exit reads. -/
theorem Entered.readsFilled {path hostPath userPath : Path} {hasShebang : Bool} {st' : State}
    (h : Entered path hasShebang hostPath userPath st (.ok ()) st') : ReadsFilled a st st' := by
  obtain ⟨info, raw, hnew, ⟨hload, l, _, _, hl, -⟩, hheader, -⟩ := h.filled rfl
  unfold ReadsFilled translateExecveExit
  cases a.leftDone with
  | true => exact Or.inl rfl
  | false =>
    rw [if_neg Bool.false_ne_true]
    cases a.host.cpu with
    | armEabi => exact Or.inl rfl
    | arm64 =>
      dsimp only
      rw [bind_apply_ok (read_apply st'), hload]
      exact Or.inr ⟨info, rfl, ⟨_, hl⟩, hnew, hheader⟩

/-- An entry that succeeds has filled the record that its exit reads, with the paths of the last
element of the chain of interpreters. -/
theorem translateExecveEnter_filled (hst : Sound st) (hdone : a.loadDone = false)
    (hverdict : (translateExecveEnter a st).1 = .ok ()) :
    ReadsFilled a st (translateExecveEnter a st).2 ∧
      ∃ path userPath hostPath info raw, a.sysarg = .ok path ∧ a.Expands path userPath hostPath ∧
        HasPaths info raw hostPath userPath (translateExecveEnter a st).2 := by
  obtain ⟨verdict, st', hrun, -, hcases⟩ := translateExecveEnter_cases a hst
  rw [hrun] at hverdict ⊢
  obtain rfl : verdict = .ok () := hverdict
  rcases hcases with ⟨hfront, -⟩ | ⟨_, -, herror, -⟩ |
    ⟨path, hasShebang, hostPath, userPath, hsysarg, hshebang, -, hentered⟩
  · rw [Attempt.loadDone_of_front hfront] at hdone
    cases hdone
  · cases herror
  · obtain ⟨info, raw, -, hpaths, -⟩ := hentered.filled rfl
    exact ⟨hentered.readsFilled, path, userPath, hostPath, info, raw, hsysarg,
      expandShebangFrom_expands a hshebang, hpaths⟩

/-- A harmless attempt is as it should be, and leaves the tracee without load information. -/
theorem Attempt.Harmless.attemptSound (h : a.Harmless) (hst : Untouched st) :
    AttemptSound a st (translateExecveEnter a st).1 (translateExecveEnter a st).2 ∧
      Untouched (translateExecveEnter a st).2 := by
  obtain ⟨verdict, st', hrun, hsound, hcases⟩ := translateExecveEnter_cases a hst.sound
  rw [hrun]
  have huntouched : SamePointers st st' → Untouched st' := fun hsame =>
    ⟨hsound, hsame.1.trans hst.loadInfo, hsame.2.trans hst.newExe⟩
  unfold Attempt.Harmless at h
  rcases hcases with ⟨hfront, rfl, hsame⟩ | ⟨stop, hfront, rfl, hsame⟩ | ⟨_, _, _, _, -, -, hfront, -⟩
  · rw [hfront] at h
    have hnone := huntouched hsame
    refine ⟨⟨nofun, hnone.pointersLive, fun _ hnot => ?_, fun _ =>
      (readsFilled_none_iff hnone.loadInfo).mpr h⟩, hnone⟩
    rw [Attempt.loadDone_of_front hfront] at hnot
    cases hnot
  · rw [hfront] at h
    refine ⟨⟨fun stop' hstop => ?_, (huntouched hsame).pointersLive, nofun, nofun⟩,
      huntouched hsame⟩
    obtain rfl := Except.error.inj hstop
    cases stop with
    | status z => exact ⟨z, rfl⟩
    | assertion => exact h.elim
    | nullPointer => exact h.elim
  · rw [hfront] at h
    exact h.elim

/-- Every other attempt is not. -/
theorem AttemptSound.harmless (hst : Untouched st)
    (h : AttemptSound a st (translateExecveEnter a st).1 (translateExecveEnter a st).2) :
    a.Harmless := by
  obtain ⟨verdict, st', hrun, -, hcases⟩ := translateExecveEnter_cases a hst.sound
  rw [hrun] at h
  unfold Attempt.Harmless
  rcases hcases with ⟨hfront, rfl, hsame⟩ | ⟨stop, hfront, rfl, -⟩ |
    ⟨_, _, _, _, -, -, hfront, hentered⟩
  · rw [hfront]
    exact (readsFilled_none_iff (hsame.1.trans hst.loadInfo)).mp (h.reads rfl)
  · rw [hfront]
    obtain ⟨z, rfl⟩ := h.returns stop rfl
    trivial
  · obtain ⟨frame, hframe, hdead⟩ := hentered.newExe
    exact absurd (h.pointers.newExe frame hframe) hdead

/-- The memory after some attempts. -/
def runAttempts (attempts : List Attempt) (st : State) : State :=
  attempts.foldl (fun st a => (translateExecveEnter a st).2) st

/-- Whatever is attempted, nothing is freed twice, the load information of the tracee is null or live,
and so are all its pointers but that to the path that was passed. -/
theorem runAttempts_sound (attempts : List Attempt) {st : State} (h : Sound st) :
    Sound (runAttempts attempts st) := by
  induction attempts generalizing st with
  | nil => exact h
  | cons a rest ih =>
    obtain ⟨verdict, st', hrun, hsound, -⟩ := translateExecveEnter_cases a h
    rw [runAttempts, List.foldl_cons, hrun]
    exact ih hsound

/-- The attempts of a tracee without load information are as they should be exactly if all of them
are harmless. -/
theorem keepsLoadInfo_iff_of_untouched (attempts : List Attempt) (hst : Untouched st) :
    KeepsLoadInfo attempts st ↔ ∀ a ∈ attempts, a.Harmless := by
  induction attempts generalizing st with
  | nil => exact iff_of_true trivial nofun
  | cons a rest ih =>
    rw [KeepsLoadInfo, List.forall_mem_cons]
    constructor
    · rintro ⟨hfirst, hrest⟩
      have hharmless := hfirst.harmless hst
      exact ⟨hharmless, (ih (hharmless.attemptSound hst).2).mp hrest⟩
    · rintro ⟨hharmless, hrest⟩
      obtain ⟨hfirst, huntouched⟩ := hharmless.attemptSound hst
      exact ⟨hfirst, (ih huntouched).mpr hrest⟩

/-- In a run of attempts to execute something, the pointers of the tracee are null or live, what
they point to is as it should be and the exit only reads what the entry has filled, if and only if
no attempt finds something to execute and every notification at an entry still is one at its exit.
-/
theorem keepsLoadInfo_iff (attempts : List Attempt) :
    KeepsLoadInfo attempts .initial ↔ ∀ a ∈ attempts, a.Harmless :=
  keepsLoadInfo_iff_of_untouched attempts ⟨sound_initial, rfl, rfl⟩

end Runs

/-- An ELF file without program headers. -/
def emptyElf : List Byte :=
  [0x7f, 69, 76, 70, 2] ++ List.replicate 11 0 ++ [2, 0] ++ List.replicate 36 0 ++ [56, 0] ++
    List.replicate 8 0

/-- A tracee executes it. -/
def plainAttempt : Attempt where
  host := { oneExecutable with
    openFile := fun _ => .ok ⟨fun offset size => .ok ((emptyElf.drop offset).take size), .ok⟩ }
  failing _ := 0
  getcwd := .ok [slash]
  pageSize := 4096
  loadDone := false
  leftDone := false
  sysarg := .ok [47, 98, 47, 120]

/-- The entry succeeds, and the tracee is left with a pointer to a buffer that does not live any
more. -/
theorem plainAttempt_dangles : (translateExecveEnter plainAttempt .initial).1 = .ok () ∧
    ¬KeepsLoadInfo [plainAttempt] .initial := by
  refine ⟨rfl, fun hkeeps => ?_⟩
  have hharmless := hkeeps.1.harmless ⟨sound_initial, rfl, rfl⟩
  have hfront : plainAttempt.front =
      .ok (some ([47, 98, 47, 120], false, [47, 98, 47, 120], [47, 98, 47, 120])) := by rfl
  rw [Attempt.Harmless, hfront] at hharmless
  exact hharmless

end Abyss.Execve.Memory
