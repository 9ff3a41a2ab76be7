import Abyss.Execve.ProgramHeaders
import Abyss.Execve.SegmentLoad
import Abyss.Library.Outcome
import Abyss.Loader.Script
import Mathlib.Data.List.Forall2
import Mathlib.Data.List.TakeWhile

/-!
# The load information of an executable

The entry of an `execve` reads the program headers of the executable, and those of its interpreter.
Each segment becomes mappings, and the flags of the stack are gathered. A file that can be loaded
anywhere is given an address if its first segment is at zero: the address of each of its mappings is
moved, and so is the entry point. The addresses are computed with `USE_LOADER_EXE`, for which the
loader is run in place of the executable.

The load information of a file that was extracted has the mappings of exactly the segments that are
stored in the file, in order, each one moved by the same distance.
-/

namespace Abyss.Execve

open Bytes Loader Outcome Pages

/-! ## The fields of a file -/

/-- `PT_GNU_STACK`. -/
def ptGnuStack : ℕ := 0x6474e551

/-- The processor that the files of a class are for. -/
def classCpu (isClass64 : Bool) : Cpu := if isClass64 then .arm64 else .armEabi

/-- The fields of a program header of type `PT_LOAD`. -/
def Segment.ofBytes : (program : Cpu) → List Byte → Segment program
  | .arm64, header =>
    { offset := BitVec.ofNat 64 (field header 8 8)
      vaddr := BitVec.ofNat 64 (field header 16 8)
      filesz := BitVec.ofNat 64 (field header 32 8)
      memsz := BitVec.ofNat 64 (field header 40 8)
      flags := BitVec.ofNat 32 (field header 4 4) }
  | .armEabi, header =>
    { offset := BitVec.ofNat 32 (field header 4 4)
      vaddr := BitVec.ofNat 32 (field header 8 4)
      filesz := BitVec.ofNat 32 (field header 16 4)
      memsz := BitVec.ofNat 32 (field header 20 4)
      flags := BitVec.ofNat 32 (field header 24 4) }

/-- The flags of a program header. -/
def headerFlags (isClass64 : Bool) (header : List Byte) : BitVec 32 :=
  BitVec.ofNat 32 (field header (if isClass64 then 4 else 24) 4)

/-- The entry point that an ELF header tells. -/
def entryOf (program : Cpu) (header : List Byte) : program.Word :=
  BitVec.ofNat _ (field header 24 program.wordBytes)

/-- The first bytes of a file, as `open_elf` has read them. -/
def File.start (file : File) : List Byte :=
  match file.pread 0 sizeofElfHeader with
  | .ok bytes => bytes
  | .error _ => []

/-- The ELF header of a file. -/
def elfHeaderOf (content : List Byte) : ElfHeader := .ofBytes (content.take sizeofElfHeader)

/-- The segments that program headers tell. -/
def segmentsOf (program : Cpu) (isClass64 : Bool) (headers : List (List Byte)) :
    List (Segment program) :=
  headers.filterMap fun header =>
    if (ProgramHeader.ofBytes isClass64 header).type = ptLoad then
      some (Segment.ofBytes program header)
    else none

/-- The segments that are stored in a file. -/
def loadSegments (program : Cpu) (content : List Byte) : List (Segment program) :=
  let elf := elfHeaderOf content
  segmentsOf program elf.isClass64
    ((storedHeaders content elf.phentsize elf.phnum elf.phoff).getD [])

/-! ## The entry -/

/-- What the program headers tell of a file: its mappings, the paths of its interpreter for the
tracee and for the host, and whether the stack must be executable. -/
structure FileLoad (cpu : Cpu) where
  mappings : Option (List (Mapping cpu)) := none
  interp : Option (Path × Path) := none
  needsExecutableStack : Bool := false

/-- What is known of a file after its extraction. -/
structure FileRecord (cpu : Cpu) where
  elf : ElfHeader
  entry : cpu.Word
  load : FileLoad cpu

/-- A callback that may stop, with a status that is not zero or without returning. -/
def asCallback {σ : Type} (f : ElfHeader → List Byte → σ → Except Stop σ) :
    ElfHeader → List Byte → Except Stop σ → ℤ × Except Stop σ
  | _, _, .error stop => (-1, .error stop)
  | elf, header, .ok data =>
    match f elf header data with
    | .error stop => (-1, .error stop)
    | .ok data => (0, .ok data)

/-- What an iteration over the program headers makes of the data. -/
def iterateHeaders {σ : Type} (f : ElfHeader → List Byte → σ → Except Stop σ) (file : File)
    (elf : ElfHeader) (errno : ℤ) (data : σ) : Except Stop σ := do
  let iteration := iterateWith (asCallback f) file elf errno (.ok data)
  let data ← iteration.data
  if iteration.status ≠ 0 then status iteration.status else .ok data

section Entry

variable (h : Host) (getcwd : Getcwd) (sysconf : h.cpu.Word) (allocates : Bool → ℕ → Bool)
  (ofInterp : Bool)

/-- `add_load_info`; `allocates` tells whether there is memory for a number of mappings. -/
def addLoadSegment (file : File) (elf : ElfHeader) (header : List Byte) (load : FileLoad h.cpu) :
    Except Stop (FileLoad h.cpu) :=
  let programHeader := ProgramHeader.ofBytes elf.isClass64 header
  if programHeader.type = ptLoad then do
    let mappings ← addMapping sysconf (allocates ofInterp) load.mappings
      (Segment.ofBytes (classCpu elf.isClass64) header)
    .ok { load with mappings := some mappings }
  else if programHeader.type = ptInterp then do
    let hostPath ← (addInterp h ofInterp file programHeader (load.interp.map Prod.snd)).result h.link
      getcwd
    let userPath ← readInterp h file programHeader
    .ok { load with interp := hostPath.map (userPath, ·) }
  else if programHeader.type = ptGnuStack then
    .ok { load with
      needsExecutableStack :=
        load.needsExecutableStack || headerFlags elf.isClass64 header &&& 1 ≠ 0 }
  else .ok load

/-- `extract_load_info`. -/
def extractFile (hostPath : Path) : Except Stop (FileRecord h.cpu) := do
  let (file, elf) ← openElf h hostPath
  if elf.type = etExec ∨ elf.type = etDyn then do
    let load ← iterateHeaders (addLoadSegment h getcwd sysconf allocates ofInterp file) file elf
      h.errno {}
    .ok ⟨elf, (entryOf (classCpu elf.isClass64) file.start).setWidth _, load⟩
  else status (-einval)

/-- Extract the executable and its interpreter, with the path of the latter for the tracee. -/
def extractFiles (hostPath : Path) :
    Except Stop (FileRecord h.cpu × Option (Path × FileRecord h.cpu)) := do
  let program ← extractFile h getcwd sysconf allocates false hostPath
  match program.load.interp with
  | none => .ok (program, none)
  | some (userPath, interpPath) => do
    let interp ← extractFile h getcwd sysconf allocates true interpPath
    -- An ELF interpreter is supposed to be standalone.
    if interp.load.interp.isSome then status (-einval) else .ok (program, some (userPath, interp))

end Entry

/-! ## Load addresses -/

section Addresses

variable {cpu : Cpu}

/-- `EXEC_PIC_ADDRESS`; there is no other one for the half words of `arm64`. -/
def execPicAddress : (cpu : Cpu) → cpu.Word
  | .armEabi => (0x0f000000 : BitVec 32)
  | .arm64 => (0x3000000000 : BitVec 64)

/-- `INTERP_PIC_ADDRESS`. -/
def interpPicAddress : (cpu : Cpu) → cpu.Word
  | .armEabi => (0x1f000000 : BitVec 32)
  | .arm64 => (0x3f00000000 : BitVec 64)

/-- A mapping at another address. -/
def Mapping.move (loadBase : cpu.Word) (m : Mapping cpu) : Mapping cpu :=
  { m with addr := m.addr + loadBase }

/-- A string up to its terminator. -/
def textOf (path : Path) : Text :=
  ⟨path.takeWhile (· ≠ 0), fun h => by simpa using List.mem_takeWhile_imp h⟩

/-- The fields of a record that the script is made of. -/
def FileRecord.info (userPath : Text) (record : FileRecord cpu) : FileInfo cpu where
  userPath
  mappings := record.load.mappings
  entry := record.entry
  phoff := BitVec.ofNat _ record.elf.phoff
  phentsize := BitVec.ofNat _ record.elf.phentsize
  phnum := BitVec.ofNat _ record.elf.phnum
  needsExecutableStack := record.load.needsExecutableStack

/-- The load information of the tracee. -/
def loadInfoOf (userPath : Text) (rawPath : Option Text)
    (files : FileRecord cpu × Option (Path × FileRecord cpu)) : Loader.LoadInfo cpu where
  program := files.1.info userPath
  interp := files.2.map fun interp => interp.2.info (textOf interp.1)
  rawPath

end Addresses

/-! ## The headers that are read -/

section Iterate

variable {σ : Type} {file : File} {elf : ElfHeader}

end Iterate

/-! ## The mappings of a file -/

section Mappings

variable {h : Host} {getcwd : Getcwd} {allocates : Bool → ℕ → Bool} {ofInterp : Bool} {file : File}
  {elf : ElfHeader} {program : Cpu} {k : ℕ}

/-- The mappings are those of some segments, in order. -/
def AddedAll {cpu : Cpu} (k : ℕ) (segments : List (Segment program)) (mappings : List (Mapping cpu)) :
    Prop :=
  ∃ parts, List.Forall₂ (IsAdded k) segments parts ∧ mappings = parts.flatten

/-- The mappings of two lists of segments, one after the other. -/
theorem AddedAll.append {cpu : Cpu} {segments segments' : List (Segment program)}
    {mappings mappings' : List (Mapping cpu)} (h₁ : AddedAll k segments mappings)
    (h₂ : AddedAll k segments' mappings') :
    AddedAll k (segments ++ segments') (mappings ++ mappings') := by
  obtain ⟨parts, hparts, rfl⟩ := h₁
  obtain ⟨parts', hparts', rfl⟩ := h₂
  exact ⟨parts ++ parts', List.rel_append hparts hparts', List.flatten_append.symm⟩

end Mappings

/-! ## Moved segments -/

/-- A segment at another address. -/
def Segment.move {program : Cpu} (bias : program.Word) (segment : Segment program) :
    Segment program :=
  { segment with vaddr := segment.vaddr + bias }

/-- Where a file is loaded: at the address for files that can be loaded anywhere, if it is one and
its first segment is in the first page. -/
def loadBias {program : Cpu} (k : ℕ) (picAddress : program.Word) (content : List Byte) :
    program.Word :=
  if (elfHeaderOf content).type = etDyn ∧
      ((loadSegments program content).head?.any fun first => first.vaddr.toNat < 2 ^ k) = true then
    picAddress
  else 0

/-- The segment can be mapped by pages, and its addresses do not overflow when it is moved. -/
structure FitsAt {program : Cpu} (k : ℕ) (bias : program.Word) (segment : Segment program) :
    Prop where
  congruent : segment.vaddr.toNat % 2 ^ k = segment.offset.toNat % 2 ^ k
  filesz_le : segment.filesz.toNat ≤ segment.memsz.toNat
  fits : segment.vaddr.toNat + bias.toNat + segment.memsz.toNat + 2 ^ k < 2 ^ program.wordBits

/-- The size of a page, and the words of a program for a tracer. -/
structure PageSize (cpu program : Cpu) (k : ℕ) : Prop where
  program_le : program.wordBits ≤ cpu.wordBits
  page_ge : 12 ≤ k
  page_le : k ≤ 24

section Move

variable {cpu program : Cpu} {k : ℕ} {bias : program.Word} {segment : Segment program}

/-- The address of a segment that fits moves by the whole distance. -/
theorem FitsAt.vaddr_move (h : FitsAt k bias segment) :
    (segment.move bias).vaddr.toNat = segment.vaddr.toNat + bias.toNat := by
  have hfits := h.fits
  have hpos := Nat.two_pow_pos k
  rw [Segment.move, BitVec.toNat_add, Nat.mod_eq_of_lt (by omega)]

/-- A segment that fits is placed where it is. -/
theorem FitsAt.placed (h : FitsAt k bias segment) (hpage : PageSize cpu program k) :
    Placed cpu k segment where
  program_le := hpage.program_le
  page_ge := hpage.page_ge
  page_le := Nat.le_trans hpage.page_le (by decide)
  congruent := h.congruent
  filesz_le := h.filesz_le
  fits := by
    have hfits := h.fits
    omega

/-- It is placed where it is moved to, too. -/
theorem FitsAt.placed_move (h : FitsAt k bias segment) (hpage : PageSize cpu program k)
    (hbias : 2 ^ k ∣ bias.toNat) : Placed cpu k (segment.move bias) where
  program_le := hpage.program_le
  page_ge := hpage.page_ge
  page_le := Nat.le_trans hpage.page_le (by decide)
  congruent := by
    rw [h.vaddr_move, Nat.add_mod, Nat.mod_eq_zero_of_dvd hbias, Nat.add_zero, Nat.mod_mod]
    exact h.congruent
  filesz_le := h.filesz_le
  fits := by
    rw [h.vaddr_move]
    exact h.fits

/-- The ends of a segment move with it. -/
theorem FitsAt.fileEnd_move (h : FitsAt k bias segment) (hbias : 2 ^ k ∣ bias.toNat) :
    fileEnd k (segment.move bias) = fileEnd k segment + bias.toNat := by
  rw [fileEnd, h.vaddr_move, Nat.add_right_comm]
  change base (2 ^ k) (segment.vaddr.toNat + segment.filesz.toNat + bias.toNat) + _ = _
  rw [base_add_of_dvd (Nat.two_pow_pos k) hbias, Nat.add_right_comm]
  rfl

/-- So does the end of its memory. -/
theorem FitsAt.memEnd_move (h : FitsAt k bias segment) (hbias : 2 ^ k ∣ bias.toNat) :
    memEnd k (segment.move bias) = memEnd k segment + bias.toNat := by
  rw [memEnd, h.vaddr_move, Nat.add_right_comm]
  change base (2 ^ k) (segment.vaddr.toNat + segment.memsz.toNat + bias.toNat) + _ = _
  rw [base_add_of_dvd (Nat.two_pow_pos k) hbias, Nat.add_right_comm]
  rfl

/-- An address that does not overflow in the words of the program does not in those of the
tracer. -/
theorem toNat_move {m : Mapping cpu} (hle : program.wordBits ≤ cpu.wordBits)
    (hfits : m.addr.toNat + bias.toNat < 2 ^ program.wordBits) :
    (m.move (bias.setWidth _)).addr.toNat = m.addr.toNat + bias.toNat := by
  have hpow : 2 ^ program.wordBits ≤ 2 ^ cpu.wordBits := Nat.pow_le_pow_right (by decide) hle
  rw [Mapping.move, BitVec.toNat_add, BitVec.toNat_setWidth, Nat.add_mod_mod,
    Nat.mod_eq_of_lt (by omega)]

/-- The mappings of a segment move with it. -/
theorem FitsAt.isAdded_move (h : FitsAt k bias segment) (hpage : PageSize cpu program k)
    (hbias : 2 ^ k ∣ bias.toNat) {added : List (Mapping cpu)} (hadded : IsAdded k segment added) :
    IsAdded k (segment.move bias) (added.map (Mapping.move (bias.setWidth _))) := by
  have hfits := h.fits
  obtain ⟨hbase, -, -, -, hmemMax, hle⟩ := (h.placed hpage).ends
  have hvaddr := h.vaddr_move
  have hfileEnd := h.fileEnd_move hbias
  have hmemEnd := h.memEnd_move hbias
  have hpages := base_add_of_dvd (Nat.two_pow_pos k) hbias segment.vaddr.toNat
  obtain ⟨file, hfile, hadded⟩ := hadded
  have hfile' : IsFileMapping k (segment.move bias) (file.move (bias.setWidth _)) := by
    constructor
    · rw [toNat_move hpage.program_le (by rw [hfile.addr_eq]; omega), hfile.addr_eq, hvaddr, hpages]
    · rw [hvaddr, hpages, hfileEnd, Nat.add_sub_add_right]
      exact hfile.length_eq
    · exact hfile.offset_eq
    · exact hfile.prot_eq
    · exact hfile.flags_eq
    · rw [hfileEnd, hvaddr, Nat.add_right_comm]
      change file.clearLength.toNat = if segment.filesz.toNat < segment.memsz.toNat then
        fileEnd k segment + bias.toNat - (segment.vaddr.toNat + segment.filesz.toNat + bias.toNat)
          else 0
      rw [Nat.add_sub_add_right]
      exact hfile.clearLength_eq
  refine ⟨_, hfile', ?_⟩
  rw [hfileEnd, hmemEnd]
  have hboth : (segment.move bias).filesz.toNat < (segment.move bias).memsz.toNat ∧
      fileEnd k segment + bias.toNat < memEnd k segment + bias.toNat ↔
        segment.filesz.toNat < segment.memsz.toNat ∧ fileEnd k segment < memEnd k segment :=
    and_congr Iff.rfl (Nat.add_lt_add_iff_right)
  simp only [hboth]
  split at hadded
  · rename_i hextra
    obtain ⟨anonymous, hanonymous, rfl⟩ := hadded
    rw [if_pos hextra]
    refine ⟨anonymous.move (bias.setWidth _), ?_, rfl⟩
    constructor
    · rw [toNat_move hpage.program_le (by rw [hanonymous.addr_eq]; omega), hanonymous.addr_eq,
        hfileEnd]
    · rw [hfileEnd, hmemEnd, Nat.add_sub_add_right]
      exact hanonymous.length_eq
    · exact hanonymous.prot_eq
    · exact hanonymous.flags_eq
  · rename_i hextra
    subst hadded
    rw [if_neg hextra]
    rfl

/-- The mappings of all segments move with them. -/
theorem AddedAll.move {segments : List (Segment program)} {mappings : List (Mapping cpu)}
    (hadded : AddedAll k segments mappings) (hpage : PageSize cpu program k)
    (hbias : 2 ^ k ∣ bias.toNat) (hfits : ∀ segment ∈ segments, FitsAt k bias segment) :
    AddedAll k (segments.map (Segment.move bias)) (mappings.map (Mapping.move (bias.setWidth _))) := by
  obtain ⟨parts, hparts, rfl⟩ := hadded
  refine ⟨parts.map (List.map (Mapping.move (bias.setWidth _))), ?_, List.map_flatten⟩
  induction hparts with
  | nil => exact .nil
  | cons hfirst _ ih =>
    rw [List.forall_mem_cons] at hfits
    exact .cons (hfits.1.isAdded_move hpage hbias hfirst) (ih hfits.2)

end Move

/-! ## What is known of a file -/

/-- The record has the entry point and the mappings that are stored in a file. -/
structure Stores {cpu : Cpu} (program : Cpu) (k : ℕ) (content : List Byte)
    (record : FileRecord cpu) : Prop where
  elf_eq : record.elf = elfHeaderOf content
  entry_eq : record.entry.setWidth _ = entryOf program (content.take sizeofElfHeader)
  added : AddedAll k (loadSegments program content) (record.load.mappings.getD [])

/-- The record has the entry point and the mappings of a file, moved by a distance. -/
structure Describes {cpu program : Cpu} (k : ℕ) (content : List Byte) (bias : program.Word)
    (record : FileRecord cpu) : Prop where
  elf_eq : record.elf = elfHeaderOf content
  entry_eq : record.entry.setWidth _ = entryOf program (content.take sizeofElfHeader) + bias
  mappings_eq : ∃ (mappings : List (Mapping cpu)) (loadBase : cpu.Word),
    AddedAll k (loadSegments program content) mappings ∧
      record.load.mappings.getD [] = mappings.map (Mapping.move loadBase) ∧
      loadBase.setWidth _ = bias

section Describes

variable {program : Cpu} {k : ℕ} {content : List Byte}

/-- A mapping that is moved by nothing stays where it is. -/
theorem Mapping.move_zero {cpu : Cpu} : Mapping.move (0 : cpu.Word) = id := by
  funext m
  rw [Mapping.move]
  change { m with addr := m.addr + 0#_ } = m
  rw [BitVec.add_zero]

/-- The header of a file that was opened. -/
theorem openElf_ok {h : Host} {cpu : Cpu} {hostPath : Path} {file file' : File} {elf : ElfHeader}
    (hopen : h.openFile hostPath = .ok file) (hfile : file.Holds cpu content)
    (hrun : openElf h hostPath = .ok (file', elf)) :
    file' = file ∧ elf = elfHeaderOf content ∧ file.start = content.take sizeofElfHeader := by
  unfold openElf at hrun
  rw [hopen] at hrun
  dsimp only at hrun
  unfold File.start
  cases hread : file.pread 0 sizeofElfHeader with
  | error errno =>
    rw [hread] at hrun
    cases hrun
  | ok bytes =>
    rw [hread] at hrun
    dsimp only at hrun ⊢
    split at hrun
    · cases hrun
    · rename_i hheader
      split at hrun
      · cases hrun
      · obtain ⟨rfl, rfl⟩ := Prod.mk.inj (Except.ok.inj hrun)
        have hprefix := hfile.pread_ok _ _ _ hread
        rw [List.drop_zero] at hprefix
        have hfull : bytes = content.take sizeofElfHeader := by
          refine hprefix.eq_of_length (Nat.le_antisymm hprefix.length_le ?_)
          rw [not_or] at hheader
          exact Nat.le_trans (List.length_take_le ..) (Nat.le_of_not_lt hheader.1)
        exact ⟨rfl, by rw [elfHeaderOf, hfull], hfull⟩

/-- A file that is moved by nothing. -/
theorem Stores.describes {cpu : Cpu} {record : FileRecord cpu} (h : Stores program k content record) :
    Describes k content (0 : program.Word) record where
  elf_eq := h.elf_eq
  entry_eq := h.entry_eq.trans (BitVec.add_zero _).symm
  mappings_eq := ⟨_, 0, h.added, by rw [Mapping.move_zero, List.map_id], BitVec.setWidth_zero ..⟩

end Describes

/-! ## Both files -/

end Abyss.Execve
