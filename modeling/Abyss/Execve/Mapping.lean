import Abyss.Execve.Path
import Abyss.Library.Pages
import Abyss.Loader.Clear

/-!
# The mappings of a segment

The entry of an `execve` translates a segment of the program to a file mapping, and to an anonymous
mapping for the pages that are not in the file. The loader maps them, and clears the bytes of the
file mapping that are behind those of the segment. Both ends are rounded up by adding a whole page
before masking, so there is a page too many where an end is that of a page.
-/

namespace Abyss.Execve

open Loader Pages

/-! ## The entry -/

/-- The fields of a program header of type `PT_LOAD`, in the words of the program. -/
structure Segment (program : Cpu) where
  offset : program.Word
  vaddr : program.Word
  filesz : program.Word
  memsz : program.Word
  flags : BitVec 32

/-- `Mapping`. -/
structure Mapping (cpu : Cpu) where
  addr : cpu.Word
  length : cpu.Word
  clearLength : cpu.Word
  prot : cpu.Word
  flags : cpu.Word
  fd : cpu.Word
  offset : cpu.Word

/-- `MAP_PRIVATE`. -/
def mapPrivate : ℕ := 0x02

/-- `MAP_FIXED`. -/
def mapFixed : ℕ := 0x10

/-- `MAP_ANONYMOUS`. -/
def mapAnonymous : ℕ := 0x20

section AddMapping

variable {cpu program : Cpu}

/-- The size of a page, which has a default. -/
def pageSizeOf (sysconf : cpu.Word) : cpu.Word :=
  if (sysconf.setWidth 32).toInt ≤ 0 then 0x1000 else sysconf

/-- A field, as `PROGRAM_FIELD` has it for both classes. -/
def programField (field : program.Word) : BitVec 64 := field.setWidth 64

/-- The protection that the flags of a segment ask for. -/
def protOf (cpu : Cpu) (flags : BitVec 32) : cpu.Word :=
  (if flags &&& 4 ≠ 0 then 1 else 0) ||| (if flags &&& 2 ≠ 0 then 2 else 0) |||
    (if flags &&& 1 ≠ 0 then 4 else 0)

/-- An address under the mask of the pages, as a word. -/
def maskAddress (pageMask : cpu.Word) (address : BitVec 64) : cpu.Word :=
  (address &&& pageMask.setWidth 64).setWidth _

/-- `vl_array_realloc` for a number of mappings. -/
def reallocMappings (alloc : ℕ → Bool) (count : ℕ) : Except Stop Unit :=
  if alloc count then .ok () else status (-enomem)

/-- The mappings so far; the first array is allocated, which nobody checks. -/
def currentMappings (alloc : ℕ → Bool) (mappings : Option (List (Mapping cpu))) :
    Except Stop (List (Mapping cpu)) :=
  match mappings with
  | none => if alloc 0 then .ok [] else .error .nullPointer
  | some mappings => .ok mappings

/-- `add_mapping`. -/
def addMapping (sysconf : cpu.Word) (alloc : ℕ → Bool) (mappings : Option (List (Mapping cpu)))
    (segment : Segment program) : Except Stop (List (Mapping cpu)) := do
  let pageSize := pageSizeOf sysconf
  let pageMask := mask pageSize
  let vaddr := programField segment.vaddr
  let filesz := programField segment.filesz
  let memsz := programField segment.memsz
  let mappings ← currentMappings alloc mappings
  reallocMappings alloc (mappings.length + 1)
  let startAddress := maskAddress pageMask vaddr
  let endAddress := maskAddress pageMask (vaddr + filesz + pageSize.setWidth 64)
  let file : Mapping cpu :=
    { fd := -1
      offset := maskAddress pageMask (programField segment.offset)
      addr := startAddress
      length := endAddress - startAddress
      clearLength := 0
      flags := BitVec.ofNat _ (mapPrivate ||| mapFixed)
      prot := protOf cpu segment.flags }
  if memsz > filesz then do
    -- How many extra bytes in the current page?
    let file := { file with clearLength := (endAddress.setWidth 64 - vaddr - filesz).setWidth _ }
    -- Create new pages for the remaining extra bytes.
    let startAddress := endAddress
    let endAddress := maskAddress pageMask (vaddr + memsz + pageSize.setWidth 64)
    if endAddress > startAddress then do
      reallocMappings alloc (mappings.length + 2)
      let anonymous : Mapping cpu :=
        { fd := -1
          offset := 0
          addr := startAddress
          length := endAddress - startAddress
          clearLength := 0
          flags := BitVec.ofNat _ (mapPrivate ||| mapAnonymous ||| mapFixed)
          prot := file.prot }
      .ok (mappings ++ [file, anonymous])
    else .ok (mappings ++ [file])
  else .ok (mappings ++ [file])

end AddMapping

/-! ## The loader -/

/-- The pages of a process: their bytes, and which of them can be accessed as far as the files go. -/
structure Space where
  content : ℕ → Bytes.Byte
  accessible : ℕ → Prop

/-- The memory of a process: its pages, and the protection of their bytes. -/
structure AddressSpace (cpu : Cpu) where
  space : Space
  prot : ℕ → cpu.Word

/-- The addresses of a mapping. -/
def InMapping (addr length a : ℕ) : Prop := addr ≤ a ∧ a < addr + length

instance (addr length a : ℕ) : Decidable (InMapping addr length a) :=
  inferInstanceAs (Decidable (_ ∧ _))

/-- `MMAP_OFFSET_SHIFT`; the offset is one of pages of 4096 bytes for the 32-bit processor. -/
def mmapOffsetShift : Cpu → ℕ
  | .armEabi => 12
  | .arm64 => 0

/-- `mmap` of a file at a fixed address: the bytes behind the end of the file are zero in its last
page, and cannot be accessed in the pages after it. -/
def Space.mmapFile (s : Space) (pageSize : ℕ) (file : List Bytes.Byte)
    (addr length offset : ℕ) : Space where
  content a := if InMapping addr length a then file.getD (offset + (a - addr)) 0 else s.content a
  accessible a :=
    if InMapping addr length a then base pageSize (offset + (a - addr)) < file.length
    else s.accessible a

/-- `mmap` of anonymous memory at a fixed address. -/
def Space.mmapAnonymous (s : Space) (addr length : ℕ) : Space where
  content a := if InMapping addr length a then 0 else s.content a
  accessible a := InMapping addr length a ∨ s.accessible a

/-- The protection after a mapping. -/
def protect {cpu : Cpu} (prot : ℕ → cpu.Word) (addr length : ℕ) (newProt : cpu.Word) (a : ℕ) :
    cpu.Word :=
  if InMapping addr length a then newProt else prot a

section AddressSpace

variable {cpu : Cpu} (s : AddressSpace cpu)

/-- A byte can be written: `PROT_WRITE` is 2. -/
def AddressSpace.Writable (a : ℕ) : Prop := s.space.accessible a ∧ s.prot a &&& 2 ≠ 0

/-- `mmap` of a file at a fixed address with a protection. -/
def AddressSpace.mmapFile (pageSize : ℕ) (file : List Bytes.Byte) (addr length : ℕ) (prot : cpu.Word)
    (offset : ℕ) : AddressSpace cpu where
  space := s.space.mmapFile pageSize file addr length offset
  prot := protect s.prot addr length prot

/-- `mmap` of anonymous memory at a fixed address with a protection. -/
def AddressSpace.mmapAnonymous (addr length : ℕ) (prot : cpu.Word) : AddressSpace cpu where
  space := s.space.mmapAnonymous addr length
  prot := protect s.prot addr length prot

/-- `clear` of memory that can be written. -/
def AddressSpace.clear (start bound : cpu.Word) : AddressSpace cpu :=
  { s with space := { s.space with content := Loader.clear s.space.content start bound } }

end AddressSpace

/-- What the loader makes of a mapping, in its own words: it maps and clears, without a fault. -/
def Loads {cpu : Cpu} (loader : Cpu) (pageSize : ℕ) (file : List Bytes.Byte) (m : Mapping cpu)
    (s s' : AddressSpace loader) : Prop :=
  let addr : loader.Word := m.addr.setWidth _
  let length : loader.Word := m.length.setWidth _
  let prot : loader.Word := m.prot.setWidth _
  let clearLength : loader.Word := m.clearLength.setWidth _
  let offset : loader.Word := m.offset.setWidth _
  if m.flags &&& BitVec.ofNat _ mapAnonymous ≠ 0 then
    s' = s.mmapAnonymous addr.toNat length.toNat prot
  else
    let shift := mmapOffsetShift loader
    let mapped := s.mmapFile pageSize file addr.toNat length.toNat prot
      ((offset >>> shift).toNat <<< shift)
    if clearLength ≠ 0 then
      let start := addr + length - clearLength
      let bound := addr + length
      (∀ a, InRange start bound a ∨ Overrun start bound a → mapped.Writable a) ∧
        s' = mapped.clear start bound
    else s' = mapped

/-- The mappings are loaded in order. -/
inductive LoadsAll {cpu : Cpu} (loader : Cpu) (pageSize : ℕ) (file : List Bytes.Byte) :
    List (Mapping cpu) → AddressSpace loader → AddressSpace loader → Prop
  | nil (s : AddressSpace loader) : LoadsAll loader pageSize file [] s s
  | cons {m : Mapping cpu} {rest : List (Mapping cpu)} {s s' s'' : AddressSpace loader}
      (h : Loads loader pageSize file m s s') (hrest : LoadsAll loader pageSize file rest s' s'') :
      LoadsAll loader pageSize file (m :: rest) s s''

section AddressSpace

variable {cpu loader : Cpu} {pageSize : ℕ} {file : List Bytes.Byte} {m : Mapping cpu}
  {rest : List (Mapping cpu)} {s s' : AddressSpace loader}

/-- An address space is its content and its protections. -/
theorem AddressSpace.ext (hspace : s.space = s'.space) (hprot : s.prot = s'.prot) : s = s' := by
  cases s
  cases s'
  simp_all

/-- Without mappings nothing is loaded. -/
theorem loadsAll_nil_iff : LoadsAll loader pageSize file ([] : List (Mapping cpu)) s s' ↔ s' = s :=
  ⟨fun h => by cases h; rfl, by rintro rfl; exact .nil s'⟩

/-- Mappings are loaded one after the other. -/
theorem loadsAll_cons_iff :
    LoadsAll loader pageSize file (m :: rest) s s' ↔
      ∃ t, Loads loader pageSize file m s t ∧ LoadsAll loader pageSize file rest t s' :=
  ⟨fun h => by cases h with | cons h hrest => exact ⟨_, h, hrest⟩, fun ⟨_, h, hrest⟩ => .cons h hrest⟩

end AddressSpace

/-! ## The mappings that are added -/

/-- The segment of a program with the size of its pages: the words of the program are not wider
than those of the tracer, and no address overflows. -/
structure Placed (cpu : Cpu) {program : Cpu} (k : ℕ) (segment : Segment program) : Prop where
  program_le : program.wordBits ≤ cpu.wordBits
  page_ge : 12 ≤ k
  page_le : k ≤ 30
  congruent : segment.vaddr.toNat % 2 ^ k = segment.offset.toNat % 2 ^ k
  filesz_le : segment.filesz.toNat ≤ segment.memsz.toNat
  fits : segment.vaddr.toNat + segment.memsz.toNat + 2 ^ k < 2 ^ program.wordBits

/-- The end of the file mapping. -/
def fileEnd {program : Cpu} (k : ℕ) (segment : Segment program) : ℕ :=
  base (2 ^ k) (segment.vaddr.toNat + segment.filesz.toNat) + 2 ^ k

/-- The end of the anonymous mapping. -/
def memEnd {program : Cpu} (k : ℕ) (segment : Segment program) : ℕ :=
  base (2 ^ k) (segment.vaddr.toNat + segment.memsz.toNat) + 2 ^ k

/-- The file mapping of a segment. -/
structure IsFileMapping {cpu program : Cpu} (k : ℕ) (segment : Segment program)
    (m : Mapping cpu) : Prop where
  addr_eq : m.addr.toNat = base (2 ^ k) segment.vaddr.toNat
  length_eq : m.length.toNat = fileEnd k segment - base (2 ^ k) segment.vaddr.toNat
  offset_eq : m.offset.toNat = base (2 ^ k) segment.offset.toNat
  prot_eq : m.prot = protOf cpu segment.flags
  flags_eq : m.flags &&& BitVec.ofNat _ mapAnonymous = 0
  clearLength_eq : m.clearLength.toNat =
    if segment.filesz.toNat < segment.memsz.toNat then
      fileEnd k segment - (segment.vaddr.toNat + segment.filesz.toNat)
    else 0

/-- The anonymous mapping of a segment. -/
structure IsAnonymousMapping {cpu program : Cpu} (k : ℕ) (segment : Segment program)
    (m : Mapping cpu) : Prop where
  addr_eq : m.addr.toNat = fileEnd k segment
  length_eq : m.length.toNat = memEnd k segment - fileEnd k segment
  prot_eq : m.prot = protOf cpu segment.flags
  flags_eq : m.flags &&& BitVec.ofNat _ mapAnonymous ≠ 0

section Added

variable {cpu program : Cpu} {k : ℕ} {segment : Segment program}

/-- No word is wider than 64 bits. -/
theorem wordBits_le (cpu : Cpu) : cpu.wordBits ≤ 64 := by
  cases cpu <;> decide

/-- What is a word of the program is one of the tracer. -/
theorem Placed.lt_word (h : Placed cpu k segment) {n : ℕ} (hn : n < 2 ^ program.wordBits) :
    n < 2 ^ cpu.wordBits :=
  Nat.lt_of_lt_of_le hn (Nat.pow_le_pow_right (by decide) h.program_le)

/-- The size of a page is a word. -/
theorem Placed.page_lt (h : Placed cpu k segment) (cpu' : Cpu) : k < cpu'.wordBits := by
  have := h.page_le
  cases cpu' <;> simp only [Cpu.wordBits] <;> omega

/-- The size of a page is what the system tells. -/
theorem Placed.pageSizeOf_eq (h : Placed cpu k segment) :
    pageSizeOf (BitVec.ofNat cpu.wordBits (2 ^ k)) = BitVec.ofNat cpu.wordBits (2 ^ k) := by
  have hlt : 2 ^ k < 2 ^ 31 := Nat.pow_lt_pow_right (by decide) (Nat.lt_succ_of_le h.page_le)
  have hword : 2 ^ k < 2 ^ cpu.wordBits := Nat.pow_lt_pow_right (by decide) (h.page_lt cpu)
  have htoNat : ((BitVec.ofNat cpu.wordBits (2 ^ k)).setWidth 32).toNat = 2 ^ k := by
    rw [BitVec.toNat_setWidth, BitVec.toNat_ofNat, Nat.mod_eq_of_lt hword,
      Nat.mod_eq_of_lt (by omega)]
  have hpos : 0 < 2 ^ k := Nat.two_pow_pos k
  unfold pageSizeOf
  rw [if_neg]
  rw [BitVec.toInt_eq_toNat_of_lt (by omega), htoNat]
  omega

/-- A field is the same number in 64 bits. -/
theorem programField_toNat (field : program.Word) : (programField field).toNat = field.toNat := by
  have hlt := field.isLt
  have hle : 2 ^ program.wordBits ≤ 2 ^ 64 := Nat.pow_le_pow_right (by decide) (wordBits_le program)
  rw [programField, BitVec.toNat_setWidth, Nat.mod_eq_of_lt (by omega)]

/-- An address that fits is rounded down to its page. -/
theorem Placed.maskAddress_toNat (h : Placed cpu k segment) (address : BitVec 64)
    (hfits : address.toNat < 2 ^ program.wordBits) :
    (maskAddress (mask (BitVec.ofNat cpu.wordBits (2 ^ k))) address).toNat =
      base (2 ^ k) address.toNat :=
  toNat_and_mask (h.page_lt cpu) address (h.lt_word hfits) (wordBits_le cpu)

/-- The sum of the fields and the size of a page does not overflow. -/
theorem Placed.sum_toNat (h : Placed cpu k segment) {field : program.Word}
    (hle : field.toNat ≤ segment.memsz.toNat) :
    (programField segment.vaddr + programField field +
        (BitVec.ofNat cpu.wordBits (2 ^ k)).setWidth 64).toNat =
      segment.vaddr.toNat + field.toNat + 2 ^ k := by
  have hfits := h.fits
  have hword : 2 ^ k < 2 ^ cpu.wordBits := Nat.pow_lt_pow_right (by decide) (h.page_lt cpu)
  have hlimit : 2 ^ program.wordBits ≤ 2 ^ 64 :=
    Nat.pow_le_pow_right (by decide) (wordBits_le program)
  have hpos := Nat.two_pow_pos k
  have hfield : segment.vaddr.toNat + field.toNat < 2 ^ 64 := by omega
  have hpage : 2 ^ k < 2 ^ 64 := by omega
  have hsum : segment.vaddr.toNat + field.toNat + 2 ^ k < 2 ^ 64 := by omega
  rw [BitVec.toNat_add, BitVec.toNat_add, programField_toNat, programField_toNat,
    BitVec.toNat_setWidth, BitVec.toNat_ofNat, Nat.mod_eq_of_lt hword, Nat.mod_eq_of_lt hfield,
    Nat.mod_eq_of_lt hpage, Nat.mod_eq_of_lt hsum]

/-- The end of a range of the segment, rounded up. -/
theorem Placed.end_toNat (h : Placed cpu k segment) {field : program.Word}
    (hle : field.toNat ≤ segment.memsz.toNat) :
    (maskAddress (mask (BitVec.ofNat cpu.wordBits (2 ^ k)))
        (programField segment.vaddr + programField field +
          (BitVec.ofNat cpu.wordBits (2 ^ k)).setWidth 64)).toNat =
      base (2 ^ k) (segment.vaddr.toNat + field.toNat) + 2 ^ k := by
  have hsum := h.sum_toNat hle
  have hfits := h.fits
  rw [h.maskAddress_toNat _ (by omega), hsum, base_add_self (Nat.two_pow_pos k)]

/-- The bytes between the end of those of the file and that of their mapping. -/
theorem clearLength_toNat {cpu : Cpu} {fileEnd' : cpu.Word} {vaddr filesz : BitVec 64}
    (hle : vaddr.toNat + filesz.toNat ≤ fileEnd'.toNat) :
    ((fileEnd'.setWidth 64 - vaddr - filesz).setWidth cpu.wordBits).toNat =
      fileEnd'.toNat - (vaddr.toNat + filesz.toNat) := by
  have hlt := fileEnd'.isLt
  have hlimit : 2 ^ cpu.wordBits ≤ 2 ^ 64 := Nat.pow_le_pow_right (by decide) (wordBits_le cpu)
  have hend : (fileEnd'.setWidth 64).toNat = fileEnd'.toNat := by
    rw [BitVec.toNat_setWidth, Nat.mod_eq_of_lt (by omega)]
  have hvaddr : vaddr ≤ fileEnd'.setWidth 64 := by
    rw [BitVec.le_def, hend]
    omega
  have hrest : (fileEnd'.setWidth 64 - vaddr).toNat = fileEnd'.toNat - vaddr.toNat := by
    rw [BitVec.toNat_sub_of_le hvaddr, hend]
  have hfilesz : filesz ≤ fileEnd'.setWidth 64 - vaddr := by
    rw [BitVec.le_def, hrest]
    omega
  rw [BitVec.toNat_setWidth, BitVec.toNat_sub_of_le hfilesz, hrest, Nat.mod_eq_of_lt (by omega),
    Nat.sub_sub]

/-- Whether the mapping of a file is anonymous. -/
theorem flags_file (cpu : Cpu) : BitVec.ofNat cpu.wordBits (mapPrivate ||| mapFixed) &&&
    BitVec.ofNat _ mapAnonymous = 0 := by
  cases cpu <;> decide

/-- That of the pages behind the file is. -/
theorem flags_anonymous (cpu : Cpu) :
    BitVec.ofNat cpu.wordBits (mapPrivate ||| mapAnonymous ||| mapFixed) &&&
      BitVec.ofNat _ mapAnonymous ≠ 0 := by
  cases cpu <;> decide

/-- The mappings so far, or none. -/
theorem currentMappings_ok {alloc : ℕ → Bool} {mappings : Option (List (Mapping cpu))}
    {current : List (Mapping cpu)} (h : currentMappings alloc mappings = .ok current) :
    current = mappings.getD [] := by
  unfold currentMappings at h
  split at h
  · split at h
    · exact (Except.ok.inj h).symm
    · cases h
  · exact (Except.ok.inj h).symm

/-- What is added to the mappings. -/
theorem Placed.addMapping_ok (h : Placed cpu k segment) {alloc : ℕ → Bool}
    {mappings : Option (List (Mapping cpu))} {new : List (Mapping cpu)}
    (hrun : addMapping (BitVec.ofNat _ (2 ^ k)) alloc mappings segment = .ok new) :
    ∃ file, IsFileMapping k segment file ∧
      if segment.filesz.toNat < segment.memsz.toNat ∧ fileEnd k segment < memEnd k segment then
        ∃ anonymous, IsAnonymousMapping k segment anonymous ∧
          new = mappings.getD [] ++ [file, anonymous]
      else new = mappings.getD [] ++ [file] := by
  unfold addMapping at hrun
  dsimp only at hrun
  rw [h.pageSizeOf_eq] at hrun
  have hstart := h.maskAddress_toNat (programField segment.vaddr)
    (by rw [programField_toNat]; exact segment.vaddr.isLt)
  have hoffset := h.maskAddress_toNat (programField segment.offset)
    (by rw [programField_toNat]; exact segment.offset.isLt)
  have hfileEnd := h.end_toNat h.filesz_le
  have hmemEnd := h.end_toNat (Nat.le_refl segment.memsz.toNat)
  rw [programField_toNat] at hstart hoffset
  generalize maskAddress (mask (BitVec.ofNat cpu.wordBits (2 ^ k)))
    (programField segment.vaddr) = start at hrun hstart
  generalize maskAddress (mask (BitVec.ofNat cpu.wordBits (2 ^ k)))
    (programField segment.offset) = offset at hrun hoffset
  generalize maskAddress (mask (BitVec.ofNat cpu.wordBits (2 ^ k)))
    (programField segment.vaddr + programField segment.filesz + _) = fileEnd' at hrun hfileEnd
  generalize maskAddress (mask (BitVec.ofNat cpu.wordBits (2 ^ k)))
    (programField segment.vaddr + programField segment.memsz + _) = memEnd' at hrun hmemEnd
  cases hcurrent : currentMappings alloc mappings with
  | error stop =>
    rw [hcurrent] at hrun
    cases hrun
  | ok current =>
    obtain rfl := currentMappings_ok hcurrent
    rw [hcurrent] at hrun
    simp only [bind, Except.bind] at hrun
    have hlength : start ≤ fileEnd' := by
      rw [BitVec.le_def, hstart, hfileEnd]
      exact Nat.le_add_right_of_le
        (base_mono (2 ^ k) (Nat.le_add_right segment.vaddr.toNat segment.filesz.toNat))
    have hlengthNat : (fileEnd' - start).toNat =
        fileEnd k segment - base (2 ^ k) segment.vaddr.toNat := by
      rw [BitVec.toNat_sub_of_le hlength, hfileEnd, hstart]
      rfl
    have hcovers : segment.vaddr.toNat + segment.filesz.toNat ≤ fileEnd'.toNat := by
      have := lt_base_add (Nat.two_pow_pos k) (segment.vaddr.toNat + segment.filesz.toNat)
      omega
    have hmore : programField segment.memsz > programField segment.filesz ↔
        segment.filesz.toNat < segment.memsz.toNat := by
      rw [gt_iff_lt, BitVec.lt_def, programField_toNat, programField_toNat]
    have hpages : memEnd' > fileEnd' ↔ fileEnd k segment < memEnd k segment := by
      rw [gt_iff_lt, BitVec.lt_def, hfileEnd, hmemEnd]
      rfl
    split at hrun
    · cases hrun
    · by_cases hextra : segment.filesz.toNat < segment.memsz.toNat
      · rw [if_pos (hmore.mpr hextra)] at hrun
        have hclear := @clearLength_toNat cpu fileEnd' (programField segment.vaddr)
          (programField segment.filesz) (by rwa [programField_toNat, programField_toNat])
        rw [programField_toNat, programField_toNat, hfileEnd] at hclear
        by_cases hanonymous : fileEnd k segment < memEnd k segment
        · rw [if_pos (hpages.mpr hanonymous)] at hrun
          split at hrun
          · cases hrun
          · obtain rfl := Except.ok.inj hrun
            simp only [hextra, hanonymous, and_self, if_true]
            have hrest : (memEnd' - fileEnd').toNat = memEnd k segment - fileEnd k segment := by
              rw [BitVec.toNat_sub_of_le (Nat.le_of_lt (hpages.mpr hanonymous)), hmemEnd, hfileEnd]
              rfl
            refine ⟨_, ⟨hstart, hlengthNat, hoffset, rfl, flags_file cpu, ?_⟩,
              ⟨_, ⟨hfileEnd, hrest, rfl, flags_anonymous cpu⟩, rfl⟩⟩
            rw [if_pos hextra]
            exact hclear
        · rw [if_neg fun hlt => hanonymous (hpages.mp hlt)] at hrun
          obtain rfl := Except.ok.inj hrun
          simp only [hanonymous, and_false, if_false]
          refine ⟨_, ⟨hstart, hlengthNat, hoffset, rfl, flags_file cpu, ?_⟩, rfl⟩
          rw [if_pos hextra]
          exact hclear
      · rw [if_neg fun hlt => hextra (hmore.mp hlt)] at hrun
        obtain rfl := Except.ok.inj hrun
        simp only [hextra, false_and, if_false]
        refine ⟨_, ⟨hstart, hlengthNat, hoffset, rfl, flags_file cpu, ?_⟩, rfl⟩
        rw [if_neg hextra]
        rfl

end Added

end Abyss.Execve
