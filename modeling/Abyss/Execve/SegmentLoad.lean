import Abyss.Execve.Mapping

/-!
# A segment in memory

What the mappings of a segment are for: its bytes are those of the file, and zero behind them, and
no other page is touched. The mappings that are added are such if the segment is not empty, neither
the end of its bytes of the file nor its own end is that of a page, and it can be written if there
are bytes behind those of the file. Otherwise there is a page without a byte of the segment, or one
that cannot be cleared since it is not in the file or must not be written.
-/

namespace Abyss.Execve

open Loader Pages Bytes

section Segment

variable {cpu program : Cpu} {k : ℕ} {segment : Segment program}

/-- The addresses of a segment. -/
def InSegment (segment : Segment program) (a : ℕ) : Prop :=
  segment.vaddr.toNat ≤ a ∧ a < segment.vaddr.toNat + segment.memsz.toNat

/-- A file mapping and at most an anonymous one, which follows it. -/
def FollowsFile (added : List (Mapping cpu)) : Prop :=
  ∃ file rest, added = file :: rest ∧ rest.length ≤ 1 ∧
    file.flags &&& BitVec.ofNat _ mapAnonymous = 0 ∧
    file.clearLength.toNat ≤ file.length.toNat ∧
    ∀ m ∈ rest, m.flags &&& BitVec.ofNat _ mapAnonymous ≠ 0 ∧
      m.addr.toNat = file.addr.toNat + file.length.toNat

/-- The memory holds the bytes of a segment. -/
def HoldsSegment (segment : Segment program) (file : List Byte) (s : Space) : Prop :=
  ∀ a, InSegment segment a → s.accessible a ∧
    s.content a =
      if a < segment.vaddr.toNat + segment.filesz.toNat then
        file.getD (segment.offset.toNat + (a - segment.vaddr.toNat)) 0
      else 0

/-- The mappings are what a segment needs. -/
structure MapsSegment (k : ℕ) (segment : Segment program) (added : List (Mapping cpu)) : Prop where
  follows : FollowsFile added
  aligned : ∀ m ∈ added, 2 ^ k ∣ m.addr.toNat ∧ 2 ^ k ∣ m.length.toNat
  covers : ∀ a, InSegment segment a → ∃ m ∈ added, InMapping m.addr.toNat m.length.toNat a
  tight : ∀ page, 2 ^ k ∣ page → (∃ m ∈ added, InMapping m.addr.toNat m.length.toNat page) →
    ∃ a, InSegment segment a ∧ InMapping page (2 ^ k) a
  loads : ∀ (file : List Byte) (s : AddressSpace program),
    segment.offset.toNat + segment.filesz.toNat ≤ file.length →
      ∃ s', LoadsAll program (2 ^ k) file added s s' ∧ HoldsSegment segment file s'.space

/-- The segment is not empty and neither end is that of a page. -/
def EndsWithinPages (k : ℕ) (segment : Segment program) : Prop :=
  0 < segment.memsz.toNat ∧ ¬2 ^ k ∣ segment.vaddr.toNat + segment.filesz.toNat ∧
    ¬2 ^ k ∣ segment.vaddr.toNat + segment.memsz.toNat

/-- The segment can be written if there are bytes behind those of the file. -/
def ClearedWritable (segment : Segment program) : Prop :=
  segment.filesz.toNat < segment.memsz.toNat → segment.flags &&& 2 ≠ 0

/-- What must be cleared behind the bytes of the file can be written, and is in a page of it. -/
def Clearable (k : ℕ) (segment : Segment program) (file : List Byte) : Prop :=
  segment.filesz.toNat < segment.memsz.toNat →
    segment.flags &&& 2 ≠ 0 ∧
      base (2 ^ k) (segment.offset.toNat + segment.filesz.toNat) < file.length

instance (k : ℕ) (segment : Segment program) (file : List Byte) :
    Decidable (Clearable k segment file) := inferInstanceAs (Decidable (_ → _))

/-- The pages of a segment. -/
def InPages (k : ℕ) (segment : Segment program) (a : ℕ) : Prop :=
  base (2 ^ k) segment.vaddr.toNat ≤ a ∧ a < memEnd k segment

instance (k : ℕ) (segment : Segment program) (a : ℕ) : Decidable (InPages k segment a) :=
  inferInstanceAs (Decidable (_ ∧ _))

/-! ## Numbers -/

/-- The ends of the mappings, between which those of the segment are. -/
theorem Placed.ends (h : Placed cpu k segment) :
    base (2 ^ k) segment.vaddr.toNat ≤ segment.vaddr.toNat ∧
    segment.vaddr.toNat + segment.filesz.toNat < fileEnd k segment ∧
    segment.vaddr.toNat + segment.memsz.toNat < memEnd k segment ∧
    fileEnd k segment ≤ segment.vaddr.toNat + segment.filesz.toNat + 2 ^ k ∧
    memEnd k segment ≤ segment.vaddr.toNat + segment.memsz.toNat + 2 ^ k ∧
    fileEnd k segment ≤ memEnd k segment := by
  have hpos := Nat.two_pow_pos k
  refine ⟨base_le .., lt_base_add hpos _, lt_base_add hpos _, ?_, ?_, ?_⟩
  · exact Nat.add_le_add_right (base_le ..) _
  · exact Nat.add_le_add_right (base_le ..) _
  · exact Nat.add_le_add_right (base_mono _ (Nat.add_le_add_left h.filesz_le _)) _

/-- The file mapping ends with a page. -/
theorem dvd_fileEnd : 2 ^ k ∣ fileEnd k segment := Nat.dvd_add (dvd_base ..) (Nat.dvd_refl _)

/-- So does the anonymous mapping. -/
theorem dvd_memEnd : 2 ^ k ∣ memEnd k segment := Nat.dvd_add (dvd_base ..) (Nat.dvd_refl _)

/-- A number that fits is the same in the words of the loader. -/
theorem toNat_setWidth (loader : Cpu) {n : ℕ} {x : cpu.Word} (hx : x.toNat = n)
    (hn : n < 2 ^ loader.wordBits) : (x.setWidth loader.wordBits).toNat = n := by
  rw [BitVec.toNat_setWidth, hx, Nat.mod_eq_of_lt hn]

/-- The offset of a page is a multiple of the unit of the loader. -/
theorem Placed.shift_offset (h : Placed cpu k segment) {offset : program.Word}
    (hoffset : 2 ^ k ∣ offset.toNat) :
    (offset >>> mmapOffsetShift program).toNat <<< mmapOffsetShift program = offset.toNat := by
  have hdvd : 2 ^ mmapOffsetShift program ∣ offset.toNat := by
    refine Nat.dvd_trans (Nat.pow_dvd_pow 2 ?_) hoffset
    have := h.page_ge
    cases program <;> simp only [mmapOffsetShift] <;> omega
  rw [BitVec.toNat_ushiftRight, Nat.shiftRight_eq_div_pow, Nat.shiftLeft_eq,
    Nat.div_mul_cancel hdvd]

/-- A page is made of whole words. -/
theorem Placed.wordBytes_dvd_page (h : Placed cpu k segment) (loader : Cpu) :
    loader.wordBytes ∣ 2 ^ k := by
  have hword : loader.wordBytes ∣ 2 ^ 12 := by cases loader <;> decide
  exact Nat.dvd_trans hword (Nat.pow_dvd_pow 2 h.page_ge)

/-! ## Loading -/

/-- The file mapping before it is cleared. -/
def mappedFile (k : ℕ) (segment : Segment program) (file : List Byte) (s : Space) : Space :=
  s.mmapFile (2 ^ k) file (base (2 ^ k) segment.vaddr.toNat)
    (fileEnd k segment - base (2 ^ k) segment.vaddr.toNat) (base (2 ^ k) segment.offset.toNat)

/-- The file mapping after it was cleared. -/
def clearedFile (k : ℕ) (segment : Segment program) (file : List Byte) (s : Space) : Space :=
  { mappedFile k segment file s with
    content := fun a =>
      if segment.vaddr.toNat + segment.filesz.toNat ≤ a ∧ a < fileEnd k segment then 0
      else (mappedFile k segment file s).content a }

/-- The protection is the same in the words of the program. -/
theorem protOf_setWidth (cpu program : Cpu) (flags : BitVec 32) :
    (protOf cpu flags).setWidth program.wordBits = protOf program flags := by
  unfold protOf
  cases cpu <;> cases program <;> split_ifs <;> rfl

/-- A segment can be written if its flags say so. -/
theorem protOf_writable_iff (program : Cpu) (flags : BitVec 32) :
    protOf program flags &&& 2 ≠ 0 ↔ flags &&& 2 ≠ 0 := by
  unfold protOf
  by_cases hwrite : flags &&& 2 ≠ 0
  · rw [if_pos hwrite]
    refine iff_of_true ?_ hwrite
    cases program <;> split_ifs <;> decide
  · rw [if_neg hwrite]
    refine iff_of_false ?_ hwrite
    cases program <;> split_ifs <;> decide

/-- The offset in the file that an address is mapped from. -/
theorem Placed.offset_eq (h : Placed cpu k segment) {a : ℕ} (ha : segment.vaddr.toNat ≤ a) :
    base (2 ^ k) segment.offset.toNat + (a - base (2 ^ k) segment.vaddr.toNat) =
      segment.offset.toNat + (a - segment.vaddr.toNat) := by
  have hsame := add_base_of_modEq h.congruent
  have hvaddr := base_le (2 ^ k) segment.vaddr.toNat
  omega

/-- What must be cleared is in the last page of the file mapping. -/
theorem Placed.mappedFile_accessible_iff (h : Placed cpu k segment) (file : List Byte) (s : Space) :
    (∀ a, segment.vaddr.toNat + segment.filesz.toNat ≤ a ∧ a < fileEnd k segment →
        (mappedFile k segment file s).accessible a) ↔
      base (2 ^ k) (segment.offset.toNat + segment.filesz.toNat) < file.length := by
  have hbase := base_le (2 ^ k) segment.vaddr.toNat
  have hcongruent := h.congruent
  -- All of it is in the page in which the bytes of the file end.
  have hpage : ∀ d, segment.vaddr.toNat + segment.filesz.toNat + d < fileEnd k segment →
      base (2 ^ k) (segment.offset.toNat + (segment.filesz.toNat + d)) =
        base (2 ^ k) (segment.offset.toNat + segment.filesz.toNat) := by
    intro d hd
    have hsame : base (2 ^ k) (segment.vaddr.toNat + (segment.filesz.toNat + d)) =
        base (2 ^ k) (segment.vaddr.toNat + segment.filesz.toNat) := by
      apply Nat.le_antisymm
      · refine le_base_of_lt (dvd_base ..) (Nat.lt_of_le_of_lt (base_le ..) ?_)
        rw [← Nat.add_assoc]
        exact hd
      · exact base_mono _ (by omega)
    have hmod : ∀ n, (segment.vaddr.toNat + n) % 2 ^ k = (segment.offset.toNat + n) % 2 ^ k := by
      intro n
      rw [Nat.add_mod, hcongruent, ← Nat.add_mod]
    have hfirst := add_base_of_modEq (hmod segment.filesz.toNat)
    have hnext := add_base_of_modEq (hmod (segment.filesz.toNat + d))
    omega
  have haccessible : ∀ d, segment.vaddr.toNat + segment.filesz.toNat + d < fileEnd k segment →
      ((mappedFile k segment file s).accessible
          (segment.vaddr.toNat + segment.filesz.toNat + d) ↔
        base (2 ^ k) (segment.offset.toNat + segment.filesz.toNat) < file.length) := by
    intro d hd
    have hin : InMapping (base (2 ^ k) segment.vaddr.toNat)
        (fileEnd k segment - base (2 ^ k) segment.vaddr.toNat)
        (segment.vaddr.toNat + segment.filesz.toNat + d) := by
      unfold InMapping
      omega
    simp only [mappedFile, Space.mmapFile, if_pos hin]
    rw [h.offset_eq (by omega), Nat.add_assoc, Nat.add_sub_cancel_left, hpage d hd]
  constructor
  · intro hall
    have hend := h.ends.2.1
    exact (haccessible 0 hend).mp (hall _ ⟨Nat.le_refl _, hend⟩)
  · rintro hlt a ⟨hle, hend⟩
    obtain ⟨d, rfl⟩ := Nat.exists_eq_add_of_le hle
    exact (haccessible d hend).mpr hlt

/-- The memory after the file mapping was loaded. -/
def loadedFile (k : ℕ) (segment : Segment program) (file : List Byte) (s : AddressSpace program) :
    AddressSpace program where
  space :=
    if segment.filesz.toNat < segment.memsz.toNat then clearedFile k segment file s.space
    else mappedFile k segment file s.space
  prot := protect s.prot (base (2 ^ k) segment.vaddr.toNat)
    (fileEnd k segment - base (2 ^ k) segment.vaddr.toNat) (protOf program segment.flags)

/-- What is cleared are the bytes behind those of the file, up to the end of the mapping. -/
theorem Placed.clear_range (h : Placed cpu k segment) {m : Mapping cpu}
    (hm : IsFileMapping k segment m) (hextra : segment.filesz.toNat < segment.memsz.toNat) :
    m.clearLength.setWidth program.wordBits ≠ 0 ∧
      (m.addr.setWidth program.wordBits + m.length.setWidth _ - m.clearLength.setWidth _ ≤
        m.addr.setWidth program.wordBits + m.length.setWidth _) ∧
      program.wordBytes ∣ (m.addr.setWidth program.wordBits + m.length.setWidth _).toNat ∧
      ∀ a, InRange (m.addr.setWidth program.wordBits + m.length.setWidth _ -
          m.clearLength.setWidth _) (m.addr.setWidth program.wordBits + m.length.setWidth _) a ↔
        segment.vaddr.toNat + segment.filesz.toNat ≤ a ∧ a < fileEnd k segment := by
  obtain ⟨hbase, hfile, hmem, hfileMax, hmemMax, hle⟩ := h.ends
  have hfits := h.fits
  have hstart := base_mono (2 ^ k) (Nat.le_add_right segment.vaddr.toNat segment.filesz.toNat)
  have hclearNat := hm.clearLength_eq
  rw [if_pos hextra] at hclearNat
  have haddr := toNat_setWidth program hm.addr_eq (by omega)
  have hlength := toNat_setWidth program hm.length_eq (by omega)
  have hclear := toNat_setWidth program hclearNat (by omega)
  have hbound : (m.addr.setWidth program.wordBits + m.length.setWidth _).toNat =
      fileEnd k segment := by
    rw [BitVec.toNat_add, haddr, hlength, Nat.mod_eq_of_lt (by omega)]
    omega
  have hle' : m.clearLength.setWidth program.wordBits ≤
      m.addr.setWidth program.wordBits + m.length.setWidth _ := by
    rw [BitVec.le_def, hclear, hbound]
    omega
  have hrange := BitVec.toNat_sub_of_le hle'
  rw [hbound, hclear] at hrange
  refine ⟨?_, ?_, ?_, fun a => ?_⟩
  · intro hzero
    rw [hzero] at hclear
    change 0 = _ at hclear
    omega
  · rw [BitVec.le_def, hrange, hbound]
    omega
  · rw [hbound]
    exact Nat.dvd_trans (h.wordBytes_dvd_page program) dvd_fileEnd
  · rw [InRange, hrange, hbound]
    omega

/-- What the loader makes of the file mapping: it faults unless what must be cleared can be. -/
theorem Placed.loads_file (h : Placed cpu k segment) {m : Mapping cpu}
    (hm : IsFileMapping k segment m) (file : List Byte) (s s' : AddressSpace program) :
    Loads program (2 ^ k) file m s s' ↔
      Clearable k segment file ∧ s' = loadedFile k segment file s := by
  obtain ⟨hbase, hfile, hmem, hfileMax, hmemMax, hle⟩ := h.ends
  have hfits := h.fits
  have hstart := base_mono (2 ^ k) (Nat.le_add_right segment.vaddr.toNat segment.filesz.toNat)
  have haddr := toNat_setWidth program hm.addr_eq (by omega)
  have hlength := toNat_setWidth program hm.length_eq (by omega)
  have hoffset := toNat_setWidth program hm.offset_eq
    (Nat.lt_of_le_of_lt (base_le ..) segment.offset.isLt)
  have hprot : m.prot.setWidth program.wordBits = protOf program segment.flags := by
    rw [hm.prot_eq]
    exact protOf_setWidth ..
  unfold Loads loadedFile Clearable
  dsimp only
  rw [if_neg (not_not_intro hm.flags_eq), hprot,
    h.shift_offset (by rw [hoffset]; exact dvd_base ..), haddr, hlength, hoffset]
  by_cases hextra : segment.filesz.toNat < segment.memsz.toNat
  · obtain ⟨hne, hsorted, hwhole, hin⟩ := h.clear_range hm hextra
    rw [if_pos hne, if_pos hextra]
    refine and_congr ?_ ?_
    · -- All that is cleared is in the mapping, and has its protection.
      simp only [or_iff_left (not_overrun hsorted hwhole _), hin, hextra, true_imp_iff]
      have hmapped : ∀ a, segment.vaddr.toNat + segment.filesz.toNat ≤ a ∧ a < fileEnd k segment →
          protect s.prot (base (2 ^ k) segment.vaddr.toNat)
            (fileEnd k segment - base (2 ^ k) segment.vaddr.toNat)
            (protOf program segment.flags) a = protOf program segment.flags := by
        intro a ha
        apply if_pos
        unfold InMapping
        omega
      rw [← h.mappedFile_accessible_iff file s.space, ← protOf_writable_iff program]
      constructor
      · intro hall
        refine ⟨?_, fun a ha => (hall a ha).1⟩
        have hfirst := (hall _ ⟨Nat.le_refl _, hfile⟩).2
        change protect s.prot _ _ _ _ &&& 2 ≠ 0 at hfirst
        rwa [hmapped _ ⟨Nat.le_refl _, hfile⟩] at hfirst
      · rintro ⟨hflags, hall⟩ a ha
        refine ⟨hall a ha, ?_⟩
        change protect s.prot _ _ _ _ &&& 2 ≠ 0
        rwa [hmapped a ha]
    · have hcontent : ∀ mem, clear mem _ _ = fun a =>
          if segment.vaddr.toNat + segment.filesz.toNat ≤ a ∧ a < fileEnd k segment then 0
          else mem a := fun mem => funext fun a => by
        rw [clear_exact hsorted hwhole a]
        simp only [hin]
      unfold AddressSpace.clear
      rw [hcontent]
      rfl
  · have hclear := hm.clearLength_eq
    rw [if_neg hextra] at hclear
    have hzero : m.clearLength = 0 := BitVec.eq_of_toNat_eq hclear
    have hnone : m.clearLength.setWidth program.wordBits = 0 := by
      rw [hzero]
      exact BitVec.setWidth_zero ..
    rw [hnone, if_neg (not_not_intro rfl), if_neg hextra]
    exact (and_iff_right fun hlt => absurd hlt hextra).symm

/-- What the loader makes of the anonymous mapping. -/
theorem Placed.loads_anonymous (h : Placed cpu k segment) {m : Mapping cpu}
    (hm : IsAnonymousMapping k segment m) (file : List Byte) (s s' : AddressSpace program) :
    Loads program (2 ^ k) file m s s' ↔
      s' = s.mmapAnonymous (fileEnd k segment) (memEnd k segment - fileEnd k segment)
        (protOf program segment.flags) := by
  obtain ⟨hbase, hfile, hmem, hfileMax, hmemMax, hle⟩ := h.ends
  have hfits := h.fits
  have hfilesz := h.filesz_le
  have haddr := toNat_setWidth program hm.addr_eq (by omega)
  have hlength := toNat_setWidth program hm.length_eq (by omega)
  have hprot : m.prot.setWidth program.wordBits = protOf program segment.flags := by
    rw [hm.prot_eq]
    exact protOf_setWidth ..
  unfold Loads
  dsimp only
  rw [if_pos hm.flags_eq, haddr, hlength, hprot]

/-- The pages after the segment was loaded. -/
def loadedSpace (k : ℕ) (segment : Segment program) (file : List Byte) (s : Space) : Space :=
  if segment.filesz.toNat < segment.memsz.toNat then
    if fileEnd k segment < memEnd k segment then
      (clearedFile k segment file s).mmapAnonymous (fileEnd k segment)
        (memEnd k segment - fileEnd k segment)
    else clearedFile k segment file s
  else mappedFile k segment file s

/-- The memory after the segment was loaded. -/
def loadedSegment (k : ℕ) (segment : Segment program) (file : List Byte) (s : AddressSpace program) :
    AddressSpace program where
  space := loadedSpace k segment file s.space
  prot a := if InPages k segment a then protOf program segment.flags else s.prot a

/-- What is added for a segment. -/
def IsAdded (k : ℕ) (segment : Segment program) (added : List (Mapping cpu)) : Prop :=
  ∃ file, IsFileMapping k segment file ∧
    if segment.filesz.toNat < segment.memsz.toNat ∧ fileEnd k segment < memEnd k segment then
      ∃ anonymous, IsAnonymousMapping k segment anonymous ∧ added = [file, anonymous]
    else added = [file]

section Added

variable {added : List (Mapping cpu)}

/-- The addresses of the mappings reach from the page of the segment to the end of its memory. -/
theorem Placed.inMapping_iff (h : Placed cpu k segment) (hadded : IsAdded k segment added)
    (a : ℕ) :
    (∃ m ∈ added, InMapping m.addr.toNat m.length.toNat a) ↔
      base (2 ^ k) segment.vaddr.toNat ≤ a ∧ a < memEnd k segment := by
  obtain ⟨hbase, hfile, hmem, -, -, hle⟩ := h.ends
  have hstart := base_mono (2 ^ k) (Nat.le_add_right segment.vaddr.toNat segment.filesz.toNat)
  obtain ⟨file, hfileMapping, hadded⟩ := hadded
  by_cases hboth : segment.filesz.toNat < segment.memsz.toNat ∧
      fileEnd k segment < memEnd k segment
  · rw [if_pos hboth] at hadded
    obtain ⟨anonymous, hanonymous, rfl⟩ := hadded
    simp only [List.mem_cons, List.not_mem_nil, or_false, exists_eq_or_imp, exists_eq_left,
      InMapping, hfileMapping.addr_eq, hfileMapping.length_eq, hanonymous.addr_eq,
      hanonymous.length_eq]
    omega
  · rw [if_neg hboth] at hadded
    subst hadded
    have hsame : memEnd k segment = fileEnd k segment := by
      rcases Nat.lt_or_ge segment.filesz.toNat segment.memsz.toNat with hlt | hge
      · have := fun hends => hboth ⟨hlt, hends⟩
        omega
      · rw [memEnd, fileEnd, Nat.le_antisymm h.filesz_le hge]
    simp only [List.mem_singleton, exists_eq_left, InMapping, hfileMapping.addr_eq,
      hfileMapping.length_eq, hsame]
    omega

/-- Every page of the mappings has a byte of the segment. -/
theorem EndsWithinPages.tight (hends : EndsWithinPages k segment) {page : ℕ}
    (hpage : 2 ^ k ∣ page) (hle : base (2 ^ k) segment.vaddr.toNat ≤ page)
    (hlt : page < memEnd k segment) : ∃ a, InSegment segment a ∧ InMapping page (2 ^ k) a := by
  have hpos := Nat.two_pow_pos k
  obtain ⟨hmemsz, -, hmemEnd⟩ := hends
  have hlast := le_base_of_lt hpage hlt
  have hwithin := base_lt hmemEnd
  rcases Nat.lt_or_ge segment.vaddr.toNat page with habove | hbelow
  · exact ⟨page, ⟨by omega, by omega⟩, Nat.le_refl _, by omega⟩
  · have hfirst := lt_base_add hpos segment.vaddr.toNat
    exact ⟨segment.vaddr.toNat, ⟨Nat.le_refl _, by omega⟩, hbelow, by omega⟩

/-- The bytes of the file are mapped to the segment. -/
theorem Placed.mappedFile_content (h : Placed cpu k segment) (file : List Byte) (s : Space)
    {a : ℕ} (ha : segment.vaddr.toNat ≤ a) (hend : a < fileEnd k segment) :
    (mappedFile k segment file s).content a =
      file.getD (segment.offset.toNat + (a - segment.vaddr.toNat)) 0 := by
  have hbase := base_le (2 ^ k) segment.vaddr.toNat
  have hin : InMapping (base (2 ^ k) segment.vaddr.toNat)
      (fileEnd k segment - base (2 ^ k) segment.vaddr.toNat) a := by
    unfold InMapping
    omega
  simp only [mappedFile, Space.mmapFile, if_pos hin]
  rw [h.offset_eq ha]

/-- Behind the bytes of the file there are zeros up to the end of the mapping. -/
theorem Placed.clearedFile_content (h : Placed cpu k segment) (file : List Byte) (s : Space)
    {a : ℕ} (ha : segment.vaddr.toNat ≤ a) (hend : a < fileEnd k segment) :
    (clearedFile k segment file s).content a =
      if a < segment.vaddr.toNat + segment.filesz.toNat then
        file.getD (segment.offset.toNat + (a - segment.vaddr.toNat)) 0
      else 0 := by
  unfold clearedFile
  dsimp only
  by_cases hbytes : a < segment.vaddr.toNat + segment.filesz.toNat
  · rw [if_neg (by omega), if_pos hbytes, h.mappedFile_content file s ha hend]
  · rw [if_pos (by omega), if_neg hbytes]

/-- The mappings of a segment load it, unless there is something that cannot be cleared. -/
theorem Placed.loadsAll_iff (h : Placed cpu k segment) (hadded : IsAdded k segment added)
    {file : List Byte} {s s' : AddressSpace program} :
    LoadsAll program (2 ^ k) file added s s' ↔
      Clearable k segment file ∧ s' = loadedSegment k segment file s := by
  obtain ⟨hbase, hfile, hmem, -, -, hle⟩ := h.ends
  have hstart := base_mono (2 ^ k) (Nat.le_add_right segment.vaddr.toNat segment.filesz.toNat)
  obtain ⟨mapping, hmapping, hadded⟩ := hadded
  by_cases hboth : segment.filesz.toNat < segment.memsz.toNat ∧ fileEnd k segment < memEnd k segment
  · rw [if_pos hboth] at hadded
    obtain ⟨anonymous, hanonymous, rfl⟩ := hadded
    have hloaded : (loadedFile k segment file s).mmapAnonymous (fileEnd k segment)
        (memEnd k segment - fileEnd k segment) (protOf program segment.flags) =
          loadedSegment k segment file s := by
      refine AddressSpace.ext ?_ (funext fun a => ?_)
      · change Space.mmapAnonymous (if _ then _ else _) _ _ = loadedSpace k segment file s.space
        rw [loadedSpace, if_pos hboth.1, if_pos hboth.1, if_pos hboth.2]
      · change protect (protect s.prot _ _ _) _ _ _ a = if InPages k segment a then _ else _
        unfold protect
        by_cases hbehind : InMapping (fileEnd k segment) (memEnd k segment - fileEnd k segment) a
        · rw [if_pos hbehind, if_pos]
          unfold InMapping at hbehind
          unfold InPages
          omega
        · rw [if_neg hbehind]
          apply ite_congr (propext ?_) (fun _ => rfl) fun _ => rfl
          unfold InMapping at hbehind ⊢
          unfold InPages
          omega
    simp only [loadsAll_cons_iff, loadsAll_nil_iff, h.loads_file hmapping,
      h.loads_anonymous hanonymous, and_assoc, exists_and_left, exists_eq_left, hloaded]
  · rw [if_neg hboth] at hadded
    subst hadded
    have hsame : memEnd k segment = fileEnd k segment := by
      rcases Nat.lt_or_ge segment.filesz.toNat segment.memsz.toNat with hlt | hge
      · exact Nat.le_antisymm (Nat.le_of_not_lt fun hends => hboth ⟨hlt, hends⟩) hle
      · rw [memEnd, fileEnd, Nat.le_antisymm h.filesz_le hge]
    have hloaded : loadedFile k segment file s = loadedSegment k segment file s := by
      refine AddressSpace.ext ?_ (funext fun a => ?_)
      · change (if _ then _ else _) = loadedSpace k segment file s.space
        rw [loadedSpace, hsame, if_neg (Nat.lt_irrefl _)]
      · change protect s.prot _ _ _ a = if InPages k segment a then _ else _
        apply ite_congr (propext ?_) (fun _ => rfl) fun _ => rfl
        unfold InMapping InPages
        omega
    simp only [loadsAll_cons_iff, loadsAll_nil_iff, h.loads_file hmapping, and_assoc,
      exists_and_left, exists_eq_left, hloaded]

/-- A segment that is loaded is at its address. -/
theorem Placed.loadedSpace_holds (h : Placed cpu k segment) {file : List Byte}
    (hfile : segment.offset.toNat + segment.filesz.toNat ≤ file.length)
    (hclearable : Clearable k segment file) (s : Space) :
    HoldsSegment segment file (loadedSpace k segment file s) := by
  obtain ⟨hbase, hfileEnd, hmemEnd, -, -, hle⟩ := h.ends
  rintro a ⟨hstart, hend⟩
  unfold loadedSpace
  rcases Nat.lt_or_ge a (fileEnd k segment) with hbelow | habove
  · have hin : InMapping (base (2 ^ k) segment.vaddr.toNat)
        (fileEnd k segment - base (2 ^ k) segment.vaddr.toNat) a := by
      unfold InMapping
      omega
    have hout : ¬InMapping (fileEnd k segment) (memEnd k segment - fileEnd k segment) a :=
      fun hin => Nat.not_le_of_lt hbelow hin.1
    have haccessible : (mappedFile k segment file s).accessible a := by
      rcases Nat.lt_or_ge a (segment.vaddr.toNat + segment.filesz.toNat) with hbytes | hbehind
      · simp only [mappedFile, Space.mmapFile, if_pos hin]
        rw [h.offset_eq hstart]
        apply Nat.lt_of_le_of_lt (base_le ..)
        omega
      · have hpages := (hclearable (by omega)).2
        exact (h.mappedFile_accessible_iff file s).mpr hpages a ⟨hbehind, hbelow⟩
    have hcontent := h.clearedFile_content file s hstart hbelow
    by_cases hextra : segment.filesz.toNat < segment.memsz.toNat
    · rw [if_pos hextra]
      by_cases hanonymous : fileEnd k segment < memEnd k segment
      · rw [if_pos hanonymous]
        exact ⟨Or.inr haccessible, (if_neg hout).trans hcontent⟩
      · rw [if_neg hanonymous]
        exact ⟨haccessible, hcontent⟩
    · have hbytes : a < segment.vaddr.toNat + segment.filesz.toNat := by omega
      rw [if_neg hextra, if_pos hbytes]
      exact ⟨haccessible, h.mappedFile_content file s hstart hbelow⟩
  · have hextra : segment.filesz.toNat < segment.memsz.toNat := by omega
    have hin : InMapping (fileEnd k segment) (memEnd k segment - fileEnd k segment) a := by
      unfold InMapping
      omega
    rw [if_pos hextra, if_pos (by omega), if_neg (by omega)]
    simp only [Space.mmapAnonymous, if_pos hin, and_true]
    exact Or.inl hin

/-- What must be cleared can be if it can be written and the bytes of the file end within a page. -/
theorem Placed.clearable (h : Placed cpu k segment) {file : List Byte}
    (hfile : segment.offset.toNat + segment.filesz.toNat ≤ file.length)
    (hends : ¬2 ^ k ∣ segment.vaddr.toNat + segment.filesz.toNat)
    (hwritable : ClearedWritable segment) : Clearable k segment file := by
  intro hextra
  refine ⟨hwritable hextra, Nat.lt_of_lt_of_le (base_lt ?_) hfile⟩
  have hcongruent : (segment.vaddr.toNat + segment.filesz.toNat) % 2 ^ k =
      (segment.offset.toNat + segment.filesz.toNat) % 2 ^ k := by
    rw [Nat.add_mod, h.congruent, ← Nat.add_mod]
  rwa [Nat.dvd_iff_mod_eq_zero, ← hcongruent, ← Nat.dvd_iff_mod_eq_zero]

/-- The mappings have the shape that is promised, whatever the segment is. -/
theorem Placed.follows (h : Placed cpu k segment) (hadded : IsAdded k segment added) :
    FollowsFile added ∧ ∀ m ∈ added, 2 ^ k ∣ m.addr.toNat ∧ 2 ^ k ∣ m.length.toNat := by
  obtain ⟨hbase, hfileEnd, -, -, -, hle⟩ := h.ends
  obtain ⟨file, hfile, hadded⟩ := hadded
  have hclear : file.clearLength.toNat ≤ file.length.toNat := by
    rw [hfile.clearLength_eq, hfile.length_eq]
    split <;> omega
  have hfileAligned : 2 ^ k ∣ file.addr.toNat ∧ 2 ^ k ∣ file.length.toNat := by
    rw [hfile.addr_eq, hfile.length_eq]
    exact ⟨dvd_base .., Nat.dvd_sub dvd_fileEnd (dvd_base ..)⟩
  have hend : file.addr.toNat + file.length.toNat = fileEnd k segment := by
    rw [hfile.addr_eq, hfile.length_eq]
    omega
  split at hadded
  · obtain ⟨anonymous, hanonymous, rfl⟩ := hadded
    refine ⟨⟨file, [anonymous], rfl, Nat.le_refl _, hfile.flags_eq, hclear, ?_⟩, ?_⟩
    · rw [List.forall_mem_singleton]
      exact ⟨hanonymous.flags_eq, by rw [hanonymous.addr_eq, hend]⟩
    · rw [List.forall_mem_cons, List.forall_mem_singleton, hanonymous.addr_eq,
        hanonymous.length_eq]
      exact ⟨hfileAligned, dvd_fileEnd, Nat.dvd_sub dvd_memEnd dvd_fileEnd⟩
  · subst hadded
    refine ⟨⟨file, [], rfl, Nat.zero_le _, hfile.flags_eq, hclear,
      fun m hm => absurd hm List.not_mem_nil⟩, ?_⟩
    rw [List.forall_mem_singleton]
    exact hfileAligned

/-- Some file with the bytes of a segment, which ends with them, is loaded. -/
theorem MapsSegment.clearable (h : Placed cpu k segment) (hadded : IsAdded k segment added)
    (hmaps : MapsSegment k segment added) :
    Clearable k segment (List.replicate (segment.offset.toNat + segment.filesz.toNat) 0) := by
  obtain ⟨s', hloads, -⟩ := hmaps.loads
    (List.replicate (segment.offset.toNat + segment.filesz.toNat) 0)
    ⟨⟨fun _ => 0, fun _ => True⟩, fun _ => 0⟩ (Nat.le_of_eq List.length_replicate.symm)
  exact ((h.loadsAll_iff hadded).mp hloads).1

/-- A page without a byte of the segment, or one that is not in the file and cannot be cleared, is found
where the ends are not within pages. -/
theorem Placed.endsWithinPages (h : Placed cpu k segment) (hadded : IsAdded k segment added)
    (hmaps : MapsSegment k segment added) : EndsWithinPages k segment := by
  obtain ⟨hbase, hfile, hmem, -, -, hle⟩ := h.ends
  have hmemEnd : ¬2 ^ k ∣ segment.vaddr.toNat + segment.memsz.toNat := by
    intro hdvd
    have hin := (h.inMapping_iff hadded (segment.vaddr.toNat + segment.memsz.toNat)).mpr
      ⟨by omega, hmem⟩
    obtain ⟨a, hsegment, hpage⟩ := hmaps.tight _ hdvd hin
    exact absurd hsegment.2 (Nat.not_lt_of_le hpage.1)
  refine ⟨?_, ?_, hmemEnd⟩
  · have hin := (h.inMapping_iff hadded (base (2 ^ k) segment.vaddr.toNat)).mpr
      ⟨Nat.le_refl _, by omega⟩
    obtain ⟨a, hsegment, -⟩ := hmaps.tight _ (dvd_base ..) hin
    unfold InSegment at hsegment
    omega
  · intro hdvd
    rcases Nat.lt_or_ge segment.filesz.toNat segment.memsz.toNat with hlt | hge
    · -- The file ends with the segment, so there is nothing that could be cleared behind it.
      have hpage := ((hmaps.clearable h hadded) hlt).2
      have hdvdFile : 2 ^ k ∣ segment.offset.toNat + segment.filesz.toNat := by
        rw [Nat.dvd_iff_mod_eq_zero] at hdvd ⊢
        rwa [Nat.add_mod, ← h.congruent, ← Nat.add_mod]
      rw [base_of_dvd hdvdFile, List.length_replicate] at hpage
      exact Nat.lt_irrefl _ hpage
    · exact hmemEnd (Nat.le_antisymm h.filesz_le hge ▸ hdvd)

/-- The mappings are what the segment needs exactly if neither end is that of a page and what must be
cleared can be written. -/
theorem Placed.mapsSegment_iff (h : Placed cpu k segment) (hadded : IsAdded k segment added) :
    MapsSegment k segment added ↔ EndsWithinPages k segment ∧ ClearedWritable segment := by
  refine ⟨fun hmaps => ⟨h.endsWithinPages hadded hmaps, fun hextra => ?_⟩, fun hends => ?_⟩
  · exact ((hmaps.clearable h hadded) hextra).1
  · obtain ⟨hends, hwritable⟩ := hends
    obtain ⟨hfollows, haligned⟩ := h.follows hadded
    refine ⟨hfollows, haligned, fun a ha => ?_, fun page hpage hin => ?_, fun file s hfile => ?_⟩
    · obtain ⟨hbase, -, hmemEnd, -, -, -⟩ := h.ends
      exact (h.inMapping_iff hadded a).mpr
        ⟨Nat.le_trans hbase ha.1, Nat.lt_trans ha.2 hmemEnd⟩
    · obtain ⟨hle, hlt⟩ := (h.inMapping_iff hadded page).mp hin
      exact hends.tight hpage hle hlt
    · have hclearable := h.clearable hfile hends.2.1 hwritable
      exact ⟨_, (h.loadsAll_iff hadded).mpr ⟨hclearable, rfl⟩,
        h.loadedSpace_holds hfile hclearable s.space⟩

/-- What is appended is what is added for the segment. -/
theorem Placed.isAdded (h : Placed cpu k segment) {alloc : ℕ → Bool}
    {mappings : Option (List (Mapping cpu))} {new : List (Mapping cpu)}
    (hrun : addMapping (BitVec.ofNat _ (2 ^ k)) alloc mappings segment = .ok new) :
    ∃ added, new = mappings.getD [] ++ added ∧ IsAdded k segment added := by
  obtain ⟨file, hfile, hnew⟩ := h.addMapping_ok hrun
  by_cases hboth : segment.filesz.toNat < segment.memsz.toNat ∧
      fileEnd k segment < memEnd k segment
  · rw [if_pos hboth] at hnew
    obtain ⟨anonymous, hanonymous, rfl⟩ := hnew
    exact ⟨_, rfl, file, hfile, by rw [if_pos hboth]; exact ⟨anonymous, hanonymous, rfl⟩⟩
  · rw [if_neg hboth] at hnew
    exact ⟨_, hnew, file, hfile, by rw [if_neg hboth]⟩

end Added

end Segment

/-- The mappings that are added for a segment are what it needs exactly if it is not empty, neither of
its ends is that of a page, and it can be written if there are bytes behind those of the file. -/
theorem addMapping_mapsSegment_iff {cpu program : Cpu} {k : ℕ} {segment : Segment program}
    (h : Placed cpu k segment) {alloc : ℕ → Bool} {mappings : Option (List (Mapping cpu))}
    {new : List (Mapping cpu)}
    (hrun : addMapping (BitVec.ofNat _ (2 ^ k)) alloc mappings segment = .ok new) :
    (∃ added, new = mappings.getD [] ++ added ∧ MapsSegment k segment added) ↔
      EndsWithinPages k segment ∧ ClearedWritable segment := by
  obtain ⟨added, rfl, hadded⟩ := h.isAdded hrun
  rw [← h.mapsSegment_iff hadded]
  constructor
  · rintro ⟨added', heq, hmaps⟩
    rwa [List.append_cancel_left heq]
  · intro hmaps
    exact ⟨added, rfl, hmaps⟩

/-- A segment with some bytes of the file and pages of zeros. -/
def dataSegment : Segment .arm64 := ⟨0x1234, 0x5234, 0x10, 0x3010, 6⟩

/-- The segment is placed. -/
theorem dataSegment_placed : Placed .arm64 12 dataSegment :=
  ⟨by decide, by decide, by decide, by decide, by decide, by decide⟩

/-- The segment gets the pages it needs. -/
theorem addMapping_mapsSegment_iff_data : ∃ new added : List (Mapping .arm64),
    addMapping (BitVec.ofNat _ (2 ^ 12)) (fun _ => true) none dataSegment = .ok new ∧
      new = [] ++ added ∧ MapsSegment 12 dataSegment added := by
  obtain ⟨new, hrun⟩ : ∃ new : List (Mapping .arm64),
      addMapping (BitVec.ofNat _ (2 ^ 12)) (fun _ => true) none dataSegment = .ok new := ⟨_, rfl⟩
  obtain ⟨added, hadded⟩ := (addMapping_mapsSegment_iff dataSegment_placed hrun).mpr
    ⟨⟨by decide, by decide, by decide⟩, fun _ => by decide⟩
  exact ⟨new, added, hrun, hadded⟩

/-- A segment of a whole page. -/
def pageSegment : Segment .arm64 := ⟨0x1000, 0x5000, 0x1000, 0x1000, 4⟩

/-- So is the one of whole pages. -/
theorem pageSegment_placed : Placed .arm64 12 pageSegment :=
  ⟨by decide, by decide, by decide, by decide, by decide, by decide⟩

/-- A whole page gets a second one, which holds no byte of the segment. -/
theorem wholePage_extraPage :
    ¬∀ (cpu program : Cpu) (k : ℕ) (segment : Segment program), Placed cpu k segment →
      ∀ (alloc : ℕ → Bool) (mappings : Option (List (Mapping cpu))) (new : List (Mapping cpu)),
        addMapping (BitVec.ofNat _ (2 ^ k)) alloc mappings segment = .ok new →
          ∃ added, new = mappings.getD [] ++ added ∧ MapsSegment k segment added := by
  intro hall
  obtain ⟨new, hrun⟩ : ∃ new : List (Mapping .arm64),
      addMapping (BitVec.ofNat _ (2 ^ 12)) (fun _ => true) none pageSegment = .ok new := ⟨_, rfl⟩
  obtain ⟨added, hnew, hadded⟩ := pageSegment_placed.isAdded hrun
  obtain ⟨added', hnew', hmaps⟩ := hall _ _ _ _ pageSegment_placed _ _ _ hrun
  rw [List.append_cancel_left (hnew'.symm.trans hnew)] at hmaps
  exact absurd ((pageSegment_placed.mapsSegment_iff hadded).mp hmaps).1.2.1 (by decide)

end Abyss.Execve
