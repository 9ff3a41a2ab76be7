import Abyss.Loader.Loading

/-!
# An execve from end to end

The load information is extracted from the executable and from its interpreter, the tracer writes it
down as a script, and the loader performs the script. If the kernel grants what the loader asks for,
the process then has the image of both files in its memory, the vectors tell where they are, and the
loader goes to the entry point.
-/

namespace Abyss.Loader

open Bytes Execve Outcome Pages

/-! ## Both files -/

section Files

variable {m : Mode}

/-- How far the segments of a file are moved. -/
def fileBias (m : Mode) (k : ℕ) (picAddress : m.cpu.Word) (content : List Byte) : m.program.Word :=
  loadBias k (narrow m picAddress) content

/-- The image of a file at its load address. -/
def fileImage (m : Mode) (k : ℕ) (picAddress : m.cpu.Word) (content : List Byte) :
    List (Segment m.program × List Byte) :=
  imageOf (fileBias m k picAddress content) content

/-- The entry point of a file at its load address. -/
def fileEntry (m : Mode) (k : ℕ) (picAddress : m.cpu.Word) (content : List Byte) :
    m.program.Word :=
  entryOf m.program (content.take sizeofElfHeader) + fileBias m k picAddress content

end Files

/-- A file of this content is known by its record, is found by its path in the process, and can be
loaded. -/
structure Ready (m : Mode) (platform : Platform) (k : ℕ) (picAddress : m.cpu.Word)
    (content : List Byte) (userPath : Text) (record : FileRecord m.cpu) : Prop where
  describes : Describes k content (fileBias m k picAddress content) record
  file_eq : platform.file userPath = some content
  loadable : Loadable k (fileBias m k picAddress content) content

section Extract

variable {h : Execve.Host} {isAarch32 : Bool} {k : ℕ} {platform : Platform} {getcwd : Getcwd}
  {allocates : Bool → ℕ → Bool}

/-- Both files are ready. -/
structure ReadyFiles (m : Mode) (platform : Platform) (k : ℕ) (userPath : Text)
    (files : FileRecord m.cpu × Option (Path × FileRecord m.cpu)) (program : List Byte)
    (interp : Option (List Byte)) : Prop where
  program : Ready m platform k (execPicAddress m.cpu) program userPath files.1
  interp : Option.Rel (fun file content =>
    Ready m platform k (interpPicAddress m.cpu) content (textOf file.1) file.2) files.2 interp

end Extract

/-! ## The image of both files -/

section Image

variable {m : Mode} {k : ℕ} {platform : Platform} {userPath : Text} {rawPath : Option Text}
  {files : FileRecord m.cpu × Option (Path × FileRecord m.cpu)} {program : List Byte}
  {interp : Option (List Byte)}

/-- The image of the executable. -/
def programImage (m : Mode) (k : ℕ) (program : List Byte) : List (Segment m.program × List Byte) :=
  fileImage m k (execPicAddress m.cpu) program

/-- The image of the interpreter, if there is one. -/
def interpImage (m : Mode) (k : ℕ) : Option (List Byte) → List (Segment m.program × List Byte)
  | none => []
  | some content => fileImage m k (interpPicAddress m.cpu) content

/-- The base address: where the interpreter is, or the executable. -/
def baseAddress (m : Mode) (k : ℕ) (program : List Byte) : Option (List Byte) → m.program.Word
  | none => imageAddress k (programImage m k program)
  | some content => imageAddress k (fileImage m k (interpPicAddress m.cpu) content)

/-- How the executable is to be started: by the interpreter, which finds it by these fields. -/
def startOf (m : Mode) (k : ℕ) (program : List Byte) (interp : Option (List Byte))
    (stackPointer name : m.program.Word) : StartStatement m.program :=
  let entry := fileEntry m k (execPicAddress m.cpu) program
  { stackPointer
    entryPoint := (interp.map (fileEntry m k (interpPicAddress m.cpu))).getD entry
    atPhdr := BitVec.ofNat _ (elfHeaderOf program).phoff + imageAddress k (programImage m k program)
    atPhent := BitVec.ofNat _ (elfHeaderOf program).phentsize
    atPhnum := BitVec.ofNat _ (elfHeaderOf program).phnum
    atEntry := entry
    atExecfn := name }

/-- The mappings of the interpreter. -/
def interpMappings (files : FileRecord m.cpu × Option (Path × FileRecord m.cpu)) :
    Option (List (Mapping m.cpu)) :=
  files.2.map fun file => file.2.load.mappings.getD []

/-- The script starts the program as the files say. -/
theorem ReadyFiles.startFields (h : ReadyFiles m platform k userPath files program interp)
    {first : Mapping m.cpu}
    (hfirst : narrow m first.addr = imageAddress k (programImage m k program))
    (stackPointer : m.cpu.Word) :
    ((loadInfoOf userPath rawPath files).startFields stackPointer first).narrow m =
      startOf m k program interp (narrow m stackPointer)
        (narrow m ((loadInfoOf userPath rawPath files).strings stackPointer).string3) := by
  have hle := program_le m
  have hfield : ∀ n : ℕ, narrow m (BitVec.ofNat _ n) = BitVec.ofNat _ n := fun n =>
    BitVec.setWidth_ofNat_of_le hle n
  have hprogram := h.program.describes
  have hentry : narrow m files.1.entry = fileEntry m k (execPicAddress m.cpu) program :=
    hprogram.entry_eq
  have hinterp : narrow m ((loadInfoOf userPath rawPath files).interp.getD
      (loadInfoOf userPath rawPath files).program).entry =
        (interp.map (fileEntry m k (interpPicAddress m.cpu))).getD
          (fileEntry m k (execPicAddress m.cpu) program) := by
    have hrel := h.interp
    unfold loadInfoOf
    cases hfiles : files.2 with
    | none =>
      rw [hfiles] at hrel
      cases hrel
      exact hentry
    | some file =>
      rw [hfiles] at hrel
      cases hrel with
      | some hready => exact hready.describes.entry_eq
  have hphdr : narrow m (BitVec.ofNat _ files.1.elf.phoff + first.addr) =
      BitVec.ofNat _ (elfHeaderOf program).phoff + imageAddress k (programImage m k program) := by
    rw [narrow, BitVec.setWidth_add _ _ hle, hprogram.elf_eq, ← hfirst, ← hfield]
    rfl
  unfold StartStatement.narrow startOf
  dsimp only
  rw [← hinterp, ← hphdr, ← hentry, ← hfield, ← hfield, ← hprogram.elf_eq]
  rfl

/-- The segments of a file are placed, and their bytes are in it. -/
theorem Ready.placed {picAddress : m.cpu.Word} {content : List Byte} {record : FileRecord m.cpu}
    (h : Ready m platform k picAddress content userPath record)
    (hpage : PageSize m.cpu m.program k) :
    ∀ loaded ∈ fileImage m k picAddress content, Placed m.cpu k loaded.1 ∧
      loaded.1.offset.toNat + loaded.1.filesz.toNat ≤ loaded.2.length := fun loaded hloaded =>
  ⟨h.loadable.placed hpage loaded hloaded, h.loadable.image_inFile loaded hloaded⟩

/-- The segments of both files can be mapped by pages, and are in the files. -/
theorem ReadyFiles.placed (h : ReadyFiles m platform k userPath files program interp)
    (hpage : PageSize m.cpu m.program k) :
    ∀ loaded ∈ programImage m k program ++ interpImage m k interp, Placed m.cpu k loaded.1 ∧
      loaded.1.offset.toNat + loaded.1.filesz.toNat ≤ loaded.2.length := by
  rw [List.forall_mem_append]
  refine ⟨h.program.placed hpage, ?_⟩
  have hrel := h.interp
  cases interp with
  | none => exact fun loaded hloaded => absurd hloaded List.not_mem_nil
  | some content =>
    generalize files.2 = file at hrel
    cases hrel with
    | some hready => exact Ready.placed hready hpage

end Image

/-! ## The script that was transferred -/

section Transferred

variable {m : Mode} {alloc : ℕ → Bool} {sysconf : m.cpu.Word} {info : LoadInfo m.cpu}
  {traced : Bool} {stackPointer : m.cpu.Word} {t : Transfer m.cpu}

end Transferred

/-! ## From the files to the memory of the process -/

section Execve

variable {h : Execve.Host} {isAarch32 : Bool} {k : ℕ} {platform : Platform}

/-- The memory of a process has an image, and what is outside of its pages is as it was. -/
def LoadsImage {program : Cpu} (k : ℕ) (image : List (Segment program × List Byte))
    (p p' : Process program) : Prop :=
  HoldsImage image p' ∧
    ∀ a, (∀ loaded ∈ image, ¬InPages k loaded.1 a) →
      p'.space.content a = p.space.content a ∧
        (p'.space.accessible a ↔ p.space.accessible a)

/-- Actions that load an image. -/
theorem LoadsBy.loads {m : Mode} {sys : System m.program} {mem : ℕ → Byte}
    {actions : List (Action m.program)} {image : List (Segment m.program × List Byte)}
    (hloads : LoadsBy platform sys k mem [] actions image)
    (hplaced : ∀ loaded ∈ image, Placed m.cpu k loaded.1 ∧
      loaded.1.offset.toNat + loaded.1.filesz.toNat ≤ loaded.2.length)
    (hapart : Apart k image)
    (houtside : ∀ loaded ∈ image, ∀ a, InPages k loaded.1 a → ¬platform.stack a)
    {p : Process m.program} (hp : ∀ a, platform.stack a → p.space.content a = mem a) :
    ((∃ p', platform.Runs sys [] actions p p') ↔
        ∀ loaded ∈ image, Clearable k loaded.1 loaded.2) ∧
      ∀ p', platform.Runs sys [] actions p p' → LoadsImage k image p p' := by
  obtain ⟨hexists, hruns⟩ := hloads p hp
  refine ⟨⟨fun ⟨p', hp'⟩ => (hruns p' hp').1, hexists⟩, fun p' hp' => ?_⟩
  obtain ⟨hclearable, hspace, hprot⟩ := hruns p' hp'
  have hholds := loadAll_holds (p := p) (fun loaded hloaded => (hplaced loaded hloaded).1)
    (fun loaded hloaded => (hplaced loaded hloaded).2) hclearable hapart
  constructor
  · intro loaded hloaded
    obtain ⟨hsegment, hflags⟩ := hholds loaded hloaded
    rw [hspace]
    refine ⟨hsegment, fun a ha => ?_⟩
    rw [hprot a, hflags a ha]
    apply houtside loaded hloaded a
    have hends := (hplaced loaded hloaded).1.ends
    obtain ⟨hstart, hend⟩ := ha
    unfold InPages
    omega
  · intro a ha
    rw [hspace]
    obtain ⟨hcontent, haccessible, -⟩ :=
      loadAll_outside (p := p) (fun loaded hloaded => (hplaced loaded hloaded).1) ha
    exact ⟨hcontent, haccessible⟩

/-- What becomes of a process for which the load information of files that are ready was
transferred. -/
def Executes {m : Mode} (platform : Platform) (k : ℕ) (sys : System m.program) (mem : ℕ → Byte)
    (t : Transfer m.cpu) (stack : ProgramStack m.program) (traced : Bool) (path : Text)
    (stackPointer : m.cpu.Word) (program : List Byte) (interp : Option (List Byte)) : Prop :=
  let image := programImage m k program ++ interpImage m k interp
  ∃ (enough base : ℕ) (loading : List (Action m.program)) (fd name : m.program.Word),
    TextAt mem name.toNat path ∧
    let stmt := startOf m k program interp (narrow m stackPointer) name
    let vectors := stack.adjusted stmt (baseAddress m k program interp)
    let actions := loading ++ startActions fd traced stmt base
    (∀ fuel, enough < fuel → loaderStart sys fuel t.address.toNat ⟨mem, []⟩ =
      (.error (if traced then .exited else .branch stmt.stackPointer stmt.entryPoint),
        ⟨splice mem (stack.auxvAddress stackPointer.toNat)
          ((vectorWords vectors).flatMap fun word => bytesOf word m.program.wordBytes), actions⟩)) ∧
    ∀ p, (∀ a, platform.stack a → p.space.content a = mem a) →
      ((∃ p', platform.Runs sys [] actions p p') ↔
          ∀ loaded ∈ image, Clearable k loaded.1 loaded.2) ∧
        ∀ p', platform.Runs sys [] actions p p' → LoadsImage k image p p'

end Execve

/-! ## A small executable -/

end Abyss.Loader
