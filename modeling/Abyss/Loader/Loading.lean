import Abyss.Loader.Image

/-!
# The actions for a file

If the kernel grants what the loader asks for, the loader performs a script by a list of actions:
each file is opened and mapped, and the start of the program leaves the memory as it is. The actions
for a file load its segments at the addresses to which they were moved.
-/

namespace Abyss.Loader

open Machine Bytes Execve Pages

/-! ## The script is performed -/

section Moved

variable {m : Mode}

/-- The words of the program are not wider than those of the tracer. -/
theorem program_le (m : Mode) : m.program.wordBits ≤ m.cpu.wordBits := by
  obtain ⟨cpu, isAarch32⟩ := m
  cases cpu <;> cases isAarch32 <;> decide

end Moved

section Perform

variable {m : Mode} {sys : System m.program} {mem : ℕ → Byte} {done : List (Action m.program)}
  {platform : Platform}

/-- The actions at the start of the program. -/
def startActions {cpu : Cpu} (fd : cpu.Word) (traced : Bool) (stmt : StartStatement cpu)
    (name : ℕ) : List (Action cpu) :=
  [.syscall (syscallNumbers cpu).close [fd],
    .syscall (syscallNumbers cpu).prctl [BitVec.ofNat _ prSetName, BitVec.ofNat _ name, 0]] ++
  if traced then
    [.syscall (syscallNumbers cpu).execve [1, stmt.stackPointer, stmt.entryPoint, 2, 3, 4],
      .syscall (syscallNumbers cpu).exit [182]]
  else []

end Perform

/-! ## One file -/

section File

variable {m : Mode} {k : ℕ} {content : List Byte} {bias : m.program.Word}
  {record : FileRecord m.cpu}

/-- The segments of a file, moved by a distance. -/
def imageOf {program : Cpu} (bias : program.Word) (content : List Byte) :
    List (Segment program × List Byte) :=
  ((loadSegments program content).map (Segment.move bias)).map (·, content)

/-- The address of the first page of an image. -/
def imageAddress {program : Cpu} (k : ℕ) (image : List (Segment program × List Byte)) :
    program.Word :=
  BitVec.ofNat _ ((image.head?.map fun loaded => base (2 ^ k) loaded.1.vaddr.toNat).getD 0)

/-- The file has segments, which can be mapped by pages and are in it, and no address overflows when
they are moved. -/
structure Loadable {program : Cpu} (k : ℕ) (bias : program.Word) (content : List Byte) : Prop where
  aligned : 2 ^ k ∣ bias.toNat
  fits : ∀ segment ∈ loadSegments program content, FitsAt k bias segment
  inFile : ∀ segment ∈ loadSegments program content,
    segment.offset.toNat + segment.filesz.toNat ≤ content.length
  nonempty : loadSegments program content ≠ []

/-- The segments of a file that can be loaded are placed. -/
theorem Loadable.placed (h : Loadable k bias content) (hpage : PageSize m.cpu m.program k) :
    ∀ loaded ∈ imageOf bias content, Placed m.cpu k loaded.1 := by
  unfold imageOf
  simp only [List.forall_mem_map]
  exact fun segment hsegment => (h.fits segment hsegment).placed_move hpage h.aligned

/-- Their bytes are in the file. -/
theorem Loadable.image_inFile (h : Loadable k bias content) :
    ∀ loaded ∈ imageOf bias content,
      loaded.1.offset.toNat + loaded.1.filesz.toNat ≤ loaded.2.length := by
  unfold imageOf
  simp only [List.forall_mem_map]
  exact h.inFile

variable {sys : System m.program} {done : List (Action m.program)} {platform : Platform}
  {p p' : Process m.program}

end File

/-! ## Actions that load an image -/

section Loading

variable {m : Mode} {k : ℕ} {platform : Platform} {sys : System m.program} {mem : ℕ → Byte}
  {done actions rest : List (Action m.program)}
  {image later : List (Segment m.program × List Byte)}

/-- Some actions load an image into a process whose stack is as it was, exactly if what must be
cleared can be. -/
def LoadsBy (platform : Platform) (sys : System m.program) (k : ℕ) (mem : ℕ → Byte)
    (done actions : List (Action m.program)) (image : List (Segment m.program × List Byte)) :
    Prop :=
  ∀ p : Process m.program, (∀ a, platform.stack a → p.space.content a = mem a) →
    ((∀ loaded ∈ image, Clearable k loaded.1 loaded.2) →
      ∃ p', platform.Runs sys done actions p p') ∧
    ∀ p', platform.Runs sys done actions p p' →
      (∀ loaded ∈ image, Clearable k loaded.1 loaded.2) ∧
        p'.space = (p.loadAll k image).space ∧
        ∀ a, ¬platform.stack a → p'.prot a = (p.loadAll k image).prot a

/-- What is loaded depends on the memory and on the protection of each byte only. -/
theorem loadAll_congr {p q : Process m.program} (hspace : p.space = q.space)
    (image : List (Segment m.program × List Byte)) :
    (p.loadAll k image).space = (q.loadAll k image).space ∧
      ∀ a, p.prot a = q.prot a → (p.loadAll k image).prot a = (q.loadAll k image).prot a := by
  unfold Process.loadAll
  induction image generalizing p q with
  | nil => exact ⟨hspace, fun _ h => h⟩
  | cons loaded rest ih =>
    have hnext : (p.load k loaded).space = (q.load k loaded).space :=
      congrArg (loadedSpace k loaded.1 loaded.2) hspace
    obtain ⟨hrest, hprot⟩ := ih hnext
    refine ⟨hrest, fun a ha => hprot a ?_⟩
    simp only [Process.load, loadedSegment, ha]

/-- Two images are loaded one after the other. -/
theorem LoadsBy.append (h : LoadsBy platform sys k mem done actions image)
    (h' : LoadsBy platform sys k mem (done ++ actions) rest later)
    (hplaced : ∀ loaded ∈ image, Placed m.cpu k loaded.1)
    (hstack : ∀ loaded ∈ image, ∀ a, InPages k loaded.1 a → ¬platform.stack a) :
    LoadsBy platform sys k mem done (actions ++ rest) (image ++ later) := by
  intro p hp
  obtain ⟨hexists, hloads⟩ := h p hp
  -- The stack is not in the pages that are loaded first.
  have hkept : ∀ q : Process m.program, q.space = (p.loadAll k image).space →
      ∀ a, platform.stack a → q.space.content a = mem a := by
    intro q hspace a ha
    rw [hspace]
    apply Eq.trans _ (hp a ha)
    exact (loadAll_outside hplaced fun loaded hloaded hin => hstack loaded hloaded a hin ha).1
  rw [List.forall_mem_append]
  constructor
  · rintro ⟨hfirst, hlater⟩
    obtain ⟨q, hq⟩ := hexists hfirst
    obtain ⟨p', hp'⟩ := (h' q (hkept q (hloads q hq).2.1)).1 hlater
    exact ⟨p', (runs_append _ _).mpr ⟨q, hq, hp'⟩⟩
  · intro p' hruns
    obtain ⟨q, hq, hp'⟩ := (runs_append _ _).mp hruns
    obtain ⟨hfirst, hspace, hprot⟩ := hloads q hq
    obtain ⟨hlater, hspace', hprot'⟩ := (h' q (hkept q hspace)).2 p' hp'
    obtain ⟨hsame, hsameProt⟩ := loadAll_congr (k := k) hspace later
    have hall : p.loadAll k (image ++ later) = (p.loadAll k image).loadAll k later :=
      List.foldl_append
    rw [hall]
    exact ⟨⟨hfirst, hlater⟩, hspace'.trans hsame, fun a ha =>
      (hprot' a ha).trans (hsameProt a (hprot a ha))⟩

end Loading

end Abyss.Loader
