import Abyss.Execve.Extract
import Abyss.Loader.Process

/-!
# The image of an executable

The segments of an image are loaded one after the other, each with the protection that it asks for,
as long as what must be cleared can be written and is in a page of the file; otherwise the loader
faults. A segment stays in memory as long as no later one is mapped over it.
-/

namespace Abyss.Loader

open Machine Bytes Execve Pages

section Segments

variable {m : Mode} {k : ℕ} {file : List Byte} {platform : Platform} {p p' : Process m.program}

/-- The process with a segment. -/
def Process.load {program : Cpu} (k : ℕ) (p : Process program)
    (loaded : Segment program × List Byte) : Process program :=
  { p with toAddressSpace := loadedSegment k loaded.1 loaded.2 p.toAddressSpace }

/-- The process with some segments, each one of a file. -/
def Process.loadAll {program : Cpu} (k : ℕ) (p : Process program)
    (image : List (Segment program × List Byte)) : Process program :=
  image.foldl (Process.load k) p

/-- The segments of an image are at their addresses, with the protection that they ask for. -/
def HoldsImage {program : Cpu} (image : List (Segment program × List Byte)) (p : Process program) :
    Prop :=
  ∀ loaded ∈ image, HoldsSegment loaded.1 loaded.2 p.space ∧
    ∀ a, InSegment loaded.1 a → p.prot a = protOf program loaded.1.flags

/-- No segment is mapped over the bytes of one that was loaded before. -/
def Apart {program : Cpu} (k : ℕ) (image : List (Segment program × List Byte)) : Prop :=
  image.Pairwise fun loaded later => ∀ a, InSegment loaded.1 a → ¬InPages k later.1 a

/-- What is outside of the pages of a segment stays. -/
theorem load_outside (p : Process m.program) (file : List Byte) {segment : Segment m.program}
    (h : Placed m.cpu k segment) {a : ℕ} (ha : ¬InPages k segment a) :
    (p.load k (segment, file)).space.content a = p.space.content a ∧
      ((p.load k (segment, file)).space.accessible a ↔ p.space.accessible a) ∧
      (p.load k (segment, file)).prot a = p.prot a := by
  obtain ⟨hbase, hfile, hmem, -, -, hle⟩ := h.ends
  have hstart := base_mono (2 ^ k) (Nat.le_add_right segment.vaddr.toNat segment.filesz.toNat)
  have hmapped : ¬InMapping (base (2 ^ k) segment.vaddr.toNat)
      (fileEnd k segment - base (2 ^ k) segment.vaddr.toNat) a := by
    unfold InMapping
    unfold InPages at ha
    omega
  have hbehind : ¬InMapping (fileEnd k segment) (memEnd k segment - fileEnd k segment) a := by
    unfold InMapping
    unfold InPages at ha
    omega
  have hcleared : ¬(segment.vaddr.toNat + segment.filesz.toNat ≤ a ∧ a < fileEnd k segment) := by
    unfold InPages at ha
    omega
  refine ⟨?_, ?_, if_neg ha⟩
  · change (loadedSpace k segment file p.space).content a = _
    unfold loadedSpace
    split_ifs <;>
      simp only [Space.mmapAnonymous, clearedFile, mappedFile, Space.mmapFile, if_neg hbehind,
        if_neg hcleared, if_neg hmapped]
  · change (loadedSpace k segment file p.space).accessible a ↔ _
    unfold loadedSpace
    split_ifs <;>
      simp only [Space.mmapAnonymous, clearedFile, mappedFile, Space.mmapFile, hbehind, false_or,
        if_neg hmapped]

/-- What is outside of the pages of all segments stays. -/
theorem loadAll_outside {image : List (Segment m.program × List Byte)}
    (hplaced : ∀ loaded ∈ image, Placed m.cpu k loaded.1) {a : ℕ}
    (ha : ∀ loaded ∈ image, ¬InPages k loaded.1 a) :
    (p.loadAll k image).space.content a = p.space.content a ∧
      ((p.loadAll k image).space.accessible a ↔ p.space.accessible a) ∧
      (p.loadAll k image).prot a = p.prot a := by
  induction image generalizing p with
  | nil => exact ⟨rfl, Iff.rfl, rfl⟩
  | cons loaded rest ih =>
    rw [List.forall_mem_cons] at hplaced ha
    obtain ⟨hcontent, haccessible, hprot⟩ := load_outside p loaded.2 hplaced.1 ha.1
    obtain ⟨hcontent', haccessible', hprot'⟩ := ih (p := p.load k loaded) hplaced.2 ha.2
    exact ⟨hcontent'.trans hcontent, haccessible'.trans haccessible, hprot'.trans hprot⟩

/-- The image of some segments, none of which is mapped over the bytes of one before. -/
theorem loadAll_holds {image : List (Segment m.program × List Byte)}
    (hplaced : ∀ loaded ∈ image, Placed m.cpu k loaded.1)
    (hfile : ∀ loaded ∈ image,
      loaded.1.offset.toNat + loaded.1.filesz.toNat ≤ loaded.2.length)
    (hclearable : ∀ loaded ∈ image, Clearable k loaded.1 loaded.2) (hapart : Apart k image) :
    HoldsImage image (p.loadAll k image) := by
  induction image generalizing p with
  | nil => exact fun loaded h => absurd h List.not_mem_nil
  | cons loaded rest ih =>
    unfold Apart at hapart
    rw [List.forall_mem_cons] at hplaced hfile hclearable
    rw [List.pairwise_cons] at hapart
    have hrest := ih (p := p.load k loaded) hplaced.2 hfile.2 hclearable.2 hapart.2
    have hkept : ∀ a, InSegment loaded.1 a → _ := fun a ha =>
      loadAll_outside (p := p.load k loaded) hplaced.2 fun later hlater =>
        hapart.1 later hlater a ha
    have hfirst := hplaced.1.loadedSpace_holds hfile.1 hclearable.1 p.space
    have hends := hplaced.1.ends
    unfold HoldsImage at hrest ⊢
    rw [List.forall_mem_cons]
    refine ⟨⟨fun a ha => ?_, fun a ha => ?_⟩, hrest⟩
    · obtain ⟨hcontent, haccessible, -⟩ := hkept a ha
      obtain ⟨haccess, hbyte⟩ := hfirst a ha
      exact ⟨haccessible.mpr haccess, hcontent.trans hbyte⟩
    · obtain ⟨-, -, hprot⟩ := hkept a ha
      apply hprot.trans
      apply if_pos
      obtain ⟨hstart, hend⟩ := ha
      unfold InPages
      omega

end Segments

end Abyss.Loader
