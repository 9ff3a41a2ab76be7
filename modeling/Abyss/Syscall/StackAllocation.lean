import Abyss.Syscall.EnterRegisters
import Abyss.Tracee.Mem

/-!
# Memory on the stack of a tracee

At the entry of a syscall memory is allocated below the stack pointer of the tracee, which moves
down; it is found at its old place again when the syscall is over. The size of a block is converted
to a signed one and rounded up to the alignment of the stack, and a sanity check refuses what
does not fit below the stack pointer.

The blocks lie below one another as long as their sizes can be rounded up within the signed
type, or are refused, and as long as the data can be written.
-/

namespace Abyss

open Machine

/-- `STACK_ALIGNMENT`. -/
def stackAlignment : ℤ := 16

/-- `RED_ZONE_SIZE` of the two processors. -/
def redZoneSize : ℤ := 0

/-- A value as a `ssize_t`, wrapped around. -/
def ssizeT (t : Target) (value : ℤ) : ℤ := Int.bmod value (2 ^ t.wordBits)

/-- A size rounded to the alignment of the stack, by a division that truncates. -/
def roundedSize (t : Target) (size : ℤ) : ℤ :=
  ssizeT t ((Int.tdiv (ssizeT t (size - 1)) stackAlignment + 1) * stackAlignment)

/-- The sanity check: the stack pointer would move below the first address or beyond the last. -/
def refusesSize (t : Target) (stackPointer : ℕ) (size : ℤ) : Prop :=
  (0 < size ∧ stackPointer ≤ toWord t size) ∨
    (size < 0 ∧ toWord t (2 ^ t.wordBits - 1 + size) ≤ stackPointer)

instance (t : Target) (stackPointer : ℕ) (size : ℤ) : Decidable (refusesSize t stackPointer size) :=
  inferInstanceAs (Decidable (_ ∨ _))

section Allocation

variable (t : Target) (m : Mode)

/-- Allocate memory below the stack pointer; 0 if it is refused. -/
def allocMem (regs : Regs) (size : ℤ) : ℕ × Regs :=
  let stackPointer := peekReg m regs .current .stackPointer
  let size :=
    if stackPointer = peekReg m regs .original .stackPointer then ssizeT t (size + redZoneSize)
    else size
  let size := roundedSize t size
  if refusesSize t stackPointer size then (0, regs)
  else
    let stackPointer := toWord t (stackPointer - size)
    (stackPointer, pokeReg m regs .stackPointer stackPointer)

variable (writeData : ℕ → ℕ → ℤ)

/-- Copy data into allocated memory and make an argument point to it; `writeData` is the status of
writing a number of bytes to an address. -/
def setSysargData (regs : Regs) (size : ℕ) (reg : Reg) : ℤ × Regs :=
  let (traceePtr, regs) := allocMem t m regs (ssizeT t size)
  if traceePtr = 0 then (-(efault : ℤ), regs)
  else
    let status := writeData traceePtr size
    if status < 0 then (status, regs) else (0, pokeReg m regs reg traceePtr)

/-- A call that allocates, with the size of its block as a word. -/
inductive Allocation where
  | mem (size : ℕ)
  | sysargData (size : ℕ) (reg : Reg)

/-- The size of the block that is asked for. -/
def Allocation.size : Allocation → ℕ
  | .mem size => size
  | .sysargData size _ => size

/-- What a call returns: the address of its block, or an error. -/
inductive Returned where
  | block (address : ℕ)
  | failed (status : ℤ)
deriving DecidableEq

/-- What a call returns, and the registers after it. -/
def Allocation.run (regs : Regs) : Allocation → Returned × Regs
  | .mem size =>
    let (address, regs) := allocMem t m regs (ssizeT t size)
    (if address = 0 then .failed 0 else .block address, regs)
  | .sysargData size reg =>
    let (status, regs') := setSysargData t m writeData regs size reg
    (if status < 0 then .failed status else .block (allocMem t m regs (ssizeT t size)).1, regs')

end Allocation

/-! ## Rounding -/

section Rounding

variable {t : Target} {size : ℕ}

/-- The sizes that can be rounded up within the signed type. -/
def FitsSsize (t : Target) (size : ℕ) : Prop := size + 16 ≤ 2 ^ (t.wordBits - 1)

/-- There are two sizes of words. -/
theorem wordBits_eq (t : Target) : t.wordBits = 32 ∨ t.wordBits = 64 := by
  unfold Target.wordBits
  cases t.cpu with
  | armEabi => exact .inl rfl
  | arm64 => exact .inr rfl

/-- Wrapping around adds a multiple of the number of words. -/
theorem ssizeT_spec (t : Target) (value : ℤ) :
    (∃ k, ssizeT t value = value + k * 2 ^ t.wordBits) ∧
      -(2 ^ (t.wordBits - 1)) ≤ ssizeT t value ∧ ssizeT t value < 2 ^ (t.wordBits - 1) := by
  have hdiv : ssizeT t value = value + -value.bdiv (2 ^ t.wordBits) * 2 ^ t.wordBits := by
    have hsum := Int.bdiv_add_bmod value (2 ^ t.wordBits)
    push_cast at hsum
    unfold ssizeT
    rw [neg_mul, mul_comm]
    omega
  refine ⟨⟨_, hdiv⟩, ?_⟩
  unfold ssizeT Int.bmod
  rcases wordBits_eq t with hbits | hbits
  all_goals
    rw [hbits]
    norm_num
    split <;> omega

/-- The quotient of a truncating division. -/
theorem tdiv_stackAlignment (a : ℤ) :
    (0 ≤ a → 16 * Int.tdiv a stackAlignment ≤ a ∧ a ≤ 16 * Int.tdiv a stackAlignment + 15) ∧
      (a < 0 → a ≤ 16 * Int.tdiv a stackAlignment ∧ 16 * Int.tdiv a stackAlignment ≤ a + 15) := by
  unfold stackAlignment
  constructor
  · intro h
    rw [Int.tdiv_eq_ediv_of_nonneg h]
    omega
  · intro h
    rw [← neg_neg a, Int.neg_tdiv, Int.tdiv_eq_ediv_of_nonneg (by omega)]
    omega

/-- A size that fits is rounded up. -/
theorem roundedSize_fits (h : FitsSsize t size) :
    ∃ rounded : ℕ, roundedSize t (ssizeT t size) = rounded ∧ 16 ∣ rounded ∧ size ≤ rounded ∧
      0 < rounded ∧ rounded < 2 ^ (t.wordBits - 1) := by
  unfold FitsSsize at h
  unfold roundedSize
  obtain ⟨⟨k₁, hsize⟩, hlow₁, hhigh₁⟩ := ssizeT_spec t size
  obtain ⟨⟨k₂, hpred⟩, hlow₂, hhigh₂⟩ := ssizeT_spec t (ssizeT t size - 1)
  obtain ⟨hnonneg, hneg⟩ := tdiv_stackAlignment (ssizeT t (ssizeT t size - 1))
  obtain ⟨⟨k₃, hround⟩, hlow₃, hhigh₃⟩ := ssizeT_spec t
    ((Int.tdiv (ssizeT t (ssizeT t size - 1)) stackAlignment + 1) * stackAlignment)
  generalize ssizeT t ((Int.tdiv (ssizeT t (ssizeT t size - 1)) stackAlignment + 1) *
    stackAlignment) = rounded at *
  generalize Int.tdiv (ssizeT t (ssizeT t size - 1)) stackAlignment = q at *
  generalize ssizeT t (ssizeT t size - 1) = pred at *
  generalize ssizeT t size = signed at *
  unfold stackAlignment at hround
  refine ⟨rounded.toNat, ?_⟩
  rcases wordBits_eq t with hbits | hbits
  all_goals
    simp only [hbits] at *
    norm_num at *
    omega

/-- A larger size is rounded to a small one, or to a negative one that is at most as far below. -/
theorem roundedSize_over (h : ¬FitsSsize t size) (hword : size < 2 ^ t.wordBits) :
    16 ∣ roundedSize t (ssizeT t size) ∧ -(2 ^ (t.wordBits - 1)) ≤ roundedSize t (ssizeT t size) ∧
      (roundedSize t (ssizeT t size) = 16 ∧ 2 ^ t.wordBits ≤ (size : ℤ) + 15 ∨
        roundedSize t (ssizeT t size) ≤ 0 ∧
          2 ^ t.wordBits ≤ size - roundedSize t (ssizeT t size) + 30) := by
  unfold FitsSsize at h
  unfold roundedSize
  obtain ⟨⟨k₁, hsize⟩, hlow₁, hhigh₁⟩ := ssizeT_spec t size
  obtain ⟨⟨k₂, hpred⟩, hlow₂, hhigh₂⟩ := ssizeT_spec t (ssizeT t size - 1)
  obtain ⟨hnonneg, hneg⟩ := tdiv_stackAlignment (ssizeT t (ssizeT t size - 1))
  obtain ⟨⟨k₃, hround⟩, hlow₃, hhigh₃⟩ := ssizeT_spec t
    ((Int.tdiv (ssizeT t (ssizeT t size - 1)) stackAlignment + 1) * stackAlignment)
  generalize ssizeT t ((Int.tdiv (ssizeT t (ssizeT t size - 1)) stackAlignment + 1) *
    stackAlignment) = rounded at *
  generalize Int.tdiv (ssizeT t (ssizeT t size - 1)) stackAlignment = q at *
  generalize ssizeT t (ssizeT t size - 1) = pred at *
  generalize ssizeT t size = signed at *
  unfold stackAlignment at hround
  rcases wordBits_eq t with hbits | hbits
  all_goals
    simp only [hbits] at *
    norm_num at *
    omega

end Rounding

/-! ## One allocation -/

section Block

variable (t : Target) (isAarch32 : Bool)

/-- The mode of a process of the target. -/
def modeOf : Mode := ⟨t.cpu, isAarch32⟩

/-- Where the block of a size begins. -/
def blockAddress (stackPointer size : ℕ) : ℕ :=
  toWord t (stackPointer - roundedSize t (ssizeT t size))

/-- The size is refused, or there is no stack. -/
def Refused (stackPointer size : ℕ) : Prop :=
  refusesSize t stackPointer (roundedSize t (ssizeT t size)) ∨
    (stackPointer = 0 ∧ roundedSize t (ssizeT t size) = 0)

variable {t isAarch32} {regs : Regs} {stackPointer original size : ℕ}

/-- A register is not wider than a word. -/
theorem modeOf_bits_le : (modeOf t isAarch32).bits ≤ t.wordBits := by
  unfold Mode.bits Mode.is32on64 modeOf Target.wordBits
  cases t.cpu <;> cases isAarch32 <;> decide

/-- What is allocated for a size that was given as a word. -/
theorem allocMem_eq (m : Mode) (hsp : peekReg m regs .current .stackPointer = stackPointer) :
    allocMem t m regs (ssizeT t size) =
      if refusesSize t stackPointer (roundedSize t (ssizeT t size)) then (0, regs)
      else (blockAddress t stackPointer size,
        pokeReg m regs .stackPointer (blockAddress t stackPointer size)) := by
  have hsame : ssizeT t (ssizeT t size + redZoneSize) = ssizeT t size := by
    unfold redZoneSize ssizeT
    rw [add_zero, Int.bmod_bmod]
  unfold allocMem blockAddress
  dsimp only
  rw [hsp, hsame, ite_self]

/-- A block that fits lies below the stack pointer. -/
theorem blockAddress_fits (haligned : 16 ∣ stackPointer) (hword : stackPointer < 2 ^ t.wordBits)
    (hfits : FitsSsize t size) (hnot : ¬Refused t stackPointer size) :
    16 ∣ blockAddress t stackPointer size ∧ 0 < blockAddress t stackPointer size ∧
      blockAddress t stackPointer size + size ≤ stackPointer ∧
      blockAddress t stackPointer size < stackPointer := by
  obtain ⟨rounded, hrounded, hdvd, hle, hpos, hhalf⟩ := roundedSize_fits hfits
  unfold Refused refusesSize at hnot
  unfold blockAddress
  rw [hrounded] at hnot ⊢
  unfold toWord at *
  rcases wordBits_eq t with hbits | hbits
  all_goals
    simp only [hbits] at *
    norm_num at *
    omega

/-- A block that does not fit ends beyond the stack pointer of the entry. -/
theorem blockAddress_over (haligned : 16 ∣ stackPointer) (horiginal : 16 ∣ original)
    (hword : original < 2 ^ t.wordBits) (hle : stackPointer ≤ original)
    (hstack : 0 < stackPointer ∨ stackPointer = original) (hsize : size < 2 ^ t.wordBits)
    (hover : ¬FitsSsize t size) (hnot : ¬Refused t stackPointer size) :
    0 < blockAddress t stackPointer size ∧ original < blockAddress t stackPointer size + size := by
  obtain ⟨hdvd, hlow, hrounded⟩ := roundedSize_over hover hsize
  unfold Refused refusesSize at hnot
  unfold blockAddress
  generalize roundedSize t (ssizeT t size) = rounded at *
  unfold toWord at *
  rcases wordBits_eq t with hbits | hbits
  all_goals
    simp only [hbits] at *
    norm_num at *
    omega

end Block

/-! ## The allocations of a stage -/

/-- The block that a call has returned. -/
def Returned.blocks (size : ℕ) : Returned → List (ℕ × ℕ)
  | .block address => [(address, size)]
  | .failed _ => []

/-- What a call is to return: an error that leaves the stack pointer alone, or an aligned block of at
least the size below the stack pointer of the entry and apart from all blocks before. -/
def SoundReturn (original before after : ℕ) (blocks : List (ℕ × ℕ)) (size : ℕ) : Returned → Prop
  | .failed status => (status = 0 ∨ status = -(efault : ℤ)) ∧ after = before
  | .block address => 16 ∣ address ∧ 0 < address ∧
      ((address + size : ℕ) : ℤ) ≤ original - redZoneSize ∧
      ∀ block ∈ blocks, address + size ≤ block.1 ∨ block.1 + block.2 ≤ address

section Stage

variable (t : Target) (isAarch32 : Bool) (writeData : ℕ → ℕ → ℤ)

/-- The cached stack pointer. -/
def stackPointerOf (regs : Regs) (version : RegVersion) : ℕ :=
  peekReg (modeOf t isAarch32) regs version .stackPointer

/-- All calls of a stage return what they are to return. -/
def SoundAllocations : List Allocation → Regs → List (ℕ × ℕ) → Prop
  | [], _, _ => True
  | call :: rest, regs, blocks =>
    SoundReturn (stackPointerOf t isAarch32 regs .original)
        (stackPointerOf t isAarch32 regs .current)
        (stackPointerOf t isAarch32 (call.run t (modeOf t isAarch32) writeData regs).2 .current)
        blocks call.size (call.run t (modeOf t isAarch32) writeData regs).1 ∧
      SoundAllocations rest (call.run t (modeOf t isAarch32) writeData regs).2
        ((call.run t (modeOf t isAarch32) writeData regs).1.blocks call.size ++ blocks)

/-- The size of a call is refused, or it can be rounded up and the data can be written; data that
cannot be written do no harm if the stack pointer has not moved. -/
def CallFits (regs : Regs) : Allocation → Prop
  | .mem size => Refused t (stackPointerOf t isAarch32 regs .current) size ∨ FitsSsize t size
  | .sysargData size _ =>
    Refused t (stackPointerOf t isAarch32 regs .current) size ∨
      (FitsSsize t size ∧
        0 ≤ writeData (blockAddress t (stackPointerOf t isAarch32 regs .current) size) size) ∨
      (blockAddress t (stackPointerOf t isAarch32 regs .current) size %
          2 ^ (modeOf t isAarch32).bits = stackPointerOf t isAarch32 regs .current ∧
        writeData (blockAddress t (stackPointerOf t isAarch32 regs .current) size) size =
          -(efault : ℤ))

/-- All calls of a stage fit. -/
def AllocationsFit : List Allocation → Regs → Prop
  | [], _ => True
  | call :: rest, regs =>
    CallFits t isAarch32 writeData regs call ∧
      AllocationsFit rest (call.run t (modeOf t isAarch32) writeData regs).2

/-- Between the calls of a stage the stack pointer is aligned, and all blocks are above it. -/
structure StackAbove (regs : Regs) (blocks : List (ℕ × ℕ)) : Prop where
  aligned : 16 ∣ stackPointerOf t isAarch32 regs .current
  original : 16 ∣ stackPointerOf t isAarch32 regs .original
  below : stackPointerOf t isAarch32 regs .current ≤ stackPointerOf t isAarch32 regs .original
  stack : 0 < stackPointerOf t isAarch32 regs .current ∨
    stackPointerOf t isAarch32 regs .current = stackPointerOf t isAarch32 regs .original
  above : ∀ block ∈ blocks, stackPointerOf t isAarch32 regs .current ≤ block.1

variable {t isAarch32 writeData} {regs : Regs} {blocks : List (ℕ × ℕ)} {size : ℕ}

/-- The stack pointer has the size of a register. -/
theorem stackPointerOf_lt (version : RegVersion) :
    stackPointerOf t isAarch32 regs version < 2 ^ (modeOf t isAarch32).bits := peekReg_lt ..

/-- It fits a word. -/
theorem stackPointerOf_lt_word (version : RegVersion) :
    stackPointerOf t isAarch32 regs version < 2 ^ t.wordBits :=
  (stackPointerOf_lt version).trans_le (Nat.pow_le_pow_right (by decide) modeOf_bits_le)

/-- An argument may point to the block, too. -/
theorem stackPointerOf_moved (regs : Regs) (reg : Reg) (address : ℕ) :
    stackPointerOf t isAarch32 (pokeReg (modeOf t isAarch32)
        (pokeReg (modeOf t isAarch32) regs .stackPointer address) reg address) .current =
      address % 2 ^ (modeOf t isAarch32).bits := by
  unfold stackPointerOf
  by_cases hreg : reg = .stackPointer
  · rw [hreg, peekReg_pokeReg_mod]
  · rw [peekReg_pokeReg_other _ _ (stackPointer_apart _ hreg), peekReg_pokeReg_mod]

/-- The one at the entry cannot be poked. -/
theorem stackPointerOf_original (regs : Regs) (reg : Reg) (value : ℕ) :
    stackPointerOf t isAarch32 (pokeReg (modeOf t isAarch32) regs reg value) .original =
      stackPointerOf t isAarch32 regs .original := peekReg_pokeReg_original ..

/-- What is refused returns no block and leaves the registers alone. -/
theorem allocMem_refused (h : Refused t (stackPointerOf t isAarch32 regs .current) size) :
    allocMem t (modeOf t isAarch32) regs (ssizeT t size) = (0, regs) := by
  rw [allocMem_eq (modeOf t isAarch32) rfl]
  rcases h with hrefused | ⟨hstack, hrounded⟩
  · exact if_pos hrefused
  · have hblock : blockAddress t (stackPointerOf t isAarch32 regs .current) size = 0 := by
      rw [blockAddress, hstack, hrounded]
      rfl
    have hsame : pokeReg (modeOf t isAarch32) regs .stackPointer 0 = regs := if_pos hstack
    unfold stackPointerOf at hblock
    rw [hblock, hsame, ite_self]

/-- A block that is not refused is below the stack pointer. -/
theorem allocMem_block (h : ¬Refused t (stackPointerOf t isAarch32 regs .current) size) :
    allocMem t (modeOf t isAarch32) regs (ssizeT t size) =
      (blockAddress t (stackPointerOf t isAarch32 regs .current) size,
        pokeReg (modeOf t isAarch32) regs .stackPointer
          (blockAddress t (stackPointerOf t isAarch32 regs .current) size)) := by
  rw [allocMem_eq (modeOf t isAarch32) rfl]
  exact if_neg fun hrefused => h (.inl hrefused)

/-- No block begins at the null pointer. -/
theorem StackAbove.blockAddress_pos (h : StackAbove t isAarch32 regs blocks)
    (hsize : size < 2 ^ t.wordBits)
    (hnot : ¬Refused t (stackPointerOf t isAarch32 regs .current) size) :
    0 < blockAddress t (stackPointerOf t isAarch32 regs .current) size := by
  by_cases hfits : FitsSsize t size
  · exact (blockAddress_fits h.aligned (stackPointerOf_lt_word _) hfits hnot).2.1
  · exact (blockAddress_over h.aligned h.original (stackPointerOf_lt_word _) h.below h.stack hsize
      hfits hnot).1

/-- A block is what was asked for if and only if its size can be rounded up. -/
theorem StackAbove.soundBlock_iff (h : StackAbove t isAarch32 regs blocks) {before after : ℕ}
    (hsize : size < 2 ^ t.wordBits)
    (hnot : ¬Refused t (stackPointerOf t isAarch32 regs .current) size) :
    SoundReturn (stackPointerOf t isAarch32 regs .original) before after blocks size
        (.block (blockAddress t (stackPointerOf t isAarch32 regs .current) size)) ↔
      FitsSsize t size := by
  constructor
  · rintro ⟨-, -, hend, -⟩
    by_contra hover
    have hbeyond := (blockAddress_over h.aligned h.original (stackPointerOf_lt_word _) h.below
      h.stack hsize hover hnot).2
    unfold redZoneSize at hend
    omega
  · intro hfits
    obtain ⟨hdvd, hpos, hend, -⟩ :=
      blockAddress_fits h.aligned (stackPointerOf_lt_word _) hfits hnot
    refine ⟨hdvd, hpos, ?_, fun block hblock => .inl (hend.trans (h.above block hblock))⟩
    have hbelow := h.below
    unfold redZoneSize
    omega

/-- The stack pointer has moved down to the new block. -/
theorem StackAbove.push (h : StackAbove t isAarch32 regs blocks) {regs' : Regs}
    (hfits : FitsSsize t size)
    (hnot : ¬Refused t (stackPointerOf t isAarch32 regs .current) size)
    (horiginal : stackPointerOf t isAarch32 regs' .original =
      stackPointerOf t isAarch32 regs .original)
    (hmoved : stackPointerOf t isAarch32 regs' .current =
      blockAddress t (stackPointerOf t isAarch32 regs .current) size %
        2 ^ (modeOf t isAarch32).bits) :
    StackAbove t isAarch32 regs'
      ((blockAddress t (stackPointerOf t isAarch32 regs .current) size, size) :: blocks) := by
  obtain ⟨hdvd, hpos, hend, hlt⟩ :=
    blockAddress_fits h.aligned (stackPointerOf_lt_word _) hfits hnot
  rw [Nat.mod_eq_of_lt (hlt.trans (stackPointerOf_lt _))] at hmoved
  refine ⟨hmoved ▸ hdvd, horiginal ▸ h.original, ?_, .inl (hmoved ▸ hpos), ?_⟩
  · rw [hmoved, horiginal]
    exact hlt.le.trans h.below
  · rw [hmoved, List.forall_mem_cons]
    exact ⟨le_rfl, fun block hblock => hlt.le.trans (h.above block hblock)⟩

/-- The blocks stay below the stack pointers where these stay. -/
theorem StackAbove.same (h : StackAbove t isAarch32 regs blocks) {regs' : Regs}
    (hcurrent : stackPointerOf t isAarch32 regs' .current =
      stackPointerOf t isAarch32 regs .current)
    (horiginal : stackPointerOf t isAarch32 regs' .original =
      stackPointerOf t isAarch32 regs .original) :
    StackAbove t isAarch32 regs' blocks := by
  constructor
  all_goals simp only [hcurrent, horiginal]
  · exact h.aligned
  · exact h.original
  · exact h.below
  · exact h.stack
  · exact h.above

/-- The registers once the stack pointer has moved to a block. -/
def movedRegs (t : Target) (isAarch32 : Bool) (regs : Regs) (size : ℕ) : Regs :=
  pokeReg (modeOf t isAarch32) regs .stackPointer
    (blockAddress t (stackPointerOf t isAarch32 regs .current) size)

variable (writeData) in
/-- A refused call fails. -/
theorem run_refused {call : Allocation}
    (h : Refused t (stackPointerOf t isAarch32 regs .current) call.size) :
    ∃ status : ℤ, (status = 0 ∨ status = -(efault : ℤ)) ∧
      call.run t (modeOf t isAarch32) writeData regs = (.failed status, regs) := by
  cases call with
  | mem size =>
    refine ⟨0, .inl rfl, ?_⟩
    have hnone : allocMem t (modeOf t isAarch32) regs (ssizeT t size) = (0, regs) :=
      allocMem_refused h
    unfold Allocation.run
    dsimp only
    rw [hnone]
    rfl
  | sysargData size reg =>
    refine ⟨-(efault : ℤ), .inr rfl, ?_⟩
    have hnone : allocMem t (modeOf t isAarch32) regs (ssizeT t size) = (0, regs) :=
      allocMem_refused h
    unfold Allocation.run setSysargData
    dsimp only
    rw [hnone]
    rfl

/-- To allocate a block moves the stack pointer to it. -/
theorem run_mem (hnot : ¬Refused t (stackPointerOf t isAarch32 regs .current) size)
    (hpos : 0 < blockAddress t (stackPointerOf t isAarch32 regs .current) size) :
    (Allocation.mem size).run t (modeOf t isAarch32) writeData regs =
      (.block (blockAddress t (stackPointerOf t isAarch32 regs .current) size),
        movedRegs t isAarch32 regs size) := by
  unfold Allocation.run
  dsimp only
  rw [allocMem_block hnot]
  dsimp only
  rw [if_neg hpos.ne']
  rfl

/-- Data for an argument is written to a block. -/
theorem run_sysargData {reg : Reg}
    (hnot : ¬Refused t (stackPointerOf t isAarch32 regs .current) size)
    (hpos : 0 < blockAddress t (stackPointerOf t isAarch32 regs .current) size) {status : ℤ}
    (hstatus : writeData (blockAddress t (stackPointerOf t isAarch32 regs .current) size) size =
      status) :
    (Allocation.sysargData size reg).run t (modeOf t isAarch32) writeData regs =
      if status < 0 then (.failed status, movedRegs t isAarch32 regs size)
      else
        (.block (blockAddress t (stackPointerOf t isAarch32 regs .current) size),
          pokeReg (modeOf t isAarch32) (movedRegs t isAarch32 regs size) reg
            (blockAddress t (stackPointerOf t isAarch32 regs .current) size)) := by
  unfold Allocation.run setSysargData
  dsimp only
  rw [allocMem_block hnot]
  dsimp only
  rw [if_neg hpos.ne', hstatus]
  by_cases hfailed : status < 0
  · rw [if_pos hfailed, if_pos hfailed]
    dsimp only
    rw [if_pos hfailed]
    rfl
  · rw [if_neg hfailed, if_neg hfailed]
    rfl

/-- The stack pointer is at the block, and the one at the entry stays. -/
theorem stackPointerOf_movedRegs :
    stackPointerOf t isAarch32 (movedRegs t isAarch32 regs size) .current =
        blockAddress t (stackPointerOf t isAarch32 regs .current) size %
          2 ^ (modeOf t isAarch32).bits ∧
      stackPointerOf t isAarch32 (movedRegs t isAarch32 regs size) .original =
        stackPointerOf t isAarch32 regs .original :=
  ⟨peekReg_pokeReg_mod .., stackPointerOf_original ..⟩

/-- A call does what it is to do if and only if it fits. -/
theorem StackAbove.soundReturn_iff (h : StackAbove t isAarch32 regs blocks) (call : Allocation)
    (hsize : call.size < 2 ^ t.wordBits) :
    SoundReturn (stackPointerOf t isAarch32 regs .original)
        (stackPointerOf t isAarch32 regs .current)
        (stackPointerOf t isAarch32 (call.run t (modeOf t isAarch32) writeData regs).2 .current)
        blocks call.size (call.run t (modeOf t isAarch32) writeData regs).1 ↔
      CallFits t isAarch32 writeData regs call := by
  by_cases hrefused : Refused t (stackPointerOf t isAarch32 regs .current) call.size
  · obtain ⟨status, hstatus, hrun⟩ := run_refused writeData hrefused
    rw [hrun]
    refine ⟨fun _ => ?_, fun _ => ⟨hstatus, rfl⟩⟩
    cases call with
    | mem size => exact .inl hrefused
    | sysargData size reg => exact .inl hrefused
  · have hpos := h.blockAddress_pos hsize hrefused
    cases call with
    | mem size =>
      dsimp only [Allocation.size] at hsize hrefused hpos ⊢
      rw [run_mem hrefused hpos]
      exact (h.soundBlock_iff hsize hrefused).trans ⟨.inr, fun hfits => hfits.resolve_left hrefused⟩
    | sysargData size reg =>
      dsimp only [Allocation.size] at hsize hrefused hpos ⊢
      rw [run_sysargData hrefused hpos rfl]
      by_cases hfailed :
        writeData (blockAddress t (stackPointerOf t isAarch32 regs .current) size) size < 0
      · rw [if_pos hfailed, stackPointerOf_movedRegs.1]
        constructor
        · rintro ⟨hzero | hefault, hsame⟩
          · exact absurd hzero hfailed.ne
          · exact .inr (.inr ⟨hsame, hefault⟩)
        · rintro (habsurd | ⟨-, hwritten⟩ | ⟨hsame, hefault⟩)
          · exact absurd habsurd hrefused
          · exact absurd hfailed (not_lt.mpr hwritten)
          · exact ⟨.inr hefault, hsame⟩
      · rw [if_neg hfailed]
        refine (h.soundBlock_iff hsize hrefused).trans ⟨fun hfits => ?_, ?_⟩
        · exact .inr (.inl ⟨hfits, not_lt.mp hfailed⟩)
        · rintro (habsurd | ⟨hfits, -⟩ | ⟨-, hefault⟩)
          · exact absurd habsurd hrefused
          · exact hfits
          · rw [hefault] at hfailed
            exact absurd (by decide) hfailed

/-- After a call that fits the stack pointer is again below all blocks. -/
theorem StackAbove.run (h : StackAbove t isAarch32 regs blocks) (call : Allocation)
    (hsize : call.size < 2 ^ t.wordBits) (hfits : CallFits t isAarch32 writeData regs call) :
    StackAbove t isAarch32 (call.run t (modeOf t isAarch32) writeData regs).2
      ((call.run t (modeOf t isAarch32) writeData regs).1.blocks call.size ++ blocks) := by
  by_cases hrefused : Refused t (stackPointerOf t isAarch32 regs .current) call.size
  · obtain ⟨status, -, hrun⟩ := run_refused writeData hrefused
    rw [hrun]
    exact h
  · have hpos := h.blockAddress_pos hsize hrefused
    cases call with
    | mem size =>
      dsimp only [Allocation.size] at hsize hrefused hpos ⊢
      rw [run_mem hrefused hpos]
      exact h.push (hfits.resolve_left hrefused) hrefused stackPointerOf_movedRegs.2
        stackPointerOf_movedRegs.1
    | sysargData size reg =>
      dsimp only [Allocation.size] at hsize hrefused hpos ⊢
      rw [run_sysargData hrefused hpos rfl]
      rcases hfits.resolve_left hrefused with ⟨hfits, hwritten⟩ | ⟨hsame, hefault⟩
      · rw [if_neg (not_lt.mpr hwritten)]
        refine h.push hfits hrefused ?_ (stackPointerOf_moved ..)
        exact (stackPointerOf_original ..).trans stackPointerOf_movedRegs.2
      · rw [if_pos (by rw [hefault]; decide)]
        have hcurrent := stackPointerOf_movedRegs.1.trans hsame
        have horiginal : stackPointerOf t isAarch32 (movedRegs t isAarch32 regs size) .original =
          stackPointerOf t isAarch32 regs .original := stackPointerOf_movedRegs.2
        exact h.same hcurrent horiginal

/-- The calls of a stage do what they are to do if and only if all of them fit. -/
theorem StackAbove.soundAllocations_iff {calls : List Allocation}
    (h : StackAbove t isAarch32 regs blocks) (hsizes : ∀ call ∈ calls, call.size < 2 ^ t.wordBits) :
    SoundAllocations t isAarch32 writeData calls regs blocks ↔
      AllocationsFit t isAarch32 writeData calls regs := by
  induction calls generalizing regs blocks with
  | nil => exact Iff.rfl
  | cons call rest ih =>
    rw [List.forall_mem_cons] at hsizes
    refine (and_congr_left' (h.soundReturn_iff call hsizes.1)).trans (and_congr_right fun hfits => ?_)
    exact ih (h.run call hsizes.1 hfits) hsizes.2

end Stage

/-! ## The stack pointer of the entry -/

/-- A process finds the stack pointer of the entry again where its syscall needs no exit, and
otherwise at the exit if any register was changed since the entry. -/
structure RestoresStackPointer (s : Setup) (fuel : ℕ) (r : Ref) : Prop where
  atEntry : ∀ w v, AtEntry s r w → (w.heap r).restartHow = .cont →
    enterStage s r (w.fetched r (fetchReply s r w).bank) = (.ok (), v) →
    registerIn ((w.heap r).mode s.target)
        (registerFile s (w.heap r).pid (translateSyscall s (handleTraceeEvent s fuel) r w).2.calls)
        .stackPointer =
      registerIn ((w.heap r).mode s.target) (fetchReply s r w).bank .stackPointer
  atExit : ∀ w v, AtExit s r w → (w.heap r).regs.wereChanged = true →
    exitStage s (handleTraceeEvent s fuel) r (w.fetched r (fetchReply s r w).bank) = (.ok (), v) →
    registerIn ((w.heap r).mode s.target)
        (registerFile s (w.heap r).pid (translateSyscall s (handleTraceeEvent s fuel) r w).2.calls)
        .stackPointer =
      registerIn ((w.heap r).mode s.target) (w.heap r).regs.original .stackPointer

/-- The stack pointer is one of the registers that are kept. -/
theorem stackPointer_kept (m : Mode) : Reg.stackPointer ∈ m.keptRegs := by
  rcases m with ⟨_ | _, _ | _⟩ <;> decide

/-- Whatever was allocated, the stack pointer is found again. -/
theorem restoresStackPointer (s : Setup) (fuel : ℕ) (r : Ref) :
    RestoresStackPointer s fuel r := by
  constructor
  · intro w v hentry hcont hv
    obtain ⟨status, u, -, hentering, rfl⟩ := enterStage_entering hentry hv
    rw [translateSyscall_enter hentry hv, (hentering.finished status).pushed, World.update_self]
    exact hentering.stackPointer hcont status
  · intro w v hexit hchanged hv
    have hstill : (v.heap r).regs.wereChanged = true := by
      rw [exitStage_apply] at hv
      obtain ⟨-, -, -, pokes, hpokes⟩ := finishExit_sets hexit fuel hv
      by_contra hsame
      rw [hpokes] at hsame
      have hnone := pokeAll_wereChanged (by simpa using hsame)
      rw [hnone, enteredExit_heap] at hsame
      exact hsame hchanged
    obtain ⟨pokes, hpokes, hpushed⟩ := translateSyscall_pushes s hexit fuel hv hstill
    rw [enteredExit_heap] at hpokes
    rw [hpushed, hpokes]
    refine registerIn_congr fun i hi => ?_
    exact (restoreOriginalRegs_restoresEntry { (w.heap r).regs with
      current := (fetchReply s r w).bank, restoreOriginal := true } rfl).kept .stackPointer
        (stackPointer_kept _) i hi

/-- From an aligned stack pointer all calls of a stage return an error or a block of their own below
it, and it is found again after the syscall, if and only if all of them fit. -/
theorem stackAllocations_sound_iff (s : Setup) (fuel : ℕ) (r : Ref) (isAarch32 : Bool)
    (writeData : ℕ → ℕ → ℤ) (regs : Regs) (calls : List Allocation)
    (haligned : 16 ∣ stackPointerOf s.target isAarch32 regs .current)
    (hsizes : ∀ call ∈ calls, call.size < 2 ^ s.target.wordBits) :
    SoundAllocations s.target isAarch32 writeData calls (saveOriginalRegs regs) [] ∧
        RestoresStackPointer s fuel r ↔
      AllocationsFit s.target isAarch32 writeData calls (saveOriginalRegs regs) := by
  have hsame : ∀ version, version ≠ .modified →
      stackPointerOf s.target isAarch32 (saveOriginalRegs regs) version =
        stackPointerOf s.target isAarch32 regs .current := by
    intro version hversion
    cases version with
    | current => rfl
    | original => rfl
    | modified => exact absurd rfl hversion
  have hstart : StackAbove s.target isAarch32 (saveOriginalRegs regs) [] := by
    constructor
    all_goals try rw [hsame .current nofun]
    all_goals try rw [hsame .original nofun]
    · exact haligned
    · exact haligned
    · exact .inr rfl
    · exact List.forall_mem_nil _
  rw [and_iff_left (restoresStackPointer s fuel r)]
  exact hstart.soundAllocations_iff hsizes

/-- The registers of a process with a stack. -/
def stackRegs : Regs :=
  let bank := (Mode.mk .arm64 false).setWord zeroBank .stackPointer 0x7ffffff000
  ⟨bank, bank, bank, false, false⟩

/-- Two blocks are allocated, and given back at the exit. -/
theorem stackAllocations_sound_iff_twoBlocks :
    SoundAllocations (arm64 fun _ => .void) false (fun _ _ => 0)
        [.mem 100, .sysargData 9 .sysarg1] (saveOriginalRegs stackRegs) [] ∧
      RestoresStackPointer (Script.setup {}) 3 0 := by
  refine (stackAllocations_sound_iff (Script.setup {}) 3 0 false (fun _ _ => 0) stackRegs
    [.mem 100, .sysargData 9 .sysarg1] ?_ ?_).mpr ?_
  · decide
  · decide
  · refine ⟨.inr ?_, .inr (.inl ⟨?_, ?_⟩), trivial⟩
    · change 100 + 16 ≤ 2 ^ 63
      decide
    · change 9 + 16 ≤ 2 ^ 63
      decide
    · decide

/-- A block of 2^64 - 1 bytes begins 16 bytes below the stack pointer. -/
theorem hugeBlock_notSound :
    16 ∣ stackPointerOf (arm64 fun _ => .void) false stackRegs .current ∧
      ¬(SoundAllocations (arm64 fun _ => .void) false (fun _ _ => 0) [.mem (2 ^ 64 - 1)]
          (saveOriginalRegs stackRegs) [] ∧
        RestoresStackPointer (Script.setup {}) 3 0) := by
  refine ⟨by decide, ?_⟩
  rintro ⟨⟨hsound, -⟩, -⟩
  have hblock : ((Allocation.mem (2 ^ 64 - 1)).run (arm64 fun _ => .void)
      (modeOf (arm64 fun _ => .void) false) (fun _ _ => 0) (saveOriginalRegs stackRegs)).1 =
      .block 0x7fffffeff0 := by
    decide +kernel
  rw [hblock] at hsound
  have hend := hsound.2.2.1
  revert hend
  decide

end Abyss
