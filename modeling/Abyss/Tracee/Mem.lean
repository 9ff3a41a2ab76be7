import Abyss.Library.Bytes
import Abyss.Library.Machine
import Abyss.Tracee.Reg

/-!
# The memory of a tracee

The tracer reads and writes the memory of a tracee with `process_vm_readv` and
`process_vm_writev`, which may transfer less than they were asked for, and otherwise with the
requests of `ptrace`, which transfer one word. What the kernel does is a parameter: which bytes
are accessible, what comes of each transfer, and the error of a request that fails. A transfer
only moves accessible bytes; a request that fails changes nothing, and one that succeeds does not
touch `errno`. User memory ends below the top of the address space, so addresses do not wrap.
-/

namespace Abyss

open Machine Bytes

/-- `sizeof(word_t)`. -/
def Cpu.wordBytes : Cpu → ℕ
  | .armEabi => 4
  | .arm64 => 8

/-- A word has eight bits for each byte. -/
theorem Cpu.wordBits_eq (cpu : Cpu) : cpu.wordBits = 8 * cpu.wordBytes := by
  cases cpu <;> rfl

/-- A word is not empty. -/
theorem Cpu.wordBytes_pos (cpu : Cpu) : 0 < cpu.wordBytes := by
  cases cpu <;> decide

/-- `word_t`. -/
abbrev Cpu.Word (cpu : Cpu) := BitVec cpu.wordBits

/-- `sizeof_word`. -/
def Mode.sizeofWord (m : Mode) : ℕ :=
  if m.is32on64 = true then m.cpu.wordBytes / 2 else m.cpu.wordBytes

/-- `EIO`. -/
def eio : ℕ := 5

/-- `EFAULT`. -/
def efault : ℕ := 14

/-- What comes of a transfer: the bytes moved are counted, or `errno` is set. -/
inductive Transfer where
  | moved (count : ℕ)
  | failed (errno : ℕ)
deriving DecidableEq

/-- The access the kernel gives to the memory of a tracee. Transfers are told apart by their number,
so that the same transfer may go differently when it is tried again. -/
structure Kernel where
  accessible : ℕ → Bool
  transfer : ℕ → ℕ → ℕ → Transfer
  fault : ℕ → ℕ
  pageSize : ℕ
  moved_accessible : ∀ {call a n c}, transfer call a n = .moved c →
    c ≤ n ∧ ∀ j < c, accessible (a + j) = true
  failed_ne_zero : ∀ {call a n e}, transfer call a n = .failed e → e ≠ 0
  fault_ne_zero : ∀ a, fault a ≠ 0
  pageSize_pow : ∃ b, pageSize = 2 ^ b

/-- The memory of the tracee, the buffer of the tracer, `errno`, and the number of transfers made. -/
structure Memory where
  bytes : ℕ → Byte
  buffer : List Byte
  errno : ℕ
  calls : ℕ

/-- What may go wrong in the tracer itself. -/
inductive MemoryFault where
  | outOfBounds
  | assertion
  | outOfFuel
deriving DecidableEq

/-- A program of the tracer. -/
abbrev MemoryProg (α : Type) := Machine Memory MemoryFault α

/-- All bytes of a range are accessible. -/
def Kernel.Grants (k : Kernel) (a n : ℕ) : Prop := ∀ j < n, k.accessible (a + j) = true

instance (k : Kernel) (a n : ℕ) : Decidable (k.Grants a n) := Nat.decidableBallLT n _

section Programs

variable (k : Kernel) (cpu : Cpu)

/-- Set `errno`. -/
def setErrno (errno : ℕ) : MemoryProg Unit := modify fun s => { s with errno }

/-- `process_vm_readv` of one range: the status, and the bytes moved. -/
def processVmReadv (a n : ℕ) : MemoryProg (ℤ × List Byte) := do
  let s ← read
  modify fun s => { s with calls := s.calls + 1 }
  match k.transfer s.calls a n with
  | .moved c => pure ((c : ℤ), block s.bytes a c)
  | .failed e => do
    setErrno e
    pure (-1, [])

/-- `process_vm_writev` of one range. -/
def processVmWritev (a : ℕ) (data : List Byte) : MemoryProg ℤ := do
  let s ← read
  modify fun s => { s with calls := s.calls + 1 }
  match k.transfer s.calls a data.length with
  | .moved c => do
    modify fun s => { s with bytes := splice s.bytes a (data.take c) }
    pure (c : ℤ)
  | .failed e => do
    setErrno e
    pure (-1)

/-- `PTRACE_PEEKDATA`. -/
def ptracePeekData (a : ℕ) : MemoryProg cpu.Word := do
  let s ← read
  if k.Grants a cpu.wordBytes then
    pure (wordOf cpu.wordBits (fun j => s.bytes (a + j)) cpu.wordBytes)
  else do
    setErrno (k.fault a)
    pure (-1)

/-- `PTRACE_POKEDATA`. -/
def ptracePokeData (a : ℕ) (word : cpu.Word) : MemoryProg ℤ :=
  if k.Grants a cpu.wordBytes then do
    modify fun s => { s with bytes := splice s.bytes a (bytesOf word cpu.wordBytes) }
    pure 0
  else do
    setErrno (k.fault a)
    pure (-1)

/-- `EIO` and `EFAULT` are returned more or less arbitrarily; only the latter is reported. -/
def normalizeFault : MemoryProg Unit := do
  let s ← read
  when (s.errno = eio) (setErrno efault)

end Programs

/-- Return the word at an address; `errno` tells whether it could be read. -/
def peekWord (k : Kernel) (m : Mode) (address : ℕ) : MemoryProg m.cpu.Word := do
  setErrno 0
  let (status, moved) ← processVmReadv k address m.sizeofWord
  if status > 0 then pure (wordOf m.cpu.wordBits (fun j => moved.getD j 0) moved.length)
  else do
    setErrno 0
    let result ← ptracePeekData k m.cpu address
    normalizeFault
    if m.is32on64 = true then pure (result &&& 0xFFFFFFFF) else pure result

/-- Set a whole word with `ptrace`. -/
def pokeWholeWord (k : Kernel) (cpu : Cpu) (address : ℕ) (value : cpu.Word) :
    MemoryProg Unit := do
  setErrno 0
  let _ ← ptracePokeData k cpu address value
  normalizeFault

/-- Set the word at an address; `errno` tells whether it could be written. -/
def pokeWord (k : Kernel) (m : Mode) (address : ℕ) (value : m.cpu.Word) : MemoryProg Unit := do
  setErrno 0
  -- On a little-endian processor the value starts with its least significant bytes.
  let status ← processVmWritev k address (bytesOf value m.sizeofWord)
  if status > 0 then pure ()
  else if m.is32on64 = true then do
    setErrno 0
    let tmp ← ptracePeekData k m.cpu address
    let s ← read
    if s.errno ≠ 0 then pure ()
    else pokeWholeWord k m.cpu address (value ||| (tmp &&& 0xFFFFFFFF00000000))
  else pokeWholeWord k m.cpu address value

/-! ## What the requests do -/

section Requests

variable {k : Kernel} {cpu : Cpu} {s : Memory} {a n c e : ℕ} {data : List Byte}

/-- Only `errno` is set. -/
theorem setErrno_apply (errno : ℕ) (s : Memory) :
    setErrno errno s = (.ok (), { s with errno }) := rfl

/-- A read that moves some bytes. -/
theorem processVmReadv_moved (h : k.transfer s.calls a n = .moved c) :
    processVmReadv k a n s = (.ok (↑c, block s.bytes a c), { s with calls := s.calls + 1 }) := by
  simp [processVmReadv, bind_apply, h]

/-- A read that fails. -/
theorem processVmReadv_failed (h : k.transfer s.calls a n = .failed e) :
    processVmReadv k a n s = (.ok (-1, []), { s with calls := s.calls + 1, errno := e }) := by
  simp [processVmReadv, setErrno, bind_apply, h]

/-- A write that moves some bytes. -/
theorem processVmWritev_moved (h : k.transfer s.calls a data.length = .moved c) :
    processVmWritev k a data s =
      (.ok ↑c, { s with calls := s.calls + 1, bytes := splice s.bytes a (data.take c) }) := by
  simp [processVmWritev, bind_apply, h]

/-- A write that fails. -/
theorem processVmWritev_failed (h : k.transfer s.calls a data.length = .failed e) :
    processVmWritev k a data s = (.ok (-1), { s with calls := s.calls + 1, errno := e }) := by
  simp [processVmWritev, setErrno, bind_apply, h]

/-- A word that may be read is. -/
theorem ptracePeekData_granted (h : k.Grants a cpu.wordBytes) :
    ptracePeekData k cpu a s =
      (.ok (wordOf cpu.wordBits (fun j => s.bytes (a + j)) cpu.wordBytes), s) := by
  simp [ptracePeekData, bind_apply, h]

/-- A word that may not is -1, with the fault in `errno`. -/
theorem ptracePeekData_refused (h : ¬k.Grants a cpu.wordBytes) :
    ptracePeekData k cpu a s = (.ok (-1), { s with errno := k.fault a }) := by
  simp [ptracePeekData, setErrno, bind_apply, h]

/-- A word that may be written is. -/
theorem ptracePokeData_granted {word : cpu.Word} (h : k.Grants a cpu.wordBytes) :
    ptracePokeData k cpu a word s =
      (.ok 0, { s with bytes := splice s.bytes a (bytesOf word cpu.wordBytes) }) := by
  simp [ptracePokeData, bind_apply, h]

/-- A word that may not is refused, with the fault in `errno`. -/
theorem ptracePokeData_refused {word : cpu.Word} (h : ¬k.Grants a cpu.wordBytes) :
    ptracePokeData k cpu a word s = (.ok (-1), { s with errno := k.fault a }) := by
  simp [ptracePokeData, setErrno, bind_apply, h]

/-- An error stays an error. -/
theorem normalizeFault_apply (s : Memory) :
    ∃ errno, normalizeFault s = (.ok (), { s with errno }) ∧ (errno = 0 ↔ s.errno = 0) := by
  by_cases h : s.errno = eio
  · refine ⟨efault, ?_, ?_⟩
    · simp [normalizeFault, when, setErrno, bind_apply, h]
    · rw [h]
      decide
  · refine ⟨s.errno, ?_, Iff.rfl⟩
    simp [normalizeFault, when, bind_apply, h]

end Requests

/-! ## Words -/

/-- The word that is in memory, without sign. -/
def Memory.wordAt (s : Memory) (m : Mode) (a : ℕ) : m.cpu.Word :=
  wordOf m.cpu.wordBits (fun j => s.bytes (a + j)) m.sizeofWord

/-- A word is read as it is in memory if all its bytes are accessible, and `errno` tells which is the
case. -/
def PeeksWord (k : Kernel) (m : Mode) (a : ℕ) (s : Memory) : Prop :=
  ∃ v s', peekWord k m a s = (.ok v, s') ∧ s'.bytes = s.bytes ∧
    if k.Grants a m.sizeofWord then v = s.wordAt m a ∧ s'.errno = 0 else s'.errno ≠ 0

/-- The bytes of a word, and no others, are written if they all are accessible, and `errno` tells
which is the case. -/
def PokesWord (k : Kernel) (m : Mode) (a : ℕ) (value : m.cpu.Word) (s : Memory) : Prop :=
  ∃ s', pokeWord k m a value s = (.ok (), s') ∧
    if k.Grants a m.sizeofWord then
      s'.bytes = splice s.bytes a (bytesOf value m.sizeofWord) ∧ s'.errno = 0
    else s'.bytes = s.bytes ∧ s'.errno ≠ 0

/-- A transfer that moves something moves the whole word, or what is missing happens to be zero.
Otherwise the bytes around the word are accessible with it. -/
def PeekFits (k : Kernel) (m : Mode) (a : ℕ) (s : Memory) : Prop :=
  match k.transfer s.calls a m.sizeofWord with
  | .moved (c + 1) => c + 1 = m.sizeofWord ∨
      k.Grants a m.sizeofWord ∧ ∀ j, c + 1 ≤ j → j < m.sizeofWord → s.bytes (a + j) = 0
  | _ => k.Grants a m.sizeofWord → k.Grants a m.cpu.wordBytes

/-- A transfer that moves something moves the whole word, or what is missing happens to be there.
Otherwise the bytes around the word are accessible with it, and the value has no bits there that they
do not have. -/
def PokeFits (k : Kernel) (m : Mode) (a : ℕ) (value : m.cpu.Word) (s : Memory) : Prop :=
  match k.transfer s.calls a m.sizeofWord with
  | .moved (c + 1) => c + 1 = m.sizeofWord ∨ k.Grants a m.sizeofWord ∧
      ∀ j, c + 1 ≤ j → j < m.sizeofWord → s.bytes (a + j) = byteOf value j
  | _ => k.Grants a m.sizeofWord → k.Grants a m.cpu.wordBytes ∧
      ∀ j, m.sizeofWord ≤ j → j < m.cpu.wordBytes →
        byteOf value j ||| s.bytes (a + j) = s.bytes (a + j)

section Words

variable {k : Kernel} {m : Mode} {a : ℕ} {s : Memory}

/-- The words of a mode are not longer than those of the tracer. -/
theorem sizeofWord_le (m : Mode) : m.sizeofWord ≤ m.cpu.wordBytes := by
  unfold Mode.sizeofWord
  split
  · exact Nat.div_le_self ..
  · exact Nat.le_refl _

/-- A word of a mode is not empty. -/
theorem sizeofWord_pos (m : Mode) : 0 < m.sizeofWord := by
  obtain ⟨cpu, isAarch32⟩ := m
  cases cpu <;> cases isAarch32 <;> decide

/-- A part of a range is accessible if the range is. -/
theorem Kernel.Grants.mono {n n' : ℕ} (h : k.Grants a n') (hle : n ≤ n') : k.Grants a n :=
  fun j hj => h j (Nat.lt_of_lt_of_le hj hle)

/-- A range is accessible if its parts are. -/
theorem Kernel.grants_add {n n' : ℕ} :
    k.Grants a (n + n') ↔ k.Grants a n ∧ k.Grants (a + n) n' := by
  constructor
  · intro h
    refine ⟨h.mono (Nat.le_add_right ..), fun j hj => ?_⟩
    rw [Nat.add_assoc]
    exact h (n + j) (Nat.add_lt_add_left hj n)
  · rintro ⟨h, h'⟩ j hj
    rcases Nat.lt_or_ge j n with hlt | hge
    · exact h j hlt
    · obtain ⟨i, rfl⟩ := Nat.exists_eq_add_of_le hge
      rw [← Nat.add_assoc]
      exact h' i (Nat.lt_of_add_lt_add_left hj)

/-- The bytes of a word fit into a word of the processor. -/
theorem sizeofWord_bits (m : Mode) : 8 * m.sizeofWord ≤ m.cpu.wordBits := by
  rw [Cpu.wordBits_eq]
  exact Nat.mul_le_mul_left 8 (sizeofWord_le m)

/-- A transfer that moves something ends the reading. -/
theorem peekWord_moved {c : ℕ} (h : k.transfer s.calls a m.sizeofWord = .moved (c + 1)) :
    peekWord k m a s = (.ok (wordOf m.cpu.wordBits (fun j => s.bytes (a + j)) (c + 1)),
      { s with errno := 0, calls := s.calls + 1 }) := by
  have hread := processVmReadv_moved (k := k) (s := { s with errno := 0 }) (a := a)
    (n := m.sizeofWord) h
  have hpos : (0 : ℤ) < ↑(c + 1) := Int.natCast_pos.mpr (Nat.succ_pos c)
  unfold peekWord
  rw [bind_apply_ok (setErrno_apply 0 s), bind_apply_ok hread]
  dsimp only
  rw [if_pos hpos, block_length]
  refine congrArg (fun v => (Except.ok v, _)) (wordOf_congr fun j hj => ?_)
  rw [List.getD_eq_getElem?_getD, List.getElem?_eq_getElem (by rwa [block_length]), block_getElem]
  rfl

/-- Without anything moved the word is asked of `ptrace`. -/
theorem peekWord_nothing (h : ∀ c, k.transfer s.calls a m.sizeofWord = .moved (c + 1) → False) :
    peekWord k m a s =
      (do let result ← ptracePeekData k m.cpu a
          normalizeFault
          if m.is32on64 = true then pure (result &&& 0xFFFFFFFF) else pure result :
        MemoryProg m.cpu.Word) { s with errno := 0, calls := s.calls + 1 } := by
  unfold peekWord
  rw [bind_apply_ok (setErrno_apply 0 s)]
  match htransfer : k.transfer s.calls a m.sizeofWord with
  | .moved 0 => exact bind_apply_ok (processVmReadv_moved (s := { s with errno := 0 }) htransfer)
  | .moved (c + 1) => exact (h c htransfer).elim
  | .failed e => exact bind_apply_ok (processVmReadv_failed (s := { s with errno := 0 }) htransfer)

/-- What `ptrace` returned becomes the result. -/
theorem peekWord_result {whole : m.cpu.Word} {s' : Memory}
    (h : ptracePeekData k m.cpu a { s with errno := 0, calls := s.calls + 1 } = (.ok whole, s'))
    (hnothing : ∀ c, k.transfer s.calls a m.sizeofWord = .moved (c + 1) → False) :
    ∃ errno, peekWord k m a s =
        (.ok (if m.is32on64 = true then whole &&& 0xFFFFFFFF else whole), { s' with errno }) ∧
      (errno = 0 ↔ s'.errno = 0) := by
  obtain ⟨errno, hnormal, hzero⟩ := normalizeFault_apply s'
  refine ⟨errno, ?_, hzero⟩
  rw [peekWord_nothing hnothing, bind_apply_ok h, bind_apply_ok hnormal]
  split <;> rfl

/-- The lower half of a word of the 64-bit processor. -/
theorem wordOf_and_low (f : ℕ → Byte) :
    wordOf 64 f 8 &&& 0xFFFFFFFF = wordOf 64 f 4 := by
  refine BitVec.eq_of_getLsbD_eq fun i hi => ?_
  have hmask : (0xFFFFFFFF : BitVec 64).getLsbD i = decide (i < 32) := by
    rw [show (0xFFFFFFFF : BitVec 64) = BitVec.ofNat 64 (2 ^ 32 - 1) from rfl,
      BitVec.getLsbD_ofNat, Nat.testBit_two_pow_sub_one]
    simp [hi]
  rw [BitVec.getLsbD_and, hmask, wordOf_getLsbD, wordOf_getLsbD]
  by_cases hlow : i < 32
  · simp [hi, hlow]
  · simp [hlow]

/-- What `ptrace` reads is the word in memory. -/
theorem wordAt_whole (s : Memory) (m : Mode) (a : ℕ) :
    (if m.is32on64 = true then
      wordOf m.cpu.wordBits (fun j => s.bytes (a + j)) m.cpu.wordBytes &&& 0xFFFFFFFF
    else wordOf m.cpu.wordBits (fun j => s.bytes (a + j)) m.cpu.wordBytes) = s.wordAt m a := by
  obtain ⟨cpu, isAarch32⟩ := m
  cases cpu with
  | armEabi => rfl
  | arm64 =>
    cases isAarch32 with
    | false => rfl
    | true => exact wordOf_and_low _

/-- A word is read as it is meant to be exactly if the transfer fits it. -/
theorem peekWord_iff : PeeksWord k m a s ↔ PeekFits k m a s := by
  unfold PeekFits
  split
  · rename_i c htransfer
    obtain ⟨hle, hmoved⟩ := k.moved_accessible htransfer
    have hrest := wordOf_eq_iff (f := fun j => s.bytes (a + j)) hle (sizeofWord_bits m)
    constructor
    · rintro ⟨v, s', hrun, -, hword⟩
      rw [peekWord_moved htransfer] at hrun
      obtain ⟨hv, rfl⟩ := Prod.mk.inj hrun
      by_cases hgrants : k.Grants a m.sizeofWord
      · rw [if_pos hgrants] at hword
        exact Or.inr ⟨hgrants, hrest.mp ((Except.ok.inj hv).trans hword.1)⟩
      · rw [if_neg hgrants] at hword
        exact absurd rfl hword
    · intro hfits
      have hgrants : k.Grants a m.sizeofWord := hfits.elim (fun hall => hall ▸ hmoved) And.left
      refine ⟨_, _, peekWord_moved htransfer, rfl, ?_⟩
      rw [if_pos hgrants]
      refine ⟨hrest.mpr (hfits.elim (fun hall j hj hlt => ?_) And.right), rfl⟩
      exact absurd hlt (Nat.not_lt_of_le (hall ▸ hj))
  · rename_i hnothing
    by_cases hwhole : k.Grants a m.cpu.wordBytes
    · obtain ⟨errno, hrun, hzero⟩ := peekWord_result (ptracePeekData_granted hwhole) hnothing
      refine iff_of_true ⟨_, _, hrun, rfl, ?_⟩ fun _ => hwhole
      rw [if_pos (hwhole.mono (sizeofWord_le m))]
      exact ⟨wordAt_whole s m a, hzero.mpr rfl⟩
    · obtain ⟨errno, hrun, hzero⟩ := peekWord_result (ptracePeekData_refused hwhole) hnothing
      have herrno : errno ≠ 0 := fun h => k.fault_ne_zero a (hzero.mp h)
      constructor
      · rintro ⟨v, s', hrun', -, hword⟩ hgrants
        rw [hrun] at hrun'
        obtain ⟨-, rfl⟩ := Prod.mk.inj hrun'
        rw [if_pos hgrants] at hword
        exact absurd hword.2 herrno
      · intro hfits
        refine ⟨_, _, hrun, rfl, ?_⟩
        rw [if_neg fun hgrants => hwhole (hfits hgrants)]
        exact herrno

/-! ## Writing words -/

variable {value : m.cpu.Word}

/-- A transfer that moves something ends the writing. -/
theorem pokeWord_moved {c : ℕ} (h : k.transfer s.calls a m.sizeofWord = .moved (c + 1)) :
    pokeWord k m a value s = (.ok (),
      { s with
        errno := 0
        calls := s.calls + 1
        bytes := splice s.bytes a ((bytesOf value m.sizeofWord).take (c + 1)) }) := by
  have hlength : (bytesOf value m.sizeofWord).length = m.sizeofWord := bytesOf_length ..
  have hwrite := processVmWritev_moved (k := k) (s := { s with errno := 0 }) (a := a)
    (hlength.symm ▸ h)
  have hpos : (0 : ℤ) < ↑(c + 1) := Int.natCast_pos.mpr (Nat.succ_pos c)
  unfold pokeWord
  rw [bind_apply_ok (setErrno_apply 0 s), bind_apply_ok hwrite, if_pos hpos]
  rfl

/-- Without anything moved the word is left to `ptrace`. -/
theorem pokeWord_nothing (value : m.cpu.Word)
    (h : ∀ c, k.transfer s.calls a m.sizeofWord = .moved (c + 1) → False) :
    ∃ errno, pokeWord k m a value s =
      (if m.is32on64 = true then do
        setErrno 0
        let tmp ← ptracePeekData k m.cpu a
        let s ← read
        if s.errno ≠ 0 then pure ()
        else pokeWholeWord k m.cpu a (value ||| (tmp &&& 0xFFFFFFFF00000000))
      else pokeWholeWord k m.cpu a value) { s with errno, calls := s.calls + 1 } := by
  unfold pokeWord
  rw [bind_apply_ok (setErrno_apply 0 s)]
  match htransfer : k.transfer s.calls a m.sizeofWord with
  | .moved 0 =>
    refine ⟨0, (bind_apply_ok (processVmWritev_moved (c := 0) ?_)).trans ?_⟩
    · rwa [bytesOf_length]
    · simp
  | .moved (c + 1) => exact (h c htransfer).elim
  | .failed e =>
    refine ⟨e, (bind_apply_ok (processVmWritev_failed (e := e) ?_)).trans ?_⟩
    · rwa [bytesOf_length]
    · simp

/-- A whole word is written if it is accessible. -/
theorem pokeWholeWord_apply (s : Memory) (word : m.cpu.Word) :
    ∃ errno, pokeWholeWord k m.cpu a word s =
        (.ok (), { s with
          errno
          bytes := if k.Grants a m.cpu.wordBytes then
            splice s.bytes a (bytesOf word m.cpu.wordBytes) else s.bytes }) ∧
      (errno = 0 ↔ k.Grants a m.cpu.wordBytes) := by
  unfold pokeWholeWord
  rw [bind_apply_ok (setErrno_apply 0 s)]
  by_cases hwhole : k.Grants a m.cpu.wordBytes
  · rw [bind_apply_ok (ptracePokeData_granted hwhole), if_pos hwhole]
    obtain ⟨errno, hnormal, hzero⟩ := normalizeFault_apply
      { s with errno := 0, bytes := splice s.bytes a (bytesOf word m.cpu.wordBytes) }
    exact ⟨errno, hnormal, iff_of_true (hzero.mpr rfl) hwhole⟩
  · rw [bind_apply_ok (ptracePokeData_refused hwhole), if_neg hwhole]
    obtain ⟨errno, hnormal, hzero⟩ := normalizeFault_apply { s with errno := k.fault a }
    exact ⟨errno, hnormal, iff_of_false (fun h => k.fault_ne_zero a (hzero.mp h)) hwhole⟩

/-- The bytes of the upper half of a word of the 64-bit processor. -/
theorem byteOf_and_high (v : BitVec 64) {j : ℕ} (hj : j < 8) :
    byteOf (v &&& 0xFFFFFFFF00000000) j = if j < 4 then 0 else byteOf v j := by
  have hmask : ∀ i, (0xFFFFFFFF00000000 : BitVec 64).getLsbD i =
      (decide (i < 64) && decide (32 ≤ i)) := by
    intro i
    rw [show (0xFFFFFFFF00000000 : BitVec 64) = BitVec.ofNat 64 (2 ^ 32 - 1) <<< 32 from rfl,
      BitVec.getLsbD_shiftLeft, BitVec.getLsbD_ofNat, Nat.testBit_two_pow_sub_one]
    by_cases hlow : i < 32
    · simp [hlow]
    · by_cases hup : i < 64
      · have hshift : i - 32 < 32 := by omega
        have hwide : i - 32 < 64 := by omega
        simp [hlow, hup, hshift, hwide, Nat.le_of_not_lt hlow]
      · simp [hup]
  refine BitVec.eq_of_getLsbD_eq fun i hi => ?_
  rw [byteOf, BitVec.getLsbD_extractLsb', BitVec.getLsbD_and, hmask]
  split
  · have hlow : ¬32 ≤ 8 * j + i := by omega
    simp [hlow]
  · have hup : 8 * j + i < 64 := by omega
    have hhigh : 32 ≤ 8 * j + i := by omega
    simp [byteOf, hi, hup, hhigh]

/-- What is written for a word of an AArch32 process: the word, and beside it the bits that are there
or in the value. -/
theorem byteOf_merged (hmode : m.is32on64 = true) (f : ℕ → Byte) (value : m.cpu.Word) {j : ℕ}
    (hj : j < m.cpu.wordBytes) :
    byteOf (value ||| (wordOf m.cpu.wordBits f m.cpu.wordBytes &&& 0xFFFFFFFF00000000)) j =
      if j < m.sizeofWord then byteOf value j else byteOf value j ||| f j := by
  obtain ⟨cpu, isAarch32⟩ := m
  cases cpu with
  | armEabi => cases hmode
  | arm64 =>
    cases isAarch32 with
    | false => cases hmode
    | true =>
      rw [byteOf_or]
      refine (congrArg (byteOf value j ||| ·) (byteOf_and_high _ hj)).trans ?_
      change _ = if j < 4 then _ else _
      split
      · simp
      · exact congrArg (byteOf value j ||| ·) (byteOf_wordOf (w := 64) (n := 8) hj (Nat.le_refl _))

/-- In a process of the processor's own mode `ptrace` writes a word as it is meant to be. -/
theorem pokeWord_native (hmode : m.is32on64 = false)
    (hnothing : ∀ c, k.transfer s.calls a m.sizeofWord = .moved (c + 1) → False) :
    PokesWord k m a value s := by
  obtain ⟨errno, hrun⟩ := pokeWord_nothing value hnothing
  obtain ⟨errno', hpoke, hzero⟩ := pokeWholeWord_apply (k := k) (a := a)
    { s with errno, calls := s.calls + 1 } value
  have hsize : m.sizeofWord = m.cpu.wordBytes := by
    rw [Mode.sizeofWord, hmode, if_neg Bool.false_ne_true]
  rw [hmode, if_neg Bool.false_ne_true, hpoke] at hrun
  refine ⟨_, hrun, ?_⟩
  rw [hsize]
  by_cases hwhole : k.Grants a m.cpu.wordBytes
  · rw [if_pos hwhole]
    exact ⟨if_pos hwhole, hzero.mpr hwhole⟩
  · rw [if_neg hwhole]
    exact ⟨if_neg hwhole, fun h => hwhole (hzero.mp h)⟩

/-- What is written starts with the word, and changes nothing else exactly if the value has no other
bits beside the word than those that are there. -/
theorem splice_merged_iff (hmode : m.is32on64 = true) (f : ℕ → Byte) (value : m.cpu.Word) :
    splice f a (bytesOf (value ||| (wordOf m.cpu.wordBits (fun j => f (a + j)) m.cpu.wordBytes &&&
        0xFFFFFFFF00000000)) m.cpu.wordBytes) = splice f a (bytesOf value m.sizeofWord) ↔
      ∀ j, m.sizeofWord ≤ j → j < m.cpu.wordBytes → byteOf value j ||| f (a + j) = f (a + j) := by
  generalize hmerged : value ||| (wordOf m.cpu.wordBits (fun j => f (a + j)) m.cpu.wordBytes &&&
    0xFFFFFFFF00000000) = merged
  have hbytes : ∀ j < m.cpu.wordBytes, byteOf merged j =
      if j < m.sizeofWord then byteOf value j else byteOf value j ||| f (a + j) := fun j hj =>
    hmerged ▸ byteOf_merged hmode (fun j => f (a + j)) value hj
  have htake : (bytesOf merged m.cpu.wordBytes).take m.sizeofWord = bytesOf value m.sizeofWord := by
    refine List.ext_getElem (by simp [sizeofWord_le]) fun j hj hj' => ?_
    rw [bytesOf_length] at hj'
    rw [List.getElem_take, bytesOf_getElem, bytesOf_getElem,
      hbytes j (Nat.lt_of_lt_of_le hj' (sizeofWord_le m)), if_pos hj']
  rw [← htake, eq_comm, splice_take_iff]
  simp only [bytesOf_length, bytesOf_getElem]
  constructor
  · intro h j hn hj
    have hkept := h j hj hn
    rw [hbytes j hj, if_neg (Nat.not_lt_of_le hn)] at hkept
    exact hkept.symm
  · intro h j hj hn
    rw [hbytes j hj, if_neg (Nat.not_lt_of_le hn), h j hn hj]

/-- In an AArch32 process `ptrace` also reads and writes the bytes behind the word. -/
theorem pokeWord_half (hmode : m.is32on64 = true)
    (hnothing : ∀ c, k.transfer s.calls a m.sizeofWord = .moved (c + 1) → False) :
    PokesWord k m a value s ↔ (k.Grants a m.sizeofWord → k.Grants a m.cpu.wordBytes ∧
      ∀ j, m.sizeofWord ≤ j → j < m.cpu.wordBytes →
        byteOf value j ||| s.bytes (a + j) = s.bytes (a + j)) := by
  obtain ⟨errno, hrun⟩ := pokeWord_nothing value hnothing
  rw [if_pos hmode, bind_apply_ok (setErrno_apply 0 _)] at hrun
  by_cases hwhole : k.Grants a m.cpu.wordBytes
  · rw [bind_apply_ok (ptracePeekData_granted hwhole), bind_apply_ok (read_apply _),
      if_neg (by simp)] at hrun
    obtain ⟨errno', hpoke, hzero⟩ := pokeWholeWord_apply (k := k) (a := a)
      { s with errno := 0, calls := s.calls + 1 }
      (value ||| (wordOf m.cpu.wordBits (fun j => s.bytes (a + j)) m.cpu.wordBytes &&&
        0xFFFFFFFF00000000))
    rw [if_pos hwhole] at hpoke
    have hgrants := hwhole.mono (sizeofWord_le m)
    have hmerged := splice_merged_iff (a := a) hmode s.bytes value
    constructor
    · rintro ⟨s', hrun', hword⟩ -
      rw [hrun.trans hpoke] at hrun'
      obtain ⟨-, rfl⟩ := Prod.mk.inj hrun'
      rw [if_pos hgrants] at hword
      exact ⟨hwhole, hmerged.mp hword.1⟩
    · intro hfits
      refine ⟨_, hrun.trans hpoke, ?_⟩
      rw [if_pos hgrants]
      exact ⟨hmerged.mpr (hfits hgrants).2, hzero.mpr hwhole⟩
  · rw [bind_apply_ok (ptracePeekData_refused hwhole), bind_apply_ok (read_apply _),
      if_pos (k.fault_ne_zero a)] at hrun
    constructor
    · rintro ⟨s', hrun', hword⟩ hgrants
      rw [hrun] at hrun'
      obtain ⟨-, rfl⟩ := Prod.mk.inj hrun'
      rw [if_pos hgrants] at hword
      exact absurd hword.2 (k.fault_ne_zero a)
    · intro hfits
      refine ⟨_, hrun, ?_⟩
      rw [if_neg fun hgrants => hwhole (hfits hgrants).1]
      exact ⟨rfl, k.fault_ne_zero a⟩

/-- A word is written as it is meant to be exactly if the transfer fits it. -/
theorem pokeWord_iff : PokesWord k m a value s ↔ PokeFits k m a value s := by
  unfold PokeFits
  split
  · rename_i c htransfer
    obtain ⟨hle, hmoved⟩ := k.moved_accessible htransfer
    have hrest : splice s.bytes a ((bytesOf value m.sizeofWord).take (c + 1)) =
          splice s.bytes a (bytesOf value m.sizeofWord) ↔
        ∀ j, c + 1 ≤ j → j < m.sizeofWord → s.bytes (a + j) = byteOf value j := by
      rw [splice_take_iff]
      simp only [bytesOf_length, bytesOf_getElem]
      exact ⟨fun h j hc hj => h j hj hc, fun h j hj hc => h j hc hj⟩
    constructor
    · rintro ⟨s', hrun, hword⟩
      rw [pokeWord_moved htransfer] at hrun
      obtain ⟨-, rfl⟩ := Prod.mk.inj hrun
      by_cases hgrants : k.Grants a m.sizeofWord
      · rw [if_pos hgrants] at hword
        exact Or.inr ⟨hgrants, hrest.mp hword.1⟩
      · rw [if_neg hgrants] at hword
        exact absurd rfl hword.2
    · intro hfits
      have hgrants : k.Grants a m.sizeofWord := hfits.elim (fun hall => hall ▸ hmoved) And.left
      refine ⟨_, pokeWord_moved htransfer, ?_⟩
      rw [if_pos hgrants]
      refine ⟨hrest.mpr (hfits.elim (fun hall j hj hlt => ?_) And.right), rfl⟩
      exact absurd hlt (Nat.not_lt_of_le (hall ▸ hj))
  · rename_i hnothing
    cases hmode : m.is32on64 with
    | false =>
      have hsize : m.sizeofWord = m.cpu.wordBytes := by
        rw [Mode.sizeofWord, hmode, if_neg Bool.false_ne_true]
      refine iff_of_true (pokeWord_native hmode hnothing) ?_
      rw [hsize]
      exact fun hwhole => ⟨hwhole, fun j hj hlt => absurd hlt (Nat.not_lt_of_le hj)⟩
    | true => exact pokeWord_half hmode hnothing

/-- Words are read and written as they are meant to be exactly if the transfers fit them. -/
theorem wordAccess_iff (k : Kernel) (m : Mode) (a : ℕ) (value : m.cpu.Word) (s : Memory) :
    PeeksWord k m a s ∧ PokesWord k m a value s ↔ PeekFits k m a s ∧ PokeFits k m a value s :=
  and_congr peekWord_iff pokeWord_iff

/-- A process with one page, whose transfers end where the page ends. -/
def onePage : Kernel where
  accessible a := a < 4096
  transfer _ a n := .moved (min n (4096 - a))
  fault _ := eio
  pageSize := 4096
  moved_accessible h := by
    obtain rfl := Transfer.moved.inj h
    exact ⟨Nat.min_le_left .., fun j hj => decide_eq_true (by omega)⟩
  failed_ne_zero h := by cases h
  fault_ne_zero _ := by decide
  pageSize_pow := ⟨12, rfl⟩

/-- Two bytes before the end of the page a part of a word is taken for the whole word. -/
theorem peekWord_straddles :
    ¬(PeeksWord onePage ⟨.arm64, false⟩ 4094 ⟨fun _ => 1, [], 0, 0⟩ ∧
      PokesWord onePage ⟨.arm64, false⟩ 4094 0 ⟨fun _ => 1, [], 0, 0⟩) := by
  rintro ⟨hpeek, -⟩
  rcases peekWord_iff.mp hpeek with hall | ⟨hgrants, -⟩
  · exact absurd hall (by decide)
  · exact absurd (hgrants 2 (by decide)) (by decide)

end Words

end Abyss
