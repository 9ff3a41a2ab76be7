import Abyss.Tracee.Mem

/-!
# Blocks of the memory of a tracee

A block is transferred at once, or, if less than all of it was moved, word by word with the
requests of `ptrace`; the last word is read first when only a part of it belongs to the block.
A word is read successfully if `errno` is zero afterwards, whatever it was before.

Both ways are meant to give the same result. They do for a block whose transfer is complete, and
for one that ends with a word when it is written. For the others the whole last word has to be
accessible, and `errno` must not be left from another call, in particular not from the transfer.
-/

namespace Abyss

open Machine Bytes

/-- The status of a transfer. -/
def Transfer.status : Transfer → ℤ
  | .moved c => c
  | .failed _ => -1

/-- The number of bytes moved. -/
def Transfer.count : Transfer → ℕ
  | .moved c => c
  | .failed _ => 0

/-- `errno` after a transfer. -/
def Transfer.errno (errno : ℕ) : Transfer → ℕ
  | .moved _ => errno
  | .failed e => e

/-- `(size_t) status`. -/
def Cpu.sizeT (cpu : Cpu) (status : ℤ) : ℕ := (status % 2 ^ cpu.wordBits).toNat

/-- `(int) status`. -/
def intOf (status : ℤ) : ℤ := Int.bmod status (2 ^ 32)

section Programs

variable (k : Kernel) (cpu : Cpu)

/-- Store bytes in the buffer. -/
def storeBytes (i : ℕ) (data : List Byte) : MemoryProg Unit := do
  let s ← read
  if i + data.length ≤ s.buffer.length then
    modify fun s => { s with buffer := overwrite s.buffer i data }
  else fault .outOfBounds

/-- `load_word`: the word at an index of the source. -/
def loadWord (data : List Byte) (i : ℕ) : cpu.Word :=
  wordOf cpu.wordBits (fun j => data.getD (i + j) 0) cpu.wordBytes

/-- Copy the full words to the tracee, from the given one on. -/
def writeWords (dest : ℕ) (data : List Byte) : ℕ → ℕ → MemoryProg ℤ
  | 0, _ => pure 0
  | n + 1, i => do
    let status ← ptracePokeData k cpu (dest + i * cpu.wordBytes)
      (loadWord cpu data (i * cpu.wordBytes))
    if status < 0 then pure (-efault) else writeWords dest data n (i + 1)

/-- Copy the bytes in the last word, to overwrite only the relevant ones. -/
def writeTrailing (dest : ℕ) (data : List Byte) (trailing i : ℕ) : MemoryProg ℤ := do
  let word ← ptracePeekData k cpu (dest + i * cpu.wordBytes)
  let s ← read
  if s.errno ≠ 0 then pure (-efault)
  else do
    let merged := wordOf cpu.wordBits (fun j =>
      if j < trailing then data.getD (i * cpu.wordBytes + j) 0 else byteOf word j) cpu.wordBytes
    let status ← ptracePokeData k cpu (dest + i * cpu.wordBytes) merged
    if status < 0 then pure (-efault) else pure 0

/-- Copy a buffer to the tracee word by word. -/
def writeByWords (dest : ℕ) (data : List Byte) : MemoryProg ℤ := do
  let trailing := data.length % cpu.wordBytes
  let full := (data.length - trailing) / cpu.wordBytes
  let status ← writeWords k cpu dest data full 0
  if status < 0 then pure status
  else if trailing = 0 then pure 0
  else writeTrailing k cpu dest data trailing full

/-- Copy a buffer to the tracee. -/
def writeData (dest : ℕ) (data : List Byte) : MemoryProg ℤ := do
  let status ← processVmWritev k dest data
  if cpu.sizeT status = data.length then pure 0 else writeByWords k cpu dest data

/-- Copy the given buffers to the tracee one by one, behind a number of bytes. -/
def writeVectors (dest : ℕ) : List (List Byte) → ℕ → MemoryProg ℤ
  | [], _ => pure 0
  | data :: rest, size => do
    let status ← writeData k cpu (dest + size) data
    if status < 0 then pure status else writeVectors dest rest (size + data.length)

/-- Gather buffers to the tracee; the status of the transfer is an `int`. -/
def writevData (dest : ℕ) (vectors : List (List Byte)) : MemoryProg ℤ := do
  let status ← processVmWritev k dest vectors.flatten
  if cpu.sizeT (intOf status) = vectors.flatten.length then pure 0
  else writeVectors k cpu dest vectors 0

/-- Copy the full words from the tracee, from the given one on. -/
def readWords (src : ℕ) : ℕ → ℕ → MemoryProg ℤ
  | 0, _ => pure 0
  | n + 1, i => do
    let word ← ptracePeekData k cpu (src + i * cpu.wordBytes)
    let s ← read
    if s.errno ≠ 0 then pure (-efault)
    else do
      storeBytes (i * cpu.wordBytes) (bytesOf word cpu.wordBytes)
      readWords src n (i + 1)

/-- Copy the bytes from the last word, not to overwrite those beyond the buffer. -/
def readTrailing (src trailing i : ℕ) : MemoryProg ℤ := do
  let word ← ptracePeekData k cpu (src + i * cpu.wordBytes)
  let s ← read
  if s.errno ≠ 0 then pure (-efault)
  else do
    storeBytes (i * cpu.wordBytes) (bytesOf word trailing)
    pure 0

/-- Copy a number of bytes from the tracee to the buffer word by word. -/
def readByWords (src size : ℕ) : MemoryProg ℤ := do
  let trailing := size % cpu.wordBytes
  let full := (size - trailing) / cpu.wordBytes
  let status ← readWords k cpu src full 0
  if status < 0 then pure status
  else if trailing = 0 then pure 0
  else readTrailing k cpu src trailing full

/-- `process_vm_readv` of one range into the buffer, from an index on. -/
def receive (a n i : ℕ) : MemoryProg ℤ := do
  let (status, moved) ← processVmReadv k a n
  storeBytes i moved
  pure status

/-- Copy a number of bytes from the tracee to the buffer. -/
def readData (src size : ℕ) : MemoryProg ℤ := do
  let status ← receive k src size 0
  if cpu.sizeT status = size then pure 0 else readByWords k cpu src size

end Programs

/-! ## What the transfers are for -/

/-- A program that writes a block: exactly its bytes are changed if they all are accessible, and
otherwise the error is returned. -/
def WritesBlock (k : Kernel) (program : MemoryProg ℤ) (dest : ℕ) (data : List Byte)
    (s : Memory) : Prop :=
  ∃ status s', program s = (.ok status, s') ∧
    if k.Grants dest data.length then status = 0 ∧ s'.bytes = splice s.bytes dest data
    else status = -efault

/-- A program that fills the buffer with a block: its bytes are read if they all are accessible, and
otherwise the error is returned. -/
def ReadsBlock (k : Kernel) (program : MemoryProg ℤ) (src : ℕ) (s : Memory) : Prop :=
  ∃ status s', program s = (.ok status, s') ∧ s'.bytes = s.bytes ∧
    if k.Grants src s.buffer.length then
      status = 0 ∧ s'.buffer = block s.bytes src s.buffer.length
    else status = -efault

/-- A block has no part of a word at its end, or all of this word is accessible and `errno` is zero. -/
def Kernel.TailFits (k : Kernel) (cpu : Cpu) (a size errno : ℕ) : Prop :=
  size % cpu.wordBytes = 0 ∨
    errno = 0 ∧ k.Grants (a + size / cpu.wordBytes * cpu.wordBytes) cpu.wordBytes

/-- The transfer of a block is complete, or what the last word needs is there. -/
def Kernel.WriteFits (k : Kernel) (cpu : Cpu) (dest size : ℕ) (call errno : ℕ) : Prop :=
  k.transfer call dest size = .moved size ∨
    k.TailFits cpu dest size ((k.transfer call dest size).errno errno)

/-- As much holds of the buffers of a vector, one after the other. -/
def Kernel.VectorsFit (k : Kernel) (cpu : Cpu) : List (List Byte) → ℕ → ℕ → ℕ → Prop
  | [], _, _, _ => True
  | data :: rest, dest, call, errno =>
    k.WriteFits cpu dest data.length call errno ∧
      k.VectorsFit cpu rest (dest + data.length) (call + 1)
        ((k.transfer call dest data.length).errno errno)

/-- The transfer of a block is complete, or there is nothing to read, or `errno` is zero and all of
the last word is accessible. -/
def Kernel.ReadFits (k : Kernel) (cpu : Cpu) (src size : ℕ) (call errno : ℕ) : Prop :=
  k.transfer call src size = .moved size ∨ size = 0 ∨
    (k.transfer call src size).errno errno = 0 ∧ k.TailFits cpu src size 0

section Transfers

variable {k : Kernel} {cpu : Cpu} {s : Memory} {call a n : ℕ} {data : List Byte}

/-- No more is moved than was asked for. -/
theorem Kernel.count_le (k : Kernel) (call a n : ℕ) : (k.transfer call a n).count ≤ n := by
  cases h : k.transfer call a n with
  | moved c => exact (k.moved_accessible h).1
  | failed e => exact Nat.zero_le n

/-- A write, whatever the kernel answers. -/
theorem processVmWritev_apply (k : Kernel) (s : Memory) (a : ℕ) (data : List Byte) :
    processVmWritev k a data s = (.ok (k.transfer s.calls a data.length).status,
      { s with
        calls := s.calls + 1
        errno := (k.transfer s.calls a data.length).errno s.errno
        bytes := splice s.bytes a (data.take (k.transfer s.calls a data.length).count) }) := by
  cases h : k.transfer s.calls a data.length with
  | moved c => exact processVmWritev_moved h
  | failed e =>
    rw [processVmWritev_failed h]
    simp [Transfer.count, Transfer.status, Transfer.errno]

/-- A read, whatever the kernel answers. -/
theorem processVmReadv_apply (k : Kernel) (s : Memory) (a n : ℕ) :
    processVmReadv k a n s =
      (.ok ((k.transfer s.calls a n).status, block s.bytes a (k.transfer s.calls a n).count),
        { s with calls := s.calls + 1, errno := (k.transfer s.calls a n).errno s.errno }) := by
  cases h : k.transfer s.calls a n with
  | moved c => exact processVmReadv_moved h
  | failed e => exact processVmReadv_failed h

/-- A status that is a size is kept by the conversion. -/
theorem Cpu.sizeT_natCast (h : n < 2 ^ cpu.wordBits) : cpu.sizeT n = n := by
  rw [sizeT, Int.emod_eq_of_lt (Int.natCast_nonneg n) (by exact_mod_cast h), Int.toNat_natCast]

/-- The status of an error is not a size. -/
theorem Cpu.sizeT_neg_one (cpu : Cpu) : cpu.sizeT (-1) = 2 ^ cpu.wordBits - 1 := by
  cases cpu <;> decide

/-- Half of all words are sizes. -/
theorem Cpu.lt_of_size (h : n < 2 ^ (cpu.wordBits - 1)) : n < 2 ^ cpu.wordBits - 1 := by
  cases cpu <;> simp only [Cpu.wordBits] at h ⊢ <;> omega

/-- The status is the size exactly if the transfer is complete. -/
theorem Kernel.complete_iff (hn : n < 2 ^ (cpu.wordBits - 1)) :
    cpu.sizeT (k.transfer call a n).status = n ↔ k.transfer call a n = .moved n := by
  have hlt := Cpu.lt_of_size hn
  have hle := k.count_le call a n
  cases h : k.transfer call a n with
  | moved c =>
    rw [h] at hle
    have hlt : c < 2 ^ cpu.wordBits :=
      Nat.lt_of_le_of_lt hle (Nat.lt_of_lt_of_le hlt (Nat.sub_le ..))
    rw [show (Transfer.moved c).status = (c : ℤ) from rfl, Cpu.sizeT_natCast hlt,
      Transfer.moved.injEq]
  | failed e =>
    rw [show (Transfer.failed e).status = -1 from rfl, Cpu.sizeT_neg_one]
    exact iff_of_false (Nat.ne_of_gt hlt) nofun

end Transfers

/-! ## Writing word by word -/

section Writing

variable {k : Kernel} {cpu : Cpu} {s : Memory} {dest i n trailing : ℕ} {data : List Byte}

/-- The bytes of a word of the source. -/
theorem bytesOf_loadWord (h : i + cpu.wordBytes ≤ data.length) :
    bytesOf (loadWord cpu data i) cpu.wordBytes = (data.drop i).take cpu.wordBytes := by
  refine List.ext_getElem ?_ fun j hj hj' => ?_
  · rw [bytesOf_length, List.length_take, List.length_drop]
    omega
  · rw [bytesOf_length] at hj
    rw [bytesOf_getElem, loadWord, byteOf_wordOf hj (Nat.le_of_eq cpu.wordBits_eq.symm),
      List.getElem_take, List.getElem_drop, List.getD_eq_getElem?_getD,
      List.getElem?_eq_getElem (by omega)]
    rfl

/-- The full words are written if they all are accessible. -/
theorem writeWords_granted (hlen : (i + n) * cpu.wordBytes ≤ data.length)
    (hgrants : k.Grants (dest + i * cpu.wordBytes) (n * cpu.wordBytes)) :
    writeWords k cpu dest data n i s = (.ok 0, { s with
      bytes := splice s.bytes (dest + i * cpu.wordBytes)
        ((data.drop (i * cpu.wordBytes)).take (n * cpu.wordBytes)) }) := by
  induction n generalizing i s with
  | zero => simp [writeWords]
  | succ n ih =>
    have hsucc : i * cpu.wordBytes + cpu.wordBytes = (i + 1) * cpu.wordBytes :=
      (Nat.succ_mul i _).symm
    have hall : (n + 1) * cpu.wordBytes = cpu.wordBytes + n * cpu.wordBytes := by
      rw [Nat.succ_mul, Nat.add_comm]
    have hword : i * cpu.wordBytes + cpu.wordBytes ≤ data.length := by
      refine Nat.le_trans ?_ hlen
      rw [hsucc]
      exact Nat.mul_le_mul_right _ (by omega)
    rw [hall] at hgrants ⊢
    obtain ⟨hfirst, hrest⟩ := Kernel.grants_add.mp hgrants
    rw [Nat.add_assoc, hsucc] at hrest
    rw [writeWords, bind_apply_ok (ptracePokeData_granted hfirst), if_neg (Int.lt_irrefl 0),
      ih (by rwa [Nat.add_assoc, Nat.add_comm 1 n]) hrest]
    have hbytes := bytesOf_loadWord hword
    have hblocks := splice_append s.bytes (dest + i * cpu.wordBytes)
      ((data.drop (i * cpu.wordBytes)).take cpu.wordBytes)
      ((data.drop ((i + 1) * cpu.wordBytes)).take (n * cpu.wordBytes))
    rw [← hbytes, bytesOf_length, Nat.add_assoc, hsucc] at hblocks
    rw [List.take_add, List.drop_drop, hsucc, ← hbytes, ← hblocks]

/-- The error is returned if a full word is not accessible. -/
theorem writeWords_refused (h : ¬k.Grants (dest + i * cpu.wordBytes) (n * cpu.wordBytes)) :
    ∃ s', writeWords k cpu dest data n i s = (.ok (-efault), s') := by
  induction n generalizing i s with
  | zero =>
    rw [Nat.zero_mul] at h
    exact absurd (fun j hj => absurd hj (Nat.not_lt_zero j)) h
  | succ n ih =>
    rw [Nat.succ_mul, Nat.add_comm (n * _), Kernel.grants_add, Nat.add_assoc,
      ← Nat.succ_mul] at h
    by_cases hfirst : k.Grants (dest + i * cpu.wordBytes) cpu.wordBytes
    · rw [writeWords, bind_apply_ok (ptracePokeData_granted hfirst), if_neg (Int.lt_irrefl 0)]
      exact ih fun hrest => h ⟨hfirst, hrest⟩
    · rw [writeWords, bind_apply_ok (ptracePokeData_refused hfirst), if_pos (by decide)]
      exact ⟨_, rfl⟩

/-- The last bytes are written into their word, the rest of which is kept. -/
theorem writeTrailing_granted (hlen : i * cpu.wordBytes + trailing = data.length)
    (htrailing : trailing ≤ cpu.wordBytes) (herrno : s.errno = 0)
    (hgrants : k.Grants (dest + i * cpu.wordBytes) cpu.wordBytes) :
    writeTrailing k cpu dest data trailing i s = (.ok 0, { s with
      bytes := splice s.bytes (dest + i * cpu.wordBytes) (data.drop (i * cpu.wordBytes)) }) := by
  rw [writeTrailing, bind_apply_ok (ptracePeekData_granted hgrants), bind_apply_ok (read_apply s),
    if_neg (not_not.mpr herrno)]
  refine (bind_apply_ok (ptracePokeData_granted hgrants)).trans ?_
  rw [if_neg (Int.lt_irrefl 0), pure_apply]
  refine congrArg (fun bytes => (Except.ok (0 : ℤ), { s with bytes })) ?_
  generalize hmerged : wordOf cpu.wordBits _ cpu.wordBytes = merged
  have hbytes : ∀ j < cpu.wordBytes, byteOf merged j =
      if j < trailing then data.getD (i * cpu.wordBytes + j) 0
      else s.bytes (dest + i * cpu.wordBytes + j) := by
    intro j hj
    rw [← hmerged, byteOf_wordOf hj (Nat.le_of_eq cpu.wordBits_eq.symm),
      byteOf_wordOf hj (Nat.le_of_eq cpu.wordBits_eq.symm)]
  have htake : (bytesOf merged cpu.wordBytes).take trailing = data.drop (i * cpu.wordBytes) := by
    refine List.ext_getElem ?_ fun j hj hj' => ?_
    · rw [List.length_take, bytesOf_length, List.length_drop]
      omega
    · rw [List.length_drop] at hj'
      rw [List.getElem_take, bytesOf_getElem, hbytes j (by omega), if_pos (by omega),
        List.getElem_drop, List.getD_eq_getElem?_getD, List.getElem?_eq_getElem (by omega)]
      rfl
  rw [← htake, eq_comm, splice_take_iff]
  intro j hj hle
  rw [bytesOf_length] at hj
  rw [bytesOf_getElem, hbytes j hj, if_neg (Nat.not_lt_of_le hle)]

/-- The error is returned if `errno` is not zero or the last word is not accessible. -/
theorem writeTrailing_refused
    (h : ¬(s.errno = 0 ∧ k.Grants (dest + i * cpu.wordBytes) cpu.wordBytes)) :
    ∃ s', writeTrailing k cpu dest data trailing i s = (.ok (-efault), s') := by
  by_cases hgrants : k.Grants (dest + i * cpu.wordBytes) cpu.wordBytes
  · rw [writeTrailing, bind_apply_ok (ptracePeekData_granted hgrants),
      bind_apply_ok (read_apply s), if_pos fun herrno => h ⟨herrno, hgrants⟩]
    exact ⟨_, rfl⟩
  · rw [writeTrailing, bind_apply_ok (ptracePeekData_refused hgrants),
      bind_apply_ok (read_apply _), if_pos (k.fault_ne_zero _)]
    exact ⟨_, rfl⟩

/-- The number of full words. -/
theorem full_eq (size w : ℕ) : (size - size % w) / w = size / w := by
  rcases Nat.eq_zero_or_pos w with rfl | hw
  · rw [Nat.div_zero, Nat.div_zero]
  · have hsplit := Nat.div_add_mod size w
    rw [show size - size % w = w * (size / w) by omega, Nat.mul_div_cancel_left _ hw]

/-- A range is its full words and the rest. -/
theorem grants_words (k : Kernel) (cpu : Cpu) (a size : ℕ) :
    k.Grants a size ↔ k.Grants a (size / cpu.wordBytes * cpu.wordBytes) ∧
      k.Grants (a + size / cpu.wordBytes * cpu.wordBytes) (size % cpu.wordBytes) := by
  rw [← Kernel.grants_add, Nat.div_add_mod']

/-- All full words of a block are written if they are accessible. -/
theorem writeWords_full
    (h : k.Grants dest (data.length / cpu.wordBytes * cpu.wordBytes)) :
    writeWords k cpu dest data (data.length / cpu.wordBytes) 0 s = (.ok 0, { s with
      bytes := splice s.bytes dest
        (data.take (data.length / cpu.wordBytes * cpu.wordBytes)) }) := by
  have hlen : (0 + data.length / cpu.wordBytes) * cpu.wordBytes ≤ data.length := by
    rw [Nat.zero_add]
    exact Nat.div_mul_le_self ..
  have hgrants : k.Grants (dest + 0 * cpu.wordBytes)
      (data.length / cpu.wordBytes * cpu.wordBytes) := by
    rwa [Nat.zero_mul, Nat.add_zero]
  have hwords := writeWords_granted (s := s) hlen hgrants
  rwa [Nat.zero_mul, Nat.add_zero, List.drop_zero] at hwords

/-- Word by word a block is written if it is accessible and its last word fits. -/
theorem writeByWords_fits (hgrants : k.Grants dest data.length)
    (hfits : k.TailFits cpu dest data.length s.errno) :
    writeByWords k cpu dest data s = (.ok 0, { s with bytes := splice s.bytes dest data }) := by
  have hsplit := Nat.div_add_mod' data.length cpu.wordBytes
  have hfull := ((grants_words k cpu dest data.length).mp hgrants).1
  rw [writeByWords, full_eq, bind_apply_ok (writeWords_full hfull), if_neg (Int.lt_irrefl 0)]
  rcases hfits with hwhole | ⟨herrno, htail⟩
  · rw [if_pos hwhole, List.take_of_length_le (by omega)]
    rfl
  · by_cases hwhole : data.length % cpu.wordBytes = 0
    · rw [if_pos hwhole, List.take_of_length_le (by omega)]
      rfl
    · rw [if_neg hwhole]
      refine (writeTrailing_granted (s := { s with
        bytes := splice s.bytes dest (data.take (data.length / cpu.wordBytes * cpu.wordBytes)) })
        hsplit (Nat.le_of_lt (Nat.mod_lt _ cpu.wordBytes_pos)) herrno htail).trans ?_
      have hlength : (data.take (data.length / cpu.wordBytes * cpu.wordBytes)).length =
          data.length / cpu.wordBytes * cpu.wordBytes := by
        rw [List.length_take]
        omega
      have hblocks := splice_append s.bytes dest
        (data.take (data.length / cpu.wordBytes * cpu.wordBytes))
        (data.drop (data.length / cpu.wordBytes * cpu.wordBytes))
      rw [hlength, List.take_append_drop] at hblocks
      exact congrArg (fun bytes => (Except.ok (0 : ℤ), { s with bytes })) hblocks

/-- Otherwise the error is returned. -/
theorem writeByWords_fails
    (h : ¬(k.Grants dest data.length ∧ k.TailFits cpu dest data.length s.errno)) :
    ∃ s', writeByWords k cpu dest data s = (.ok (-efault), s') := by
  have hsplit := Nat.div_add_mod' data.length cpu.wordBytes
  rw [writeByWords, full_eq]
  by_cases hfull : k.Grants dest (data.length / cpu.wordBytes * cpu.wordBytes)
  · rw [bind_apply_ok (writeWords_full hfull), if_neg (Int.lt_irrefl 0)]
    by_cases hwhole : data.length % cpu.wordBytes = 0
    · rw [hwhole, Nat.add_zero] at hsplit
      exact absurd ⟨hsplit ▸ hfull, Or.inl hwhole⟩ h
    · rw [if_neg hwhole]
      refine writeTrailing_refused fun ⟨herrno, htail⟩ => h ⟨?_, Or.inr ⟨herrno, htail⟩⟩
      exact (grants_words k cpu dest data.length).mpr
        ⟨hfull, htail.mono (Nat.le_of_lt (Nat.mod_lt _ cpu.wordBytes_pos))⟩
  · have hmissing : ¬k.Grants (dest + 0 * cpu.wordBytes)
        (data.length / cpu.wordBytes * cpu.wordBytes) := by
      rwa [Nat.zero_mul, Nat.add_zero]
    obtain ⟨s', hwords⟩ := writeWords_refused (s := s) hmissing
    rw [bind_apply_ok hwords, if_pos (by decide)]
    exact ⟨_, rfl⟩

/-- A block is written if it is accessible and its transfer, or its last word, fits. -/
theorem writeData_fits (hsize : data.length < 2 ^ (cpu.wordBits - 1))
    (hgrants : k.Grants dest data.length)
    (hfits : k.WriteFits cpu dest data.length s.calls s.errno) :
    writeData k cpu dest data s = (.ok 0, { s with
      calls := s.calls + 1
      errno := (k.transfer s.calls dest data.length).errno s.errno
      bytes := splice s.bytes dest data }) := by
  rw [writeData, bind_apply_ok (processVmWritev_apply k s dest data)]
  by_cases hcomplete : k.transfer s.calls dest data.length = .moved data.length
  · rw [if_pos ((Kernel.complete_iff hsize).mpr hcomplete), hcomplete]
    simp [Transfer.count, Transfer.errno]
  · rw [if_neg fun h => hcomplete ((Kernel.complete_iff hsize).mp h),
      writeByWords_fits hgrants (hfits.resolve_left hcomplete), splice_splice]
    rw [List.length_take]
    exact Nat.min_le_right ..

/-- Otherwise the error is returned. -/
theorem writeData_fails (hsize : data.length < 2 ^ (cpu.wordBits - 1))
    (h : ¬(k.Grants dest data.length ∧ k.WriteFits cpu dest data.length s.calls s.errno)) :
    ∃ s', writeData k cpu dest data s = (.ok (-efault), s') := by
  rw [writeData, bind_apply_ok (processVmWritev_apply k s dest data)]
  by_cases hcomplete : k.transfer s.calls dest data.length = .moved data.length
  · exact absurd ⟨(k.moved_accessible hcomplete).2, Or.inl hcomplete⟩ h
  · rw [if_neg fun h => hcomplete ((Kernel.complete_iff hsize).mp h)]
    exact writeByWords_fails fun ⟨hgrants, htail⟩ => h ⟨hgrants, Or.inr htail⟩

/-- A block is written as it is meant to be exactly if it is not accessible, or its transfer or its
last word fits. -/
theorem writeData_iff (hsize : data.length < 2 ^ (cpu.wordBits - 1)) :
    WritesBlock k (writeData k cpu dest data) dest data s ↔
      (k.Grants dest data.length → k.WriteFits cpu dest data.length s.calls s.errno) := by
  constructor
  · rintro ⟨status, s', hrun, hresult⟩ hgrants
    by_contra hfits
    obtain ⟨s'', hfails⟩ := writeData_fails (k := k) hsize fun h => hfits h.2
    rw [hfails] at hrun
    obtain ⟨hstatus, -⟩ := Prod.mk.inj hrun
    rw [if_pos hgrants, ← Except.ok.inj hstatus] at hresult
    exact absurd hresult.1 (by decide)
  · intro hfits
    by_cases hgrants : k.Grants dest data.length
    · refine ⟨_, _, writeData_fits hsize hgrants (hfits hgrants), ?_⟩
      rw [if_pos hgrants]
      exact ⟨rfl, rfl⟩
    · obtain ⟨s', hfails⟩ := writeData_fails (k := k) (s := s) hsize
        fun h => hgrants h.1
      refine ⟨_, _, hfails, ?_⟩
      rw [if_neg hgrants]

/-- The buffers of a vector are written if the range is accessible and each of them fits. -/
theorem writeVectors_fits {vectors : List (List Byte)} (size : ℕ)
    (hsize : vectors.flatten.length < 2 ^ (cpu.wordBits - 1))
    (hgrants : k.Grants (dest + size) vectors.flatten.length)
    (hfits : k.VectorsFit cpu vectors (dest + size) s.calls s.errno) :
    ∃ s', writeVectors k cpu dest vectors size s = (.ok 0, s') ∧
      s'.bytes = splice s.bytes (dest + size) vectors.flatten := by
  induction vectors generalizing size s with
  | nil => exact ⟨s, rfl, by simp⟩
  | cons data rest ih =>
    rw [List.flatten_cons, List.length_append] at hsize hgrants
    obtain ⟨hdata, hrest⟩ := Kernel.grants_add.mp hgrants
    obtain ⟨hfirst, hlater⟩ := hfits
    have hwrite := writeData_fits (by omega) hdata hfirst
    rw [Nat.add_assoc] at hrest hlater
    obtain ⟨s', hrun, hbytes⟩ := ih (size + data.length) (s := { s with
      calls := s.calls + 1
      errno := (k.transfer s.calls (dest + size) data.length).errno s.errno
      bytes := splice s.bytes (dest + size) data }) (by omega) hrest hlater
    refine ⟨s', ?_, ?_⟩
    · rw [writeVectors, bind_apply_ok hwrite, if_neg (Int.lt_irrefl 0)]
      exact hrun
    · rw [hbytes, List.flatten_cons, ← splice_append, ← Nat.add_assoc]

/-- Otherwise the error is returned. -/
theorem writeVectors_fails {vectors : List (List Byte)} (size : ℕ)
    (hsize : vectors.flatten.length < 2 ^ (cpu.wordBits - 1))
    (h : ¬(k.Grants (dest + size) vectors.flatten.length ∧
      k.VectorsFit cpu vectors (dest + size) s.calls s.errno)) :
    ∃ s', writeVectors k cpu dest vectors size s = (.ok (-efault), s') := by
  induction vectors generalizing size s with
  | nil => exact absurd ⟨fun j hj => absurd hj (Nat.not_lt_zero j), trivial⟩ h
  | cons data rest ih =>
    rw [List.flatten_cons, List.length_append] at hsize h
    have hdata : data.length < 2 ^ (cpu.wordBits - 1) := by omega
    by_cases hfirst : k.Grants (dest + size) data.length ∧
        k.WriteFits cpu (dest + size) data.length s.calls s.errno
    · rw [writeVectors, bind_apply_ok (writeData_fits hdata hfirst.1 hfirst.2),
        if_neg (Int.lt_irrefl 0)]
      refine ih (size + data.length) (by omega) fun ⟨hgrants, hlater⟩ => h ⟨?_, hfirst.2, ?_⟩
      · exact Kernel.grants_add.mpr ⟨hfirst.1, Nat.add_assoc dest size _ ▸ hgrants⟩
      · rw [Nat.add_assoc]
        exact hlater
    · obtain ⟨s', hfails⟩ := writeData_fails (k := k) hdata hfirst
      rw [writeVectors, bind_apply_ok hfails, if_pos (by decide)]
      exact ⟨_, rfl⟩

/-- The status of a complete transfer, as an `int`, is the size of the vector. -/
def Kernel.GathersAll (k : Kernel) (cpu : Cpu) (dest size call : ℕ) : Prop :=
  k.transfer call dest size = .moved size ∧ cpu.sizeT (intOf size) = size

/-- The conversion to an `int` makes no size of a smaller status. -/
theorem eq_of_sizeT_intOf {c size : ℕ} (hc : c ≤ size) (hsize : size < 2 ^ (cpu.wordBits - 1))
    (h : cpu.sizeT (intOf c) = size) : c = size := by
  cases cpu with
  | armEabi =>
    simp only [Cpu.sizeT, intOf, Cpu.wordBits, Int.bmod] at h hsize
    split at h <;> omega
  | arm64 =>
    simp only [Cpu.sizeT, intOf, Cpu.wordBits, Int.bmod] at h hsize
    split at h <;> omega

/-- The status of a gathering transfer is the size exactly if the transfer is complete and its size
is kept by the conversion to an `int`. -/
theorem gathersAll_iff {call size : ℕ} (hsize : size < 2 ^ (cpu.wordBits - 1)) :
    cpu.sizeT (intOf (k.transfer call dest size).status) = size ↔
      k.GathersAll cpu dest size call := by
  have hle := k.count_le call dest size
  unfold Kernel.GathersAll
  cases h : k.transfer call dest size with
  | moved c =>
    rw [h] at hle
    rw [Transfer.moved.injEq, show (Transfer.moved c).status = (c : ℤ) from rfl]
    constructor
    · intro heq
      have hc : c = size := eq_of_sizeT_intOf hle hsize heq
      rw [hc] at heq
      exact ⟨hc, heq⟩
    · rintro ⟨hc, heq⟩
      rw [hc]
      exact heq
  | failed e =>
    have hint : intOf (-1) = -1 := by decide
    rw [show (Transfer.failed e).status = -1 from rfl, hint, Cpu.sizeT_neg_one]
    exact iff_of_false (Nat.ne_of_gt (Cpu.lt_of_size hsize)) fun h => nomatch h.1

/-- Buffers are gathered as they are meant to be exactly if the range is not accessible, or their
transfer is complete, or each of them fits. -/
theorem writevData_iff {vectors : List (List Byte)}
    (hsize : vectors.flatten.length < 2 ^ (cpu.wordBits - 1)) :
    WritesBlock k (writevData k cpu dest vectors) dest vectors.flatten s ↔
      (k.Grants dest vectors.flatten.length →
        k.GathersAll cpu dest vectors.flatten.length s.calls ∨
          k.VectorsFit cpu vectors dest (s.calls + 1)
            ((k.transfer s.calls dest vectors.flatten.length).errno s.errno)) := by
  unfold WritesBlock
  rw [writevData, bind_apply_ok (processVmWritev_apply k s dest _)]
  by_cases hall : k.GathersAll cpu dest vectors.flatten.length s.calls
  · rw [if_pos ((gathersAll_iff hsize).mpr hall)]
    refine iff_of_true ⟨_, _, rfl, ?_⟩ fun _ => Or.inl hall
    have hgrants : k.Grants dest vectors.flatten.length := (k.moved_accessible hall.1).2
    rw [if_pos hgrants, hall.1]
    exact ⟨rfl, congrArg (splice s.bytes dest) (List.take_length ..)⟩
  · rw [if_neg fun h => hall ((gathersAll_iff hsize).mp h)]
    have hcovered : (vectors.flatten.take
        (k.transfer s.calls dest vectors.flatten.length).count).length ≤ vectors.flatten.length := by
      rw [List.length_take]
      exact Nat.min_le_right ..
    by_cases hfits : k.Grants dest vectors.flatten.length ∧ k.VectorsFit cpu vectors dest
        (s.calls + 1) ((k.transfer s.calls dest vectors.flatten.length).errno s.errno)
    · refine iff_of_true ?_ fun _ => Or.inr hfits.2
      obtain ⟨s', hrun, hbytes⟩ := writeVectors_fits 0 (s := { s with
        calls := s.calls + 1
        errno := (k.transfer s.calls dest vectors.flatten.length).errno s.errno
        bytes := splice s.bytes dest (vectors.flatten.take
          (k.transfer s.calls dest vectors.flatten.length).count) }) hsize hfits.1 hfits.2
      refine ⟨_, _, hrun, ?_⟩
      rw [if_pos hfits.1]
      exact ⟨rfl, hbytes.trans (splice_splice hcovered)⟩
    · obtain ⟨s', hrun⟩ := writeVectors_fails 0 (s := { s with
        calls := s.calls + 1
        errno := (k.transfer s.calls dest vectors.flatten.length).errno s.errno
        bytes := splice s.bytes dest (vectors.flatten.take
          (k.transfer s.calls dest vectors.flatten.length).count) }) hsize hfits
      rw [hrun]
      constructor
      · rintro ⟨status, s'', heq, hresult⟩ hgrants
        obtain ⟨hstatus, -⟩ := Prod.mk.inj heq
        rw [if_pos hgrants, ← Except.ok.inj hstatus] at hresult
        exact absurd hresult.1 (by decide)
      · intro himp
        have hgrants : ¬k.Grants dest vectors.flatten.length := fun hgrants =>
          hfits ⟨hgrants, (himp hgrants).resolve_left hall⟩
        refine ⟨_, _, rfl, ?_⟩
        rw [if_neg hgrants]

end Writing

/-! ## Reading word by word -/

section Reading

variable {k : Kernel} {cpu : Cpu} {s : Memory} {src i n trailing : ℕ}

/-- Bytes that fit are stored in the buffer. -/
theorem storeBytes_apply {data : List Byte} (h : i + data.length ≤ s.buffer.length) :
    storeBytes i data s = (.ok (), { s with buffer := overwrite s.buffer i data }) := by
  simp [storeBytes, bind_apply, h]

/-- The first bytes of a word in memory. -/
theorem bytesOf_wordOf {w a m : ℕ} (f : ℕ → Byte) (hm : m ≤ n) (hn : 8 * n ≤ w) :
    bytesOf (wordOf w (fun j => f (a + j)) n) m = block f a m := by
  refine List.ext_getElem (by simp) fun j hj _ => ?_
  rw [bytesOf_length] at hj
  rw [bytesOf_getElem, block_getElem, byteOf_wordOf (Nat.lt_of_lt_of_le hj hm) hn]

/-- A full word is copied if it is accessible and `errno` is zero. -/
theorem readWords_step (herrno : s.errno = 0)
    (hlen : i * cpu.wordBytes + cpu.wordBytes ≤ s.buffer.length)
    (hgrants : k.Grants (src + i * cpu.wordBytes) cpu.wordBytes) :
    readWords k cpu src (n + 1) i s = readWords k cpu src n (i + 1) { s with
      buffer := overwrite s.buffer (i * cpu.wordBytes)
        (block s.bytes (src + i * cpu.wordBytes) cpu.wordBytes) } := by
  have hfit : i * cpu.wordBytes +
      (block s.bytes (src + i * cpu.wordBytes) cpu.wordBytes).length ≤ s.buffer.length := by
    rwa [block_length]
  rw [readWords, bind_apply_ok (ptracePeekData_granted hgrants), bind_apply_ok (read_apply s),
    if_neg (not_not.mpr herrno),
    bytesOf_wordOf s.bytes (Nat.le_refl cpu.wordBytes) (Nat.le_of_eq cpu.wordBits_eq.symm)]
  exact bind_apply_ok (storeBytes_apply hfit)

/-- The error is returned at once if `errno` is not zero or a word is not accessible. -/
theorem readWords_stop
    (h : ¬(s.errno = 0 ∧ k.Grants (src + i * cpu.wordBytes) cpu.wordBytes)) :
    ∃ errno, readWords k cpu src (n + 1) i s = (.ok (-efault), { s with errno }) := by
  by_cases hgrants : k.Grants (src + i * cpu.wordBytes) cpu.wordBytes
  · refine ⟨s.errno, ?_⟩
    rw [readWords, bind_apply_ok (ptracePeekData_granted hgrants), bind_apply_ok (read_apply s),
      if_pos fun herrno => h ⟨herrno, hgrants⟩]
    rfl
  · refine ⟨k.fault (src + i * cpu.wordBytes), ?_⟩
    rw [readWords, bind_apply_ok (ptracePeekData_refused hgrants), bind_apply_ok (read_apply _),
      if_pos (k.fault_ne_zero _)]
    rfl

/-- The full words are copied if they all are accessible and `errno` is zero. -/
theorem readWords_granted (herrno : s.errno = 0)
    (hcopied : Copied s.buffer s.bytes src (i * cpu.wordBytes))
    (hlen : (i + n) * cpu.wordBytes ≤ s.buffer.length)
    (hgrants : k.Grants (src + i * cpu.wordBytes) (n * cpu.wordBytes)) :
    ∃ buffer, readWords k cpu src n i s = (.ok 0, { s with buffer }) ∧
      buffer.length = s.buffer.length ∧
      Copied buffer s.bytes src ((i + n) * cpu.wordBytes) := by
  induction n generalizing i s with
  | zero => exact ⟨s.buffer, rfl, rfl, hcopied⟩
  | succ n ih =>
    have hsucc : i * cpu.wordBytes + cpu.wordBytes = (i + 1) * cpu.wordBytes :=
      (Nat.succ_mul i _).symm
    have hnext : i + (n + 1) = i + 1 + n := by omega
    rw [hnext] at hlen ⊢
    have hword : i * cpu.wordBytes + cpu.wordBytes ≤ s.buffer.length := by
      refine Nat.le_trans ?_ hlen
      rw [hsucc]
      exact Nat.mul_le_mul_right _ (Nat.le_add_right ..)
    rw [Nat.succ_mul, Nat.add_comm (n * _)] at hgrants
    obtain ⟨hfirst, hrest⟩ := Kernel.grants_add.mp hgrants
    rw [Nat.add_assoc, hsucc] at hrest
    have hcopied' := hcopied.overwrite hword
    rw [hsucc] at hcopied'
    have hlength : (overwrite s.buffer (i * cpu.wordBytes)
        (block s.bytes (src + i * cpu.wordBytes) cpu.wordBytes)).length = s.buffer.length :=
      overwrite_length (by rwa [block_length])
    rw [readWords_step herrno hword hfirst]
    obtain ⟨buffer, hrun, hsame, hall⟩ := ih (s := { s with
      buffer := overwrite s.buffer (i * cpu.wordBytes)
        (block s.bytes (src + i * cpu.wordBytes) cpu.wordBytes) }) herrno hcopied'
      (hlen.trans_eq hlength.symm) hrest
    exact ⟨buffer, hrun, hsame.trans hlength, hall⟩

/-- The error is returned if a full word is not accessible, or if `errno` is not zero before. -/
theorem readWords_refused (hlen : (i + n) * cpu.wordBytes ≤ s.buffer.length)
    (h : ¬(s.errno = 0 ∧ k.Grants (src + i * cpu.wordBytes) (n * cpu.wordBytes)))
    (hn : n ≠ 0) :
    ∃ buffer errno, readWords k cpu src n i s = (.ok (-efault), { s with buffer, errno }) := by
  induction n generalizing i s with
  | zero => exact absurd rfl hn
  | succ n ih =>
    have hsucc : i * cpu.wordBytes + cpu.wordBytes = (i + 1) * cpu.wordBytes :=
      (Nat.succ_mul i _).symm
    have hnext : i + (n + 1) = i + 1 + n := by omega
    rw [hnext] at hlen
    have hword : i * cpu.wordBytes + cpu.wordBytes ≤ s.buffer.length := by
      refine Nat.le_trans ?_ hlen
      rw [hsucc]
      exact Nat.mul_le_mul_right _ (Nat.le_add_right ..)
    by_cases hfirst : s.errno = 0 ∧ k.Grants (src + i * cpu.wordBytes) cpu.wordBytes
    · rw [readWords_step hfirst.1 hword hfirst.2]
      rw [Nat.succ_mul, Nat.add_comm (n * _), Kernel.grants_add, Nat.add_assoc, hsucc] at h
      have hrest : ¬k.Grants (src + (i + 1) * cpu.wordBytes) (n * cpu.wordBytes) := fun hrest =>
        h ⟨hfirst.1, hfirst.2, hrest⟩
      have hmore : n ≠ 0 := by
        rintro rfl
        rw [Nat.zero_mul] at hrest
        exact hrest fun j hj => absurd hj (Nat.not_lt_zero j)
      have hlength : (overwrite s.buffer (i * cpu.wordBytes)
          (block s.bytes (src + i * cpu.wordBytes) cpu.wordBytes)).length = s.buffer.length :=
        overwrite_length (by rwa [block_length])
      obtain ⟨buffer, errno, hrun⟩ := ih (s := { s with
        buffer := overwrite s.buffer (i * cpu.wordBytes)
          (block s.bytes (src + i * cpu.wordBytes) cpu.wordBytes) })
        (hlen.trans_eq hlength.symm) (fun h => hrest h.2) hmore
      exact ⟨buffer, errno, hrun⟩
    · obtain ⟨errno, hrun⟩ := readWords_stop (n := n) hfirst
      exact ⟨s.buffer, errno, hrun⟩

/-- The last bytes are copied if their word is accessible and `errno` is zero. -/
theorem readTrailing_granted (herrno : s.errno = 0)
    (hcopied : Copied s.buffer s.bytes src (i * cpu.wordBytes))
    (htrailing : trailing ≤ cpu.wordBytes)
    (hlen : i * cpu.wordBytes + trailing ≤ s.buffer.length)
    (hgrants : k.Grants (src + i * cpu.wordBytes) cpu.wordBytes) :
    ∃ buffer, readTrailing k cpu src trailing i s = (.ok 0, { s with buffer }) ∧
      buffer.length = s.buffer.length ∧
      Copied buffer s.bytes src (i * cpu.wordBytes + trailing) := by
  have hfit : i * cpu.wordBytes +
      (block s.bytes (src + i * cpu.wordBytes) trailing).length ≤ s.buffer.length := by
    rwa [block_length]
  refine ⟨_, ?_, overwrite_length hfit, hcopied.overwrite hlen⟩
  rw [readTrailing, bind_apply_ok (ptracePeekData_granted hgrants), bind_apply_ok (read_apply s),
    if_neg (not_not.mpr herrno),
    bytesOf_wordOf s.bytes htrailing (Nat.le_of_eq cpu.wordBits_eq.symm)]
  exact bind_apply_ok (storeBytes_apply hfit)

/-- The error is returned if `errno` is not zero or the last word is not accessible. -/
theorem readTrailing_refused
    (h : ¬(s.errno = 0 ∧ k.Grants (src + i * cpu.wordBytes) cpu.wordBytes)) :
    ∃ errno, readTrailing k cpu src trailing i s = (.ok (-efault), { s with errno }) := by
  by_cases hgrants : k.Grants (src + i * cpu.wordBytes) cpu.wordBytes
  · refine ⟨s.errno, ?_⟩
    rw [readTrailing, bind_apply_ok (ptracePeekData_granted hgrants),
      bind_apply_ok (read_apply s), if_pos fun herrno => h ⟨herrno, hgrants⟩]
    rfl
  · refine ⟨k.fault (src + i * cpu.wordBytes), ?_⟩
    rw [readTrailing, bind_apply_ok (ptracePeekData_refused hgrants),
      bind_apply_ok (read_apply _), if_pos (k.fault_ne_zero _)]
    rfl

/-- All full words of a block are read if they are accessible and `errno` is zero. -/
theorem readWords_full (herrno : s.errno = 0)
    (hgrants : k.Grants src (s.buffer.length / cpu.wordBytes * cpu.wordBytes)) :
    ∃ buffer, readWords k cpu src (s.buffer.length / cpu.wordBytes) 0 s =
        (.ok 0, { s with buffer }) ∧ buffer.length = s.buffer.length ∧
      Copied buffer s.bytes src (s.buffer.length / cpu.wordBytes * cpu.wordBytes) := by
  have hcopied : Copied s.buffer s.bytes src (0 * cpu.wordBytes) := by
    rw [Nat.zero_mul]
    exact Copied.zero ..
  have hlen : (0 + s.buffer.length / cpu.wordBytes) * cpu.wordBytes ≤ s.buffer.length := by
    rw [Nat.zero_add]
    exact Nat.div_mul_le_self ..
  have hwords := readWords_granted (k := k) herrno hcopied hlen
    (by rwa [Nat.zero_mul, Nat.add_zero])
  rwa [Nat.zero_add] at hwords

/-- Word by word the buffer is filled if the range is accessible, `errno` is zero and the last word
fits. -/
theorem readByWords_fits (herrno : s.errno = 0) (hgrants : k.Grants src s.buffer.length)
    (hfits : k.TailFits cpu src s.buffer.length 0) :
    ∃ s', readByWords k cpu src s.buffer.length s = (.ok 0, s') ∧ s'.bytes = s.bytes ∧
      s'.buffer = block s.bytes src s.buffer.length := by
  have hsplit := Nat.div_add_mod' s.buffer.length cpu.wordBytes
  obtain ⟨hfull, -⟩ := (grants_words k cpu src s.buffer.length).mp hgrants
  obtain ⟨buffer, hrun, hlength, hcopied⟩ := readWords_full herrno hfull
  rw [readByWords, full_eq, bind_apply_ok hrun, if_neg (Int.lt_irrefl 0)]
  by_cases hwhole : s.buffer.length % cpu.wordBytes = 0
  · rw [hwhole, Nat.add_zero] at hsplit
    rw [if_pos hwhole]
    refine ⟨_, rfl, rfl, ?_⟩
    rw [hsplit] at hcopied
    exact hcopied.eq_block hlength
  · rw [if_neg hwhole]
    obtain ⟨buffer', hrun', hlength', hcopied'⟩ := readTrailing_granted (s := { s with buffer })
      herrno hcopied (Nat.le_of_lt (Nat.mod_lt s.buffer.length cpu.wordBytes_pos))
      (by rw [hsplit]; exact Nat.le_of_eq hlength.symm) (hfits.resolve_left hwhole).2
    refine ⟨_, hrun', rfl, ?_⟩
    rw [hsplit] at hcopied'
    exact hcopied'.eq_block (hlength'.trans hlength)

/-- Otherwise the error is returned, unless there is nothing to read. -/
theorem readByWords_fails (hsize : s.buffer.length ≠ 0)
    (h : ¬(k.Grants src s.buffer.length ∧ s.errno = 0 ∧ k.TailFits cpu src s.buffer.length 0)) :
    ∃ s', readByWords k cpu src s.buffer.length s = (.ok (-efault), s') ∧ s'.bytes = s.bytes := by
  have hsplit := Nat.div_add_mod' s.buffer.length cpu.wordBytes
  rw [readByWords, full_eq]
  by_cases hwords : s.buffer.length / cpu.wordBytes = 0 ∨
      s.errno = 0 ∧ k.Grants src (s.buffer.length / cpu.wordBytes * cpu.wordBytes)
  · -- The full words are copied, and the last word is what is missing.
    obtain ⟨buffer, hrun⟩ : ∃ buffer, readWords k cpu src (s.buffer.length / cpu.wordBytes) 0 s =
        (.ok 0, { s with buffer }) := by
      rcases hwords with hnone | ⟨herrno, hfull⟩
      · rw [hnone]
        exact ⟨s.buffer, rfl⟩
      · obtain ⟨buffer, hrun, -, -⟩ := readWords_full herrno hfull
        exact ⟨buffer, hrun⟩
    have hfull : k.Grants src (s.buffer.length / cpu.wordBytes * cpu.wordBytes) := by
      rcases hwords with hnone | ⟨-, hfull⟩
      · rw [hnone, Nat.zero_mul]
        exact fun j hj => absurd hj (Nat.not_lt_zero j)
      · exact hfull
    rw [bind_apply_ok hrun, if_neg (Int.lt_irrefl 0)]
    by_cases hwhole : s.buffer.length % cpu.wordBytes = 0
    · rw [hwhole, Nat.add_zero] at hsplit
      rw [hsplit] at hfull
      rcases hwords with hnone | ⟨herrno, -⟩
      · rw [hnone, Nat.zero_mul] at hsplit
        exact absurd hsplit.symm hsize
      · exact absurd ⟨hfull, herrno, Or.inl hwhole⟩ h
    · rw [if_neg hwhole]
      obtain ⟨errno, hstop⟩ := readTrailing_refused (k := k)
        (i := s.buffer.length / cpu.wordBytes) (s := { s with buffer })
        fun ⟨herrno, htail⟩ => h ⟨(grants_words k cpu src s.buffer.length).mpr ⟨hfull,
          htail.mono (Nat.le_of_lt (Nat.mod_lt _ cpu.wordBytes_pos))⟩, herrno, Or.inr ⟨rfl, htail⟩⟩
      exact ⟨_, hstop, rfl⟩
  · obtain ⟨hsome, hmissing⟩ := not_or.mp hwords
    have hmissing' : ¬(s.errno = 0 ∧ k.Grants (src + 0 * cpu.wordBytes)
        (s.buffer.length / cpu.wordBytes * cpu.wordBytes)) := by
      rwa [Nat.zero_mul, Nat.add_zero]
    obtain ⟨buffer, errno, hrun⟩ := readWords_refused (s := s)
      (by rw [Nat.zero_add]; exact Nat.div_mul_le_self ..) hmissing' hsome
    rw [bind_apply_ok hrun, if_pos (by decide)]
    exact ⟨_, rfl, rfl⟩

/-- What a transfer into the buffer leaves behind. -/
def received (k : Kernel) (a n i : ℕ) (s : Memory) : Memory :=
  { s with
    calls := s.calls + 1
    errno := (k.transfer s.calls a n).errno s.errno
    buffer := overwrite s.buffer i (block s.bytes a (k.transfer s.calls a n).count) }

/-- The bytes that are moved fit into the buffer. -/
theorem received_fits (k : Kernel) (a : ℕ) (h : i + n ≤ s.buffer.length) :
    i + (block s.bytes a (k.transfer s.calls a n).count).length ≤ s.buffer.length := by
  have hcount := k.count_le s.calls a n
  rw [block_length]
  omega

/-- What is received does not change the length of the buffer. -/
theorem received_length (k : Kernel) (a : ℕ) (h : i + n ≤ s.buffer.length) :
    (received k a n i s).buffer.length = s.buffer.length :=
  overwrite_length (received_fits k a h)

/-- What fits the buffer is received. -/
theorem receive_apply (k : Kernel) (a : ℕ) (h : i + n ≤ s.buffer.length) :
    receive k a n i s = (.ok (k.transfer s.calls a n).status, received k a n i s) := by
  have hfits := received_fits k a h
  refine (bind_apply_ok (processVmReadv_apply k s a n)).trans ?_
  exact bind_apply_ok (storeBytes_apply (s := { s with
    calls := s.calls + 1
    errno := (k.transfer s.calls a n).errno s.errno }) hfits)

/-- A complete transfer copies the next block, and leaves `errno` as it was. -/
theorem received_complete (h : i + n ≤ s.buffer.length)
    (hcomplete : k.transfer s.calls (src + i) n = .moved n)
    (hcopied : Copied s.buffer s.bytes src i) :
    Copied (received k (src + i) n i s).buffer s.bytes src (i + n) ∧
      (received k (src + i) n i s).errno = s.errno := by
  rw [received, hcomplete]
  exact ⟨hcopied.overwrite h, rfl⟩

/-- After the transfer it is done, or goes on word by word. -/
theorem readData_apply (hsize : s.buffer.length < 2 ^ (cpu.wordBits - 1)) :
    readData k cpu src s.buffer.length s =
      if k.transfer s.calls src s.buffer.length = .moved s.buffer.length then
        (.ok 0, received k src s.buffer.length 0 s)
      else readByWords k cpu src (received k src s.buffer.length 0 s).buffer.length
        (received k src s.buffer.length 0 s) := by
  have hfits : 0 + s.buffer.length ≤ s.buffer.length := Nat.le_of_eq (Nat.zero_add _)
  rw [received_length k src hfits, readData, bind_apply_ok (receive_apply k src hfits)]
  by_cases hcomplete : k.transfer s.calls src s.buffer.length = .moved s.buffer.length
  · rw [if_pos ((Kernel.complete_iff hsize).mpr hcomplete), if_pos hcomplete]
    rfl
  · rw [if_neg fun h => hcomplete ((Kernel.complete_iff hsize).mp h), if_neg hcomplete]

/-- A buffer is filled as it is meant to be exactly if the range is not accessible, or its transfer or
its last word fits. -/
theorem readData_iff (hsize : s.buffer.length < 2 ^ (cpu.wordBits - 1)) :
    ReadsBlock k (readData k cpu src s.buffer.length) src s ↔
      (k.Grants src s.buffer.length → k.ReadFits cpu src s.buffer.length s.calls s.errno) := by
  have hfits : 0 + s.buffer.length ≤ s.buffer.length := Nat.le_of_eq (Nat.zero_add _)
  have hlength := received_length k src hfits
  rw [ReadsBlock, readData_apply hsize]
  by_cases hcomplete : k.transfer s.calls src s.buffer.length = .moved s.buffer.length
  · have hgrants : k.Grants src s.buffer.length := (k.moved_accessible hcomplete).2
    obtain ⟨hcopied, -⟩ := received_complete hfits hcomplete (Copied.zero ..)
    rw [if_pos hcomplete]
    refine iff_of_true ⟨_, _, rfl, rfl, ?_⟩ fun _ => Or.inl hcomplete
    rw [if_pos hgrants]
    refine ⟨rfl, ?_⟩
    rw [Nat.zero_add, Nat.add_zero] at hcopied
    exact hcopied.eq_block hlength
  · rw [if_neg hcomplete]
    by_cases hnone : s.buffer.length = 0
    · refine iff_of_true ⟨0, received k src s.buffer.length 0 s, ?_, rfl, ?_⟩
        fun _ => Or.inr (Or.inl hnone)
      · rw [hlength, hnone]
        simp [readByWords, readWords, bind_apply]
      · have hgrants : k.Grants src s.buffer.length := by
          rw [hnone]
          exact fun j hj => absurd hj (Nat.not_lt_zero j)
        rw [if_pos hgrants]
        refine ⟨rfl, ?_⟩
        rw [List.length_eq_zero_iff.mp (hlength.trans hnone), hnone]
        rfl
    · have hwords := hlength.symm ▸ hnone
      by_cases hfits : k.Grants src (received k src s.buffer.length 0 s).buffer.length ∧
          (received k src s.buffer.length 0 s).errno = 0 ∧
          k.TailFits cpu src (received k src s.buffer.length 0 s).buffer.length 0
      · obtain ⟨s', hrun, hbytes, hbuffer⟩ := readByWords_fits hfits.2.1 hfits.1 hfits.2.2
        rw [hlength] at hfits hbuffer
        refine iff_of_true ⟨0, s', hrun, hbytes, ?_⟩ fun _ => Or.inr (Or.inr hfits.2)
        rw [if_pos hfits.1]
        exact ⟨rfl, hbuffer⟩
      · obtain ⟨s', hrun, hbytes⟩ := readByWords_fails hwords hfits
        rw [hlength] at hfits
        constructor
        · rintro ⟨status, s'', heq, -, hresult⟩ hgrants
          rw [hrun] at heq
          obtain ⟨hstatus, -⟩ := Prod.mk.inj heq
          rw [if_pos hgrants, ← Except.ok.inj hstatus] at hresult
          exact absurd hresult.1 (by decide)
        · intro himp
          have hgrants : ¬k.Grants src s.buffer.length := fun hgrants =>
            hfits ⟨hgrants, ((himp hgrants).resolve_left hcomplete).resolve_left hnone⟩
          refine ⟨_, s', hrun, hbytes, ?_⟩
          rw [if_neg hgrants]

end Reading

/-! ## All transfers -/

section Transfers

variable {k : Kernel} {cpu : Cpu} {s : Memory} {src dest : ℕ} {data : List Byte}
  {vectors : List (List Byte)}

/-- A block is transferred as it is meant to be exactly if it is not accessible or what is left of it
after the transfer fits. -/
theorem blockTransfers_iff (hbuffer : s.buffer.length < 2 ^ (cpu.wordBits - 1))
    (hdata : data.length < 2 ^ (cpu.wordBits - 1))
    (hvectors : vectors.flatten.length < 2 ^ (cpu.wordBits - 1)) :
    (ReadsBlock k (readData k cpu src s.buffer.length) src s ↔
      (k.Grants src s.buffer.length → k.ReadFits cpu src s.buffer.length s.calls s.errno)) ∧
    (WritesBlock k (writeData k cpu dest data) dest data s ↔
      (k.Grants dest data.length → k.WriteFits cpu dest data.length s.calls s.errno)) ∧
    (WritesBlock k (writevData k cpu dest vectors) dest vectors.flatten s ↔
      (k.Grants dest vectors.flatten.length →
        k.GathersAll cpu dest vectors.flatten.length s.calls ∨
          k.VectorsFit cpu vectors dest (s.calls + 1)
            ((k.transfer s.calls dest vectors.flatten.length).errno s.errno))) :=
  ⟨readData_iff hbuffer, writeData_iff hdata, writevData_iff hvectors⟩

/-- Three bytes of the only page, which are transferred at once. -/
theorem blockTransfers_onePage :
    ReadsBlock onePage (readData onePage .arm64 0 3) 0 ⟨fun _ => 1, [0, 0, 0], 0, 0⟩ ∧
    WritesBlock onePage (writeData onePage .arm64 0 [1, 2, 3]) 0 [1, 2, 3]
      ⟨fun _ => 1, [0, 0, 0], 0, 0⟩ ∧
    WritesBlock onePage (writevData onePage .arm64 0 [[1], [2, 3]]) 0 [1, 2, 3]
      ⟨fun _ => 1, [0, 0, 0], 0, 0⟩ := by
  obtain ⟨hread, hwrite, hgather⟩ := @blockTransfers_iff onePage .arm64
    ⟨fun _ => 1, [0, 0, 0], 0, 0⟩ 0 0 [1, 2, 3] [[1], [2, 3]] (by decide) (by decide) (by decide)
  exact ⟨hread.mpr fun _ => Or.inl rfl, hwrite.mpr fun _ => Or.inl rfl,
    hgather.mpr fun _ => Or.inl ⟨rfl, by decide⟩⟩

/-- A process whose memory is accessible, on a kernel without `process_vm_readv` and
`process_vm_writev`. -/
def noProcessVm : Kernel where
  accessible _ := true
  transfer _ _ _ := .failed 38
  fault _ := eio
  pageSize := 4096
  moved_accessible h := by cases h
  failed_ne_zero h := by
    obtain rfl := Transfer.failed.inj h
    decide
  fault_ne_zero := onePage.fault_ne_zero
  pageSize_pow := onePage.pageSize_pow

/-- The error of the transfer is taken for one of the first word. -/
theorem blockTransfers_staleErrno :
    ¬(ReadsBlock noProcessVm (readData noProcessVm .arm64 0 8) 0
        ⟨fun _ => 1, List.replicate 8 0, 0, 0⟩ ∧
      WritesBlock noProcessVm (writeData noProcessVm .arm64 0 [1]) 0 [1]
        ⟨fun _ => 1, List.replicate 8 0, 0, 0⟩ ∧
      WritesBlock noProcessVm (writevData noProcessVm .arm64 0 [[1]]) 0 [1]
        ⟨fun _ => 1, List.replicate 8 0, 0, 0⟩) := by
  rintro ⟨hread, -⟩
  have hsize : (List.replicate 8 (0 : Byte)).length < 2 ^ (Cpu.arm64.wordBits - 1) := by decide
  have hfits := (readData_iff (s := ⟨fun _ => 1, List.replicate 8 0, 0, 0⟩) hsize).mp hread
    fun _ _ => rfl
  rcases hfits with hcomplete | hnone | ⟨herrno, -⟩
  · cases hcomplete
  · exact absurd hnone (by decide)
  · exact absurd herrno (by decide)

end Transfers

end Abyss
