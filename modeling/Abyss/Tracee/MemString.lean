import Abyss.Tracee.MemData

/-!
# Strings of the memory of a tracee

A string is read in chunks that do not cross a page, until its end is found. If a chunk is not
transferred completely, and also if no end was found in as many bytes as the buffer has, the
string is read once more word by word with the requests of `ptrace`.

The length that is returned counts the terminator. Where there is none, one more than the size of the
buffer is returned.
-/

namespace Abyss

open Machine Bytes

/-- `chunk_size`. -/
def Kernel.chunkSize (k : Kernel) : ℕ := if k.pageSize < 1024 then k.pageSize else 1024

/-- The number of bytes up to the next chunk or up to the maximal size. -/
def Kernel.chunkLength (k : Kernel) (src maxSize offset : ℕ) : ℕ :=
  -- The size of a chunk is a power of two, so that the mask takes off the remainder.
  let currentChunk := src + offset - (src + offset) % k.chunkSize
  let nextChunk := currentChunk + k.chunkSize
  min (nextChunk - (src + offset)) (maxSize - offset)

section Programs

variable (k : Kernel) (cpu : Cpu)

/-- Read the string by chunks; nothing is returned where that does not succeed. -/
def readChunks (src maxSize : ℕ) : ℕ → ℕ → MemoryProg (Option ℤ)
  | 0, _ => fault .outOfFuel
  | fuel + 1, offset => do
    let size := k.chunkLength src maxSize offset
    let status ← receive k (src + offset) size offset
    if cpu.sizeT status ≠ size then pure none
    else do
      let s ← read
      let length := ((s.buffer.drop offset).take size).findIdx (· = 0)
      if length < size then
        if offset + length + 1 ≤ maxSize then pure (some (intOf ↑(offset + length + 1)))
        else fault .assertion
      else if offset + size < maxSize then readChunks src maxSize fuel (offset + size)
      else if offset + size = maxSize then pure none
      else fault .assertion

/-- Copy the full words of the string from the given one on, up to its end. -/
def readStringWords (src : ℕ) : ℕ → ℕ → MemoryProg (Option ℤ)
  | 0, _ => pure none
  | n + 1, i => do
    let word ← ptracePeekData k cpu (src + i * cpu.wordBytes)
    let s ← read
    if s.errno ≠ 0 then pure (some (-efault))
    else do
      storeBytes (i * cpu.wordBytes) (bytesOf word cpu.wordBytes)
      match (bytesOf word cpu.wordBytes).findIdx? (· = 0) with
      | some j => pure (some (intOf ↑(i * cpu.wordBytes + j + 1)))
      | none => readStringWords src n (i + 1)

/-- Copy the bytes from the last word, up to the end of the string. -/
def readStringTail (src trailing i : ℕ) : MemoryProg ℤ := do
  let word ← ptracePeekData k cpu (src + i * cpu.wordBytes)
  let s ← read
  if s.errno ≠ 0 then pure (-efault)
  else do
    let j := (bytesOf word trailing).findIdx (· = 0)
    storeBytes (i * cpu.wordBytes) ((bytesOf word trailing).take (j + 1))
    pure (intOf ↑(i * cpu.wordBytes + j + 1))

/-- Read the string word by word. -/
def readStringByWords (src maxSize : ℕ) : MemoryProg ℤ := do
  let trailing := maxSize % cpu.wordBytes
  let full := (maxSize - trailing) / cpu.wordBytes
  let status ← readStringWords k cpu src full 0
  match status with
  | some status => pure status
  | none => readStringTail k cpu src trailing full

/-- Copy a string of at most the given size from the tracee to the buffer. -/
def readString (src maxSize : ℕ) : MemoryProg ℤ := do
  let status ← readChunks k cpu src maxSize maxSize 0
  match status with
  | some status => pure status
  | none => readStringByWords k cpu src maxSize

end Programs

/-! ## What strings are -/

/-- A string of a length, without its terminator, is accessible. -/
def Kernel.EndsAt (k : Kernel) (bytes : ℕ → Byte) (src length : ℕ) : Prop :=
  k.Grants src (length + 1) ∧ bytes (src + length) = 0 ∧ ∀ j < length, bytes (src + j) ≠ 0

/-- A byte that is needed is not accessible. -/
def Kernel.Broken (k : Kernel) (bytes : ℕ → Byte) (src maxSize : ℕ) : Prop :=
  ∃ j < maxSize, ¬k.accessible (src + j) = true ∧ k.Grants src j ∧ ∀ i < j, bytes (src + i) ≠ 0

/-- All bytes are accessible, and there is no terminator. -/
def Kernel.Unterminated (k : Kernel) (bytes : ℕ → Byte) (src maxSize : ℕ) : Prop :=
  k.Grants src maxSize ∧ ∀ j < maxSize, bytes (src + j) ≠ 0

/-- A string is read into a buffer as it is meant to be: an accessible string is copied and its size
returned, an error tells of an inaccessible one, and the status of a longer one is no size. -/
def ReadsString (k : Kernel) (cpu : Cpu) (src : ℕ) (s : Memory) : Prop :=
  ∃ status s', readString k cpu src s.buffer.length s = (.ok status, s') ∧ s'.bytes = s.bytes ∧
    s'.buffer.length = s.buffer.length ∧
    (∀ length < s.buffer.length, k.EndsAt s.bytes src length →
      status = ↑(length + 1) ∧ Copied s'.buffer s.bytes src (length + 1)) ∧
    (k.Broken s.bytes src s.buffer.length → status < 0) ∧
    (k.Unterminated s.bytes src s.buffer.length → status < 0 ∨ ↑s.buffer.length < status)

/-- The first transfer that is not complete, of the chunks up to the one with the given offset. -/
def Kernel.stopsAt (k : Kernel) (src maxSize limit : ℕ) : ℕ → ℕ → ℕ → Option Transfer
  | 0, _, _ => none
  | fuel + 1, offset, call =>
    let size := k.chunkLength src maxSize offset
    if k.transfer call (src + offset) size ≠ .moved size then
      some (k.transfer call (src + offset) size)
    else if limit < offset + size then none
    else k.stopsAt src maxSize limit fuel (offset + size) (call + 1)

/-- `errno` when the chunks up to the one with the given offset have been tried. -/
def Kernel.errnoAt (k : Kernel) (src maxSize limit : ℕ) (s : Memory) : ℕ :=
  match k.stopsAt src maxSize limit maxSize 0 s.calls with
  | none => s.errno
  | some t => t.errno s.errno

/-- The end of a string is reached by chunks, or `errno` is zero and its whole last word is
accessible. -/
def Kernel.Reaches (k : Kernel) (cpu : Cpu) (src length : ℕ) (s : Memory) : Prop :=
  k.stopsAt src s.buffer.length length s.buffer.length 0 s.calls = none ∨
    k.errnoAt src s.buffer.length length s = 0 ∧
      k.Grants (src + length / cpu.wordBytes * cpu.wordBytes) cpu.wordBytes

/-- Behind a buffer without a terminator one more word is read successfully. -/
def Kernel.Overruns (k : Kernel) (cpu : Cpu) (src : ℕ) (s : Memory) : Prop :=
  k.errnoAt src s.buffer.length (s.buffer.length - 1) s = 0 ∧
    k.Grants (src + s.buffer.length / cpu.wordBytes * cpu.wordBytes) cpu.wordBytes

section Strings

variable {k : Kernel} {bytes : ℕ → Byte} {src maxSize : ℕ}

/-- A string ends, or is not accessible, or does not end. -/
theorem Kernel.string_cases (k : Kernel) (bytes : ℕ → Byte) (src maxSize : ℕ) :
    (∃ length < maxSize, k.EndsAt bytes src length) ∨ k.Broken bytes src maxSize ∨
      k.Unterminated bytes src maxSize := by
  induction maxSize with
  | zero =>
    exact Or.inr (Or.inr ⟨fun j hj => absurd hj (Nat.not_lt_zero j),
      fun j hj => absurd hj (Nat.not_lt_zero j)⟩)
  | succ n ih =>
    rcases ih with ⟨length, hlt, hends⟩ | ⟨j, hj, hbroken⟩ | ⟨hgrants, hnone⟩
    · exact Or.inl ⟨length, Nat.lt_succ_of_lt hlt, hends⟩
    · exact Or.inr (Or.inl ⟨j, Nat.lt_succ_of_lt hj, hbroken⟩)
    · by_cases haccess : k.accessible (src + n) = true
      · have hmore : k.Grants src (n + 1) := fun j hj =>
          (Nat.lt_succ_iff_lt_or_eq.mp hj).elim (hgrants j) fun heq => heq ▸ haccess
        by_cases hend : bytes (src + n) = 0
        · exact Or.inl ⟨n, Nat.lt_succ_self n, hmore, hend, hnone⟩
        · exact Or.inr (Or.inr ⟨hmore, fun j hj =>
            (Nat.lt_succ_iff_lt_or_eq.mp hj).elim (hnone j) fun heq => heq ▸ hend⟩)
      · exact Or.inr (Or.inl ⟨n, Nat.lt_succ_self n, haccess, hgrants, hnone⟩)

/-- A string has one end. -/
theorem Kernel.EndsAt.unique {length length' : ℕ} (h : k.EndsAt bytes src length)
    (h' : k.EndsAt bytes src length') : length = length' := by
  rcases Nat.lt_trichotomy length length' with hlt | heq | hlt
  · exact absurd h.2.1 (h'.2.2 length hlt)
  · exact heq
  · exact absurd h'.2.1 (h.2.2 length' hlt)

/-- A string that ends is accessible. -/
theorem Kernel.EndsAt.not_broken {length : ℕ} (h : k.EndsAt bytes src length) :
    ¬k.Broken bytes src maxSize := by
  rintro ⟨j, -, haccess, -, hbefore⟩
  rcases Nat.lt_or_ge length j with hlt | hge
  · exact hbefore length hlt h.2.1
  · exact haccess (h.1 j (Nat.lt_succ_of_le hge))

/-- A string that ends within the size is not unterminated. -/
theorem Kernel.EndsAt.not_unterminated {length : ℕ} (h : k.EndsAt bytes src length)
    (hlt : length < maxSize) : ¬k.Unterminated bytes src maxSize :=
  fun hnone => hnone.2 length hlt h.2.1

/-- A byte that is not accessible excludes this. -/
theorem Kernel.Broken.not_unterminated (h : k.Broken bytes src maxSize) :
    ¬k.Unterminated bytes src maxSize := by
  obtain ⟨j, hj, haccess, -⟩ := h
  exact fun hnone => haccess (hnone.1 j hj)

end Strings

/-! ## Word by word -/

section Words

variable {k : Kernel} {cpu : Cpu} {s : Memory} {src i j n m trailing : ℕ}

/-- What a word puts into the buffer. -/
theorem storeBytes_block (h : i + n ≤ s.buffer.length) (a : ℕ) :
    storeBytes i (block s.bytes a n) s =
      (.ok (), { s with buffer := overwrite s.buffer i (block s.bytes a n) }) :=
  storeBytes_apply (by rwa [block_length])

/-- The reading stops if `errno` is not zero or a word is not accessible. -/
theorem readStringWords_stop (n : ℕ)
    (h : ¬(s.errno = 0 ∧ k.Grants (src + i * cpu.wordBytes) cpu.wordBytes)) :
    ∃ errno, readStringWords k cpu src (n + 1) i s = (.ok (some (-efault)), { s with errno }) := by
  by_cases hgrants : k.Grants (src + i * cpu.wordBytes) cpu.wordBytes
  · refine ⟨s.errno, ?_⟩
    rw [readStringWords, bind_apply_ok (ptracePeekData_granted hgrants),
      bind_apply_ok (read_apply s), if_pos fun herrno => h ⟨herrno, hgrants⟩]
    rfl
  · refine ⟨k.fault (src + i * cpu.wordBytes), ?_⟩
    rw [readStringWords, bind_apply_ok (ptracePeekData_refused hgrants),
      bind_apply_ok (read_apply _), if_pos (k.fault_ne_zero _)]
    rfl

/-- A word is copied, and looked through for the end of the string. -/
theorem readStringWords_word (herrno : s.errno = 0)
    (hlen : i * cpu.wordBytes + cpu.wordBytes ≤ s.buffer.length)
    (hgrants : k.Grants (src + i * cpu.wordBytes) cpu.wordBytes) :
    readStringWords k cpu src (n + 1) i s =
      (match (block s.bytes (src + i * cpu.wordBytes) cpu.wordBytes).findIdx? (· = 0) with
        | some j => pure (some (intOf ↑(i * cpu.wordBytes + j + 1)))
        | none => readStringWords k cpu src n (i + 1) : MemoryProg (Option ℤ)) { s with
        buffer := overwrite s.buffer (i * cpu.wordBytes)
          (block s.bytes (src + i * cpu.wordBytes) cpu.wordBytes) } := by
  rw [readStringWords, bind_apply_ok (ptracePeekData_granted hgrants),
    bind_apply_ok (read_apply s), if_neg (not_not.mpr herrno),
    bytesOf_wordOf s.bytes (Nat.le_refl cpu.wordBytes) (Nat.le_of_eq cpu.wordBits_eq.symm)]
  exact bind_apply_ok (storeBytes_block hlen _)

/-- A word without the end of the string is passed. -/
theorem readStringWords_step (herrno : s.errno = 0)
    (hlen : i * cpu.wordBytes + cpu.wordBytes ≤ s.buffer.length)
    (hgrants : k.Grants (src + i * cpu.wordBytes) cpu.wordBytes)
    (hnone : ∀ j < cpu.wordBytes, s.bytes (src + i * cpu.wordBytes + j) ≠ 0) :
    readStringWords k cpu src (n + 1) i s = readStringWords k cpu src n (i + 1) { s with
      buffer := overwrite s.buffer (i * cpu.wordBytes)
        (block s.bytes (src + i * cpu.wordBytes) cpu.wordBytes) } := by
  have hfind : (block s.bytes (src + i * cpu.wordBytes) cpu.wordBytes).findIdx? (· = 0) = none := by
    rw [List.findIdx?_eq_none_iff]
    intro b hb
    obtain ⟨j, hj, rfl⟩ := List.getElem_of_mem hb
    rw [block_length] at hj
    rw [block_getElem]
    exact decide_eq_false (hnone j hj)
  rw [readStringWords_word herrno hlen hgrants, hfind]

/-- The reading ends in the word with the end of the string. -/
theorem readStringWords_found (herrno : s.errno = 0)
    (hlen : i * cpu.wordBytes + cpu.wordBytes ≤ s.buffer.length)
    (hgrants : k.Grants (src + i * cpu.wordBytes) cpu.wordBytes) (hj : j < cpu.wordBytes)
    (hend : s.bytes (src + i * cpu.wordBytes + j) = 0)
    (hbefore : ∀ l < j, s.bytes (src + i * cpu.wordBytes + l) ≠ 0) :
    readStringWords k cpu src (n + 1) i s =
      (.ok (some (intOf ↑(i * cpu.wordBytes + j + 1))), { s with
        buffer := overwrite s.buffer (i * cpu.wordBytes)
          (block s.bytes (src + i * cpu.wordBytes) cpu.wordBytes) }) := by
  have hfind : (block s.bytes (src + i * cpu.wordBytes) cpu.wordBytes).findIdx? (· = 0) =
      some j := by
    rw [List.findIdx?_eq_some_iff_findIdx_eq, block_length]
    exact ⟨hj, findIdx_block hj (decide_eq_true hend) fun l hl => decide_eq_false (hbefore l hl)⟩
  rw [readStringWords_word herrno hlen hgrants, hfind]
  rfl

/-- Accessible words without the end of the string are copied. -/
theorem readStringWords_passes (herrno : s.errno = 0)
    (hcopied : Copied s.buffer s.bytes src (i * cpu.wordBytes))
    (hlen : (i + m) * cpu.wordBytes ≤ s.buffer.length)
    (hgrants : k.Grants (src + i * cpu.wordBytes) (m * cpu.wordBytes))
    (hnone : ∀ j < m * cpu.wordBytes, s.bytes (src + i * cpu.wordBytes + j) ≠ 0) :
    ∃ buffer, readStringWords k cpu src (m + n) i s =
        readStringWords k cpu src n (i + m) { s with buffer } ∧
      buffer.length = s.buffer.length ∧
      Copied buffer s.bytes src ((i + m) * cpu.wordBytes) := by
  induction m generalizing i s with
  | zero => exact ⟨s.buffer, by rw [Nat.zero_add, Nat.add_zero], rfl, hcopied⟩
  | succ m ih =>
    have hsucc : i * cpu.wordBytes + cpu.wordBytes = (i + 1) * cpu.wordBytes :=
      (Nat.succ_mul i _).symm
    have hnext : i + (m + 1) = i + 1 + m := by omega
    rw [hnext] at hlen ⊢
    have hword : i * cpu.wordBytes + cpu.wordBytes ≤ s.buffer.length := by
      refine Nat.le_trans ?_ hlen
      rw [hsucc]
      exact Nat.mul_le_mul_right _ (Nat.le_add_right ..)
    rw [Nat.succ_mul, Nat.add_comm (m * _)] at hgrants hnone
    obtain ⟨hfirst, hrest⟩ := Kernel.grants_add.mp hgrants
    rw [Nat.add_assoc, hsucc] at hrest
    have hcopied' := hcopied.overwrite hword
    rw [hsucc] at hcopied'
    have hlength : (overwrite s.buffer (i * cpu.wordBytes)
        (block s.bytes (src + i * cpu.wordBytes) cpu.wordBytes)).length = s.buffer.length :=
      overwrite_length (by rwa [block_length])
    rw [show m + 1 + n = m + n + 1 by omega, readStringWords_step herrno hword hfirst
      fun j hj => hnone j (Nat.lt_add_right _ hj)]
    obtain ⟨buffer, hrun, hsame, hall⟩ := ih (s := { s with
      buffer := overwrite s.buffer (i * cpu.wordBytes)
        (block s.bytes (src + i * cpu.wordBytes) cpu.wordBytes) }) herrno hcopied'
      (hlen.trans_eq hlength.symm) hrest fun j hj => by
        rw [← hsucc, ← Nat.add_assoc, Nat.add_assoc (src + _)]
        exact hnone _ (Nat.add_lt_add_left hj _)
    exact ⟨buffer, hrun, hsame.trans hlength, hall⟩

/-- Nothing is copied from the last word if `errno` is not zero or it is not accessible. -/
theorem readStringTail_stop (trailing : ℕ)
    (h : ¬(s.errno = 0 ∧ k.Grants (src + i * cpu.wordBytes) cpu.wordBytes)) :
    ∃ errno, readStringTail k cpu src trailing i s = (.ok (-efault), { s with errno }) := by
  by_cases hgrants : k.Grants (src + i * cpu.wordBytes) cpu.wordBytes
  · refine ⟨s.errno, ?_⟩
    rw [readStringTail, bind_apply_ok (ptracePeekData_granted hgrants),
      bind_apply_ok (read_apply s), if_pos fun herrno => h ⟨herrno, hgrants⟩]
    rfl
  · refine ⟨k.fault (src + i * cpu.wordBytes), ?_⟩
    rw [readStringTail, bind_apply_ok (ptracePeekData_refused hgrants),
      bind_apply_ok (read_apply _), if_pos (k.fault_ne_zero _)]
    rfl

/-- The bytes of the last word are copied up to the end of the string. -/
theorem readStringTail_copies (herrno : s.errno = 0)
    (hcopied : Copied s.buffer s.bytes src (i * cpu.wordBytes))
    (htrailing : trailing ≤ cpu.wordBytes)
    (hlen : i * cpu.wordBytes + trailing ≤ s.buffer.length)
    (hgrants : k.Grants (src + i * cpu.wordBytes) cpu.wordBytes)
    (hfind : (block s.bytes (src + i * cpu.wordBytes) trailing).findIdx (· = 0) = j) :
    ∃ buffer, readStringTail k cpu src trailing i s =
        (.ok (intOf ↑(i * cpu.wordBytes + j + 1)), { s with buffer }) ∧
      buffer.length = s.buffer.length ∧
      Copied buffer s.bytes src (i * cpu.wordBytes + min (j + 1) trailing) := by
  have hfit : i * cpu.wordBytes + min (j + 1) trailing ≤ s.buffer.length :=
    Nat.le_trans (Nat.add_le_add_left (Nat.min_le_right ..) _) hlen
  refine ⟨_, ?_, overwrite_length (by rwa [block_length]), hcopied.overwrite hfit⟩
  rw [readStringTail, bind_apply_ok (ptracePeekData_granted hgrants),
    bind_apply_ok (read_apply s), if_neg (not_not.mpr herrno),
    bytesOf_wordOf s.bytes htrailing (Nat.le_of_eq cpu.wordBits_eq.symm), hfind, take_block]
  exact bind_apply_ok (storeBytes_block hfit _)

/-- How the reading goes on with the status of the full words. -/
def finishString (k : Kernel) (cpu : Cpu) (src trailing full : ℕ) : Option ℤ → MemoryProg ℤ
  | some status => pure status
  | none => readStringTail k cpu src trailing full

/-- The reading reaches a word if those before are accessible and the string does not end there. -/
theorem readStringByWords_reaches (herrno : s.errno = 0)
    (hm : m ≤ s.buffer.length / cpu.wordBytes) (hgrants : k.Grants src (m * cpu.wordBytes))
    (hnone : ∀ j < m * cpu.wordBytes, s.bytes (src + j) ≠ 0) :
    ∃ buffer, readStringByWords k cpu src s.buffer.length s =
        (readStringWords k cpu src (s.buffer.length / cpu.wordBytes - m) m >>=
          finishString k cpu src (s.buffer.length % cpu.wordBytes)
            (s.buffer.length / cpu.wordBytes)) { s with buffer } ∧
      buffer.length = s.buffer.length ∧ Copied buffer s.bytes src (m * cpu.wordBytes) := by
  have hlen : m * cpu.wordBytes ≤ s.buffer.length :=
    Nat.le_trans (Nat.mul_le_mul_right _ hm) (Nat.div_mul_le_self ..)
  have hcopied₀ : Copied s.buffer s.bytes src (0 * cpu.wordBytes) := by
    rw [Nat.zero_mul]
    exact Copied.zero ..
  obtain ⟨buffer, hrun, hlength, hcopied⟩ := readStringWords_passes (k := k) (m := m)
    (n := s.buffer.length / cpu.wordBytes - m) herrno hcopied₀ (by rwa [Nat.zero_add])
    (by rwa [Nat.zero_mul, Nat.add_zero]) (by rwa [Nat.zero_mul, Nat.add_zero])
  rw [Nat.zero_add] at hrun hcopied
  rw [Nat.add_sub_cancel' hm] at hrun
  refine ⟨buffer, ?_, hlength, hcopied⟩
  rw [readStringByWords, full_eq]
  refine (bind_apply_congr hrun).trans (congrFun (congrArg _ (funext fun status => ?_)) _)
  cases status <;> rfl

variable (k cpu src) in
/-- The error is returned at once if `errno` is not zero. -/
theorem readStringByWords_stale (herrno : s.errno ≠ 0) :
    ∃ errno, readStringByWords k cpu src s.buffer.length s = (.ok (-efault), { s with errno }) := by
  rw [readStringByWords, full_eq]
  cases hfull : s.buffer.length / cpu.wordBytes with
  | zero =>
    rw [readStringWords, bind_apply_ok (pure_apply ..)]
    exact readStringTail_stop _ fun h => herrno h.1
  | succ n =>
    have hstale : ¬(s.errno = 0 ∧ k.Grants (src + 0 * cpu.wordBytes) cpu.wordBytes) :=
      fun h => herrno h.1
    obtain ⟨errno, hstop⟩ := readStringWords_stop n hstale
    rw [bind_apply_ok hstop]
    exact ⟨errno, rfl⟩

/-- The error is returned if the word that is reached is not accessible. -/
theorem readStringByWords_refused (herrno : s.errno = 0)
    (hm : m ≤ s.buffer.length / cpu.wordBytes) (hgrants : k.Grants src (m * cpu.wordBytes))
    (hnone : ∀ j < m * cpu.wordBytes, s.bytes (src + j) ≠ 0)
    (hword : ¬k.Grants (src + m * cpu.wordBytes) cpu.wordBytes) :
    ∃ buffer errno, readStringByWords k cpu src s.buffer.length s =
        (.ok (-efault), { s with buffer, errno }) ∧ buffer.length = s.buffer.length := by
  obtain ⟨buffer, hrun, hlength, -⟩ := readStringByWords_reaches herrno hm hgrants hnone
  rw [hrun]
  have hmissing : ¬(s.errno = 0 ∧ k.Grants (src + m * cpu.wordBytes) cpu.wordBytes) :=
    fun h => hword h.2
  rcases Nat.lt_or_eq_of_le hm with hlt | heq
  · obtain ⟨n, hn⟩ := Nat.exists_eq_add_of_lt hlt
    obtain ⟨errno, hstop⟩ := readStringWords_stop (s := { s with buffer }) n hmissing
    rw [show s.buffer.length / cpu.wordBytes - m = n + 1 by omega, bind_apply_ok hstop]
    exact ⟨buffer, errno, rfl, hlength⟩
  · rw [heq, Nat.sub_self, readStringWords, bind_apply_ok (pure_apply ..), ← heq]
    obtain ⟨errno, hstop⟩ := readStringTail_stop (s := { s with buffer })
      (s.buffer.length % cpu.wordBytes) hmissing
    exact ⟨buffer, errno, hstop, hlength⟩

/-- The string is copied if the word of its end is accessible. -/
theorem readStringByWords_ends {length : ℕ} (herrno : s.errno = 0) (hlt : length < s.buffer.length)
    (hends : k.EndsAt s.bytes src length)
    (hword : k.Grants (src + length / cpu.wordBytes * cpu.wordBytes) cpu.wordBytes) :
    ∃ buffer, readStringByWords k cpu src s.buffer.length s =
        (.ok (intOf ↑(length + 1)), { s with buffer }) ∧
      buffer.length = s.buffer.length ∧ Copied buffer s.bytes src (length + 1) := by
  have hsplit := Nat.div_add_mod' length cpu.wordBytes
  have hmod := Nat.mod_lt length cpu.wordBytes_pos
  obtain ⟨buffer, hrun, hlength, hcopied⟩ := readStringByWords_reaches (m := length / cpu.wordBytes)
    herrno (Nat.div_le_div_right (Nat.le_of_lt hlt)) (hends.1.mono (by omega))
    fun j hj => hends.2.2 j (by omega)
  have hend : s.bytes (src + length / cpu.wordBytes * cpu.wordBytes + length % cpu.wordBytes) = 0 := by
    rw [Nat.add_assoc, hsplit]
    exact hends.2.1
  have hbefore : ∀ l < length % cpu.wordBytes,
      s.bytes (src + length / cpu.wordBytes * cpu.wordBytes + l) ≠ 0 := by
    intro l hl
    rw [Nat.add_assoc]
    exact hends.2.2 _ (by omega)
  have hm := Nat.div_le_div_right (c := cpu.wordBytes) (Nat.le_of_lt hlt)
  rw [hrun]
  rcases Nat.lt_or_eq_of_le hm with hfull | heq
  · -- The string ends in a full word.
    obtain ⟨n, hn⟩ := Nat.exists_eq_add_of_lt hfull
    have hlen : length / cpu.wordBytes * cpu.wordBytes + cpu.wordBytes ≤ buffer.length := by
      rw [hlength, ← Nat.succ_mul]
      exact Nat.le_trans (Nat.mul_le_mul_right _ hfull) (Nat.div_mul_le_self ..)
    have hfound := readStringWords_found (k := k) (n := n) (s := { s with buffer }) herrno hlen
      hword hmod hend hbefore
    rw [show s.buffer.length / cpu.wordBytes - length / cpu.wordBytes = n + 1 by omega,
      bind_apply_ok hfound, hsplit]
    refine ⟨_, rfl, (overwrite_length (by rwa [block_length])).trans hlength, ?_⟩
    exact (hcopied.overwrite hlen).mono (by omega)
  · -- The string ends in the last word, a part of which belongs to the buffer.
    have hsplit' := Nat.div_add_mod' s.buffer.length cpu.wordBytes
    rw [← heq] at hsplit'
    have htrailing := Nat.mod_lt s.buffer.length cpu.wordBytes_pos
    have hfind := findIdx_block (f := s.bytes) (p := (· = 0))
      (a := src + length / cpu.wordBytes * cpu.wordBytes) (n := s.buffer.length % cpu.wordBytes)
      (by omega) (decide_eq_true hend) fun l hl => decide_eq_false (hbefore l hl)
    obtain ⟨buffer', hcopy, hlength', hcopied'⟩ := readStringTail_copies (k := k)
      (s := { s with buffer }) herrno hcopied (Nat.le_of_lt htrailing)
      (by rw [hsplit']; exact Nat.le_of_eq hlength.symm) hword hfind
    rw [← heq, Nat.sub_self, readStringWords, bind_apply_ok (pure_apply ..)]
    refine ⟨buffer', hcopy.trans (by rw [hsplit]), hlength'.trans hlength, ?_⟩
    exact hcopied'.mono (by omega)

/-- Without an end of the string one more than the size is returned, if one more word is accessible. -/
theorem readStringByWords_unterminated (herrno : s.errno = 0)
    (hnone : k.Unterminated s.bytes src s.buffer.length)
    (hword : k.Grants (src + s.buffer.length / cpu.wordBytes * cpu.wordBytes) cpu.wordBytes) :
    ∃ buffer, readStringByWords k cpu src s.buffer.length s =
        (.ok (intOf ↑(s.buffer.length + 1)), { s with buffer }) ∧
      buffer.length = s.buffer.length := by
  have hsplit := Nat.div_add_mod' s.buffer.length cpu.wordBytes
  have htrailing := Nat.mod_lt s.buffer.length cpu.wordBytes_pos
  have hgrants : k.Grants src (s.buffer.length / cpu.wordBytes * cpu.wordBytes) :=
    hnone.1.mono (by omega)
  obtain ⟨buffer, hrun, hlength, hcopied⟩ := readStringByWords_reaches herrno (Nat.le_refl _)
    hgrants fun j hj => hnone.2 j (by omega)
  have hfind := findIdx_block_none (f := s.bytes) (p := (· = 0))
    (a := src + s.buffer.length / cpu.wordBytes * cpu.wordBytes)
    (n := s.buffer.length % cpu.wordBytes) fun j hj => by
      rw [Nat.add_assoc]
      exact decide_eq_false (hnone.2 _ (by omega))
  obtain ⟨buffer', hcopy, hlength', -⟩ := readStringTail_copies (k := k)
    (s := { s with buffer }) herrno hcopied (Nat.le_of_lt htrailing)
    (by rw [hsplit]; exact Nat.le_of_eq hlength.symm) hword hfind
  rw [hrun, Nat.sub_self, readStringWords, bind_apply_ok (pure_apply ..)]
  exact ⟨buffer', hcopy.trans (by rw [hsplit]), hlength'.trans hlength⟩

end Words

/-! ## Chunk by chunk -/

section Chunks

variable {k : Kernel} {cpu : Cpu} {s : Memory} {src maxSize fuel offset limit : ℕ}

/-- A chunk is not empty. -/
theorem Kernel.chunkSize_pos (k : Kernel) : 0 < k.chunkSize := by
  unfold chunkSize
  obtain ⟨b, hb⟩ := k.pageSize_pow
  split
  · rw [hb]
    exact Nat.two_pow_pos b
  · decide

/-- A chunk has 1024 bytes at most. -/
theorem Kernel.chunkSize_le (k : Kernel) : k.chunkSize ≤ 1024 := by
  unfold chunkSize
  split <;> omega

/-- A chunk is not empty, and ends within the size. -/
theorem Kernel.chunkLength_bounds (k : Kernel) (src : ℕ) (h : offset < maxSize) :
    0 < k.chunkLength src maxSize offset ∧ k.chunkLength src maxSize offset ≤ 1024 ∧
      offset + k.chunkLength src maxSize offset ≤ maxSize := by
  have hpos := k.chunkSize_pos
  have hle := k.chunkSize_le
  have hmod := Nat.mod_lt (src + offset) hpos
  unfold chunkLength
  dsimp only
  omega

/-- The status of a chunk is its size exactly if the transfer is complete. -/
theorem chunk_complete_iff {call a n : ℕ} (hn : n ≤ 1024) :
    cpu.sizeT (k.transfer call a n).status = n ↔ k.transfer call a n = .moved n := by
  refine Kernel.complete_iff (Nat.lt_of_le_of_lt hn ?_)
  cases cpu <;> decide

/-- What the transfer of a chunk leaves behind. -/
def receivedChunk (k : Kernel) (src maxSize offset : ℕ) (s : Memory) : Memory :=
  received k (src + offset) (k.chunkLength src maxSize offset) offset s

variable (k src) in
/-- A chunk that is received does not change the length of the buffer. -/
theorem receivedChunk_length (h : offset < maxSize) (hbuffer : s.buffer.length = maxSize) :
    (receivedChunk k src maxSize offset s).buffer.length = s.buffer.length :=
  received_length k _ (hbuffer ▸ (k.chunkLength_bounds src h).2.2)

/-- A chunk that is not complete ends the reading by chunks. -/
theorem readChunks_incomplete (h : offset < maxSize) (hbuffer : s.buffer.length = maxSize)
    (hincomplete : k.transfer s.calls (src + offset) (k.chunkLength src maxSize offset) ≠
      .moved (k.chunkLength src maxSize offset)) :
    readChunks k cpu src maxSize (fuel + 1) offset s =
      (.ok none, receivedChunk k src maxSize offset s) := by
  obtain ⟨-, hsmall, hend⟩ := k.chunkLength_bounds src h
  rw [readChunks, bind_apply_ok (receive_apply k _ (hbuffer ▸ hend)),
    if_pos fun heq => hincomplete ((chunk_complete_iff hsmall).mp heq)]
  rfl

/-- A complete chunk is looked through for the end of the string. -/
theorem readChunks_complete (h : offset < maxSize) (hbuffer : s.buffer.length = maxSize)
    (hcomplete : k.transfer s.calls (src + offset) (k.chunkLength src maxSize offset) =
      .moved (k.chunkLength src maxSize offset))
    (hcopied : Copied s.buffer s.bytes src offset) {length : ℕ}
    (hfind : (block s.bytes (src + offset) (k.chunkLength src maxSize offset)).findIdx (· = 0) =
      length) :
    readChunks k cpu src maxSize (fuel + 1) offset s =
      (if length < k.chunkLength src maxSize offset then
        pure (some (intOf ↑(offset + length + 1)))
      else if offset + k.chunkLength src maxSize offset < maxSize then
        readChunks k cpu src maxSize fuel (offset + k.chunkLength src maxSize offset)
      else pure none : MemoryProg (Option ℤ)) (receivedChunk k src maxSize offset s) := by
  obtain ⟨hpos, hsmall, hend⟩ := k.chunkLength_bounds src h
  obtain ⟨hall, -⟩ := received_complete (hbuffer ▸ hend) hcomplete hcopied
  rw [readChunks, bind_apply_ok (receive_apply k _ (hbuffer ▸ hend)),
    if_neg (not_not.mpr ((chunk_complete_iff hsmall).mpr hcomplete)), bind_apply_ok (read_apply _)]
  rw [hall.take_drop, hfind]
  by_cases hfound : length < k.chunkLength src maxSize offset
  · rw [if_pos hfound, if_pos hfound, if_pos (by omega)]
    rfl
  · rw [if_neg hfound, if_neg hfound]
    by_cases hmore : offset + k.chunkLength src maxSize offset < maxSize
    · rw [if_pos hmore, if_pos hmore]
      rfl
    · rw [if_neg hmore, if_neg hmore, if_pos (by omega)]
      rfl

/-- The error of the first incomplete chunk is that of the reading. -/
theorem readChunks_stops (hlimit : limit < maxSize) (hbuffer : s.buffer.length = maxSize)
    (hoffset : offset ≤ limit) (hcopied : Copied s.buffer s.bytes src offset)
    (hnone : ∀ j < limit, s.bytes (src + j) ≠ 0) {t : Transfer}
    (hstops : k.stopsAt src maxSize limit fuel offset s.calls = some t) :
    ∃ buffer calls, readChunks k cpu src maxSize fuel offset s =
        (.ok none, { s with buffer, calls, errno := t.errno s.errno }) ∧
      buffer.length = s.buffer.length := by
  induction fuel generalizing offset s with
  | zero => cases hstops
  | succ fuel ih =>
    have hlt : offset < maxSize := Nat.lt_of_le_of_lt hoffset hlimit
    obtain ⟨hpos, -, hend⟩ := k.chunkLength_bounds src hlt
    rw [Kernel.stopsAt] at hstops
    by_cases hcomplete : k.transfer s.calls (src + offset) (k.chunkLength src maxSize offset) =
        .moved (k.chunkLength src maxSize offset)
    · rw [if_neg (not_not.mpr hcomplete)] at hstops
      by_cases hover : limit < offset + k.chunkLength src maxSize offset
      · rw [if_pos hover] at hstops
        cases hstops
      · rw [if_neg hover] at hstops
        have hfind := findIdx_block_none (f := s.bytes) (a := src + offset) (p := (· = 0))
          (n := k.chunkLength src maxSize offset) fun j hj => by
            rw [Nat.add_assoc]
            exact decide_eq_false (hnone _ (by omega))
        obtain ⟨hall, herrno⟩ := received_complete (hbuffer ▸ hend) hcomplete hcopied
        rw [readChunks_complete hlt hbuffer hcomplete hcopied hfind, if_neg (Nat.lt_irrefl _),
          if_pos (by omega)]
        obtain ⟨buffer, calls, hrun, hlength⟩ := ih (s := receivedChunk k src maxSize offset s)
          ((receivedChunk_length k src hlt hbuffer).trans hbuffer) (Nat.le_of_not_lt hover) hall hnone
          hstops
        refine ⟨buffer, calls, hrun.trans ?_, hlength.trans (receivedChunk_length k src hlt hbuffer)⟩
        exact congrArg (fun errno =>
          (Except.ok none, { s with buffer, calls, errno := t.errno errno })) herrno
    · rw [if_pos hcomplete] at hstops
      obtain rfl := Option.some.inj hstops
      exact ⟨_, _, readChunks_incomplete hlt hbuffer hcomplete, receivedChunk_length k src hlt hbuffer⟩

/-- The end of the string is found if all chunks up to it are complete. -/
theorem readChunks_found {length : ℕ} (hlength : length < maxSize)
    (hbuffer : s.buffer.length = maxSize) (hoffset : offset ≤ length)
    (hcopied : Copied s.buffer s.bytes src offset) (hends : s.bytes (src + length) = 0)
    (hnone : ∀ j < length, s.bytes (src + j) ≠ 0) (hfuel : maxSize - offset ≤ fuel)
    (hstops : k.stopsAt src maxSize length fuel offset s.calls = none) :
    ∃ s', readChunks k cpu src maxSize fuel offset s =
        (.ok (some (intOf ↑(length + 1))), s') ∧ s'.bytes = s.bytes ∧
      s'.buffer.length = s.buffer.length ∧ Copied s'.buffer s.bytes src (length + 1) := by
  induction fuel generalizing offset s with
  | zero => omega
  | succ fuel ih =>
    have hlt : offset < maxSize := Nat.lt_of_le_of_lt hoffset hlength
    obtain ⟨hpos, -, hend⟩ := k.chunkLength_bounds src hlt
    rw [Kernel.stopsAt] at hstops
    by_cases hcomplete : k.transfer s.calls (src + offset) (k.chunkLength src maxSize offset) =
        .moved (k.chunkLength src maxSize offset)
    · rw [if_neg (not_not.mpr hcomplete)] at hstops
      obtain ⟨hall, -⟩ := received_complete (hbuffer ▸ hend) hcomplete hcopied
      have hsame := receivedChunk_length k src hlt hbuffer
      by_cases hover : length < offset + k.chunkLength src maxSize offset
      · -- The string ends in this chunk.
        have hfind := findIdx_block (f := s.bytes) (a := src + offset) (p := (· = 0))
          (n := k.chunkLength src maxSize offset) (j := length - offset) (by omega)
          (decide_eq_true (by rw [Nat.add_assoc, Nat.add_sub_cancel' hoffset]; exact hends))
          fun j hj => by
            rw [Nat.add_assoc]
            exact decide_eq_false (hnone _ (by omega))
        rw [readChunks_complete hlt hbuffer hcomplete hcopied hfind, if_pos (by omega),
          Nat.add_sub_cancel' hoffset]
        exact ⟨_, rfl, rfl, hsame, hall.mono hover⟩
      · rw [if_neg hover] at hstops
        have hfind := findIdx_block_none (f := s.bytes) (a := src + offset) (p := (· = 0))
          (n := k.chunkLength src maxSize offset) fun j hj => by
            rw [Nat.add_assoc]
            exact decide_eq_false (hnone _ (by omega))
        rw [readChunks_complete hlt hbuffer hcomplete hcopied hfind, if_neg (Nat.lt_irrefl _),
          if_pos (by omega)]
        obtain ⟨s', hrun, hbytes, hlength', hcopied'⟩ := ih
          (s := receivedChunk k src maxSize offset s) (hsame.trans hbuffer)
          (Nat.le_of_not_lt hover) hall hends hnone (by omega) hstops
        exact ⟨s', hrun, hbytes, hlength'.trans hsame, hcopied'⟩
    · rw [if_pos hcomplete] at hstops
      cases hstops

/-- Complete chunks without an end of the string leave `errno` as it was. -/
theorem readChunks_passes (hbuffer : s.buffer.length = maxSize) (hoffset : offset < maxSize)
    (hcopied : Copied s.buffer s.bytes src offset)
    (hnone : ∀ j < maxSize, s.bytes (src + j) ≠ 0) (hfuel : maxSize - offset ≤ fuel)
    (hstops : k.stopsAt src maxSize (maxSize - 1) fuel offset s.calls = none) :
    ∃ buffer calls, readChunks k cpu src maxSize fuel offset s =
        (.ok none, { s with buffer, calls }) ∧ buffer.length = s.buffer.length := by
  induction fuel generalizing offset s with
  | zero => omega
  | succ fuel ih =>
    obtain ⟨hpos, -, hend⟩ := k.chunkLength_bounds src hoffset
    rw [Kernel.stopsAt] at hstops
    by_cases hcomplete : k.transfer s.calls (src + offset) (k.chunkLength src maxSize offset) =
        .moved (k.chunkLength src maxSize offset)
    · rw [if_neg (not_not.mpr hcomplete)] at hstops
      obtain ⟨hall, herrno⟩ := received_complete (hbuffer ▸ hend) hcomplete hcopied
      have hsame := receivedChunk_length k src hoffset hbuffer
      have hfind := findIdx_block_none (f := s.bytes) (a := src + offset) (p := (· = 0))
        (n := k.chunkLength src maxSize offset) fun j hj => by
          rw [Nat.add_assoc]
          exact decide_eq_false (hnone _ (by omega))
      rw [readChunks_complete hoffset hbuffer hcomplete hcopied hfind, if_neg (Nat.lt_irrefl _)]
      by_cases hmore : offset + k.chunkLength src maxSize offset < maxSize
      · rw [if_pos hmore]
        rw [if_neg (by omega)] at hstops
        obtain ⟨buffer, calls, hrun, hlength⟩ := ih (s := receivedChunk k src maxSize offset s)
          (hsame.trans hbuffer) hmore hall hnone (by omega) hstops
        refine ⟨buffer, calls, hrun.trans ?_, hlength.trans hsame⟩
        exact congrArg (fun errno => (Except.ok none, { s with buffer, calls, errno })) herrno
      · rw [if_neg hmore]
        refine ⟨_, s.calls + 1, ?_, hsame⟩
        exact congrArg (fun errno => (Except.ok none,
          { receivedChunk k src maxSize offset s with errno })) herrno
    · rw [if_pos hcomplete] at hstops
      cases hstops

/-- Complete chunks are accessible. -/
theorem stopsAt_none_accessible {call : ℕ} (hlimit : limit < maxSize)
    (hfuel : maxSize - offset ≤ fuel)
    (hstops : k.stopsAt src maxSize limit fuel offset call = none) {j : ℕ} (hj : offset ≤ j)
    (hjlimit : j ≤ limit) : k.accessible (src + j) = true := by
  induction fuel generalizing offset call with
  | zero => omega
  | succ fuel ih =>
    have hlt : offset < maxSize := by omega
    obtain ⟨hpos, -, hend⟩ := k.chunkLength_bounds src hlt
    rw [Kernel.stopsAt] at hstops
    by_cases hcomplete : k.transfer call (src + offset) (k.chunkLength src maxSize offset) =
        .moved (k.chunkLength src maxSize offset)
    · rw [if_neg (not_not.mpr hcomplete)] at hstops
      rcases Nat.lt_or_ge j (offset + k.chunkLength src maxSize offset) with hlt | hge
      · have hmoved := (k.moved_accessible hcomplete).2 (j - offset) (by omega)
        rwa [Nat.add_assoc, Nat.add_sub_cancel' hj] at hmoved
      · rw [if_neg (by omega)] at hstops
        exact ih (by omega) hstops hge
    · rw [if_pos hcomplete] at hstops
      cases hstops

end Chunks

/-! ## Whole strings -/

section Whole

variable {k : Kernel} {cpu : Cpu} {s : Memory} {src : ℕ}

/-- A run that returns a status, and leaves the memory of the tracee and the size of the buffer. -/
def Returns (k : Kernel) (cpu : Cpu) (src : ℕ) (s : Memory) (status : ℤ) (s' : Memory) : Prop :=
  readString k cpu src s.buffer.length s = (.ok status, s') ∧ s'.bytes = s.bytes ∧
    s'.buffer.length = s.buffer.length

/-- Where the chunks do not succeed, the string is read word by word. -/
theorem readString_fallback {buffer : List Byte} {calls errno : ℕ}
    (h : readChunks k cpu src s.buffer.length s.buffer.length 0 s =
      (.ok none, { s with buffer, calls, errno })) (hlength : buffer.length = s.buffer.length) :
    readString k cpu src s.buffer.length s =
      readStringByWords k cpu src buffer.length { s with buffer, calls, errno } := by
  rw [readString, bind_apply_ok h, hlength]

variable (cpu) in
/-- An incomplete chunk, before which the string does not end. -/
theorem readChunks_errnoAt {limit : ℕ} (hlimit : limit < s.buffer.length)
    (hnone : ∀ j < limit, s.bytes (src + j) ≠ 0)
    (hstops : k.stopsAt src s.buffer.length limit s.buffer.length 0 s.calls ≠ none) :
    ∃ buffer calls, readChunks k cpu src s.buffer.length s.buffer.length 0 s =
        (.ok none, { s with buffer, calls, errno := k.errnoAt src s.buffer.length limit s }) ∧
      buffer.length = s.buffer.length := by
  obtain ⟨t, ht⟩ := Option.ne_none_iff_exists'.mp hstops
  rw [Kernel.errnoAt, ht]
  exact readChunks_stops hlimit rfl (Nat.zero_le _) (Copied.zero ..) hnone ht

/-- Word by word an error is returned if `errno` is not zero, or the word that is reached is not
accessible. -/
theorem readStringByWords_error {m : ℕ} (hm : m ≤ s.buffer.length / cpu.wordBytes)
    (hgrants : k.Grants src (m * cpu.wordBytes))
    (hnone : ∀ j < m * cpu.wordBytes, s.bytes (src + j) ≠ 0)
    (h : ¬(s.errno = 0 ∧ k.Grants (src + m * cpu.wordBytes) cpu.wordBytes)) :
    ∃ buffer errno, readStringByWords k cpu src s.buffer.length s =
        (.ok (-efault), { s with buffer, errno }) ∧ buffer.length = s.buffer.length := by
  by_cases herrno : s.errno = 0
  · exact readStringByWords_refused herrno hm hgrants hnone fun hword => h ⟨herrno, hword⟩
  · obtain ⟨errno, hrun⟩ := readStringByWords_stale k cpu src herrno
    exact ⟨s.buffer, errno, hrun, rfl⟩

/-- A string whose end is reached is copied. -/
theorem readString_reaches {length : ℕ} (hlt : length < s.buffer.length)
    (hends : k.EndsAt s.bytes src length) (hreaches : k.Reaches cpu src length s) :
    ∃ s', Returns k cpu src s (intOf ↑(length + 1)) s' ∧
      Copied s'.buffer s.bytes src (length + 1) := by
  by_cases hstops : k.stopsAt src s.buffer.length length s.buffer.length 0 s.calls = none
  · obtain ⟨s', hrun, hbytes, hlength, hcopied⟩ := readChunks_found hlt rfl (Nat.zero_le _)
      (Copied.zero ..) hends.2.1 hends.2.2 (Nat.sub_le ..) hstops
    refine ⟨s', ⟨?_, hbytes, hlength⟩, hcopied⟩
    rw [readString, bind_apply_ok hrun]
    rfl
  · obtain ⟨herrno, hword⟩ := hreaches.resolve_left hstops
    obtain ⟨buffer, calls, hrun, hlength⟩ := readChunks_errnoAt cpu hlt hends.2.2 hstops
    obtain ⟨buffer', hrun', hlength', hcopied⟩ := readStringByWords_ends
      (s := { s with buffer, calls, errno := k.errnoAt src s.buffer.length length s }) herrno
      (hlt.trans_eq hlength.symm) hends hword
    exact ⟨_, ⟨(readString_fallback hrun hlength).trans hrun', rfl, hlength'.trans hlength⟩,
      hcopied⟩

/-- A string whose end is not reached is an error. -/
theorem readString_misses {length : ℕ} (hlt : length < s.buffer.length)
    (hends : k.EndsAt s.bytes src length) (hmisses : ¬k.Reaches cpu src length s) :
    ∃ s', Returns k cpu src s (-efault) s' := by
  obtain ⟨hstops, hword⟩ := not_or.mp hmisses
  have hsplit := Nat.div_add_mod' length cpu.wordBytes
  obtain ⟨buffer, calls, hrun, hlength⟩ := readChunks_errnoAt cpu hlt hends.2.2 hstops
  obtain ⟨buffer', errno, hrun', hlength'⟩ := readStringByWords_error
    (s := { s with buffer, calls, errno := k.errnoAt src s.buffer.length length s })
    (Nat.div_le_div_right (Nat.le_of_lt (hlt.trans_eq hlength.symm))) (hends.1.mono (by omega))
    (fun j hj => hends.2.2 j (by omega)) hword
  exact ⟨_, (readString_fallback hrun hlength).trans hrun', rfl, hlength'.trans hlength⟩

variable (cpu) in
/-- A string that is not accessible is an error. -/
theorem readString_broken (hbroken : k.Broken s.bytes src s.buffer.length) :
    ∃ s', Returns k cpu src s (-efault) s' := by
  obtain ⟨j, hj, haccess, hgrants, hnone⟩ := hbroken
  have hstops : k.stopsAt src s.buffer.length j s.buffer.length 0 s.calls ≠ none := fun hstops =>
    haccess (stopsAt_none_accessible hj (Nat.sub_le ..) hstops (Nat.zero_le j) (Nat.le_refl j))
  have hsplit := Nat.div_add_mod' j cpu.wordBytes
  have hmod := Nat.mod_lt j cpu.wordBytes_pos
  obtain ⟨buffer, calls, hrun, hlength⟩ := readChunks_errnoAt cpu hj hnone hstops
  obtain ⟨buffer', errno, hrun', hlength'⟩ := readStringByWords_error (m := j / cpu.wordBytes)
    (s := { s with buffer, calls, errno := k.errnoAt src s.buffer.length j s })
    (Nat.div_le_div_right (Nat.le_of_lt (hj.trans_eq hlength.symm))) (hgrants.mono (by omega))
    (fun i hi => hnone i (by omega)) fun hword => haccess (by
      have hbyte := hword.2 (j % cpu.wordBytes) hmod
      rwa [Nat.add_assoc, hsplit] at hbyte)
  exact ⟨_, (readString_fallback hrun hlength).trans hrun', rfl, hlength'.trans hlength⟩

variable (k cpu) in
/-- Without an end of the string the chunks leave it to the words. -/
theorem readChunks_unterminated (hpos : 0 < s.buffer.length)
    (hnone : ∀ j < s.buffer.length, s.bytes (src + j) ≠ 0) :
    ∃ buffer calls, readChunks k cpu src s.buffer.length s.buffer.length 0 s = (.ok none,
        { s with
          buffer, calls, errno := k.errnoAt src s.buffer.length (s.buffer.length - 1) s }) ∧
      buffer.length = s.buffer.length := by
  by_cases hstops :
      k.stopsAt src s.buffer.length (s.buffer.length - 1) s.buffer.length 0 s.calls = none
  · rw [Kernel.errnoAt, hstops]
    exact readChunks_passes rfl hpos (Copied.zero ..) hnone (Nat.sub_le ..) hstops
  · exact readChunks_errnoAt cpu (by omega) (fun j hj => hnone j (by omega)) hstops

/-- Without an end of the string one more than the size is returned if one more word is read. -/
theorem readString_overruns (hpos : 0 < s.buffer.length)
    (hnone : k.Unterminated s.bytes src s.buffer.length) (hover : k.Overruns cpu src s) :
    ∃ s', Returns k cpu src s (intOf ↑(s.buffer.length + 1)) s' := by
  obtain ⟨buffer, calls, hrun, hlength⟩ := readChunks_unterminated k cpu hpos
    hnone.2
  obtain ⟨buffer', hrun', hlength'⟩ := readStringByWords_unterminated
    (s := { s with
      buffer, calls, errno := k.errnoAt src s.buffer.length (s.buffer.length - 1) s })
    hover.1 (by rw [hlength]; exact hnone) (by rw [hlength]; exact hover.2)
  have hrun'' := (readString_fallback hrun hlength).trans hrun'
  refine ⟨{ s with
    buffer := buffer', calls, errno := k.errnoAt src s.buffer.length (s.buffer.length - 1) s },
    hrun''.trans ?_, rfl, hlength'.trans hlength⟩
  exact congrArg (fun n : ℕ => (Except.ok (intOf ↑(n + 1)), _)) hlength

variable (cpu) in
/-- Otherwise an error is returned. -/
theorem readString_stays (hpos : 0 < s.buffer.length)
    (hnone : k.Unterminated s.bytes src s.buffer.length) (hover : ¬k.Overruns cpu src s) :
    ∃ s', Returns k cpu src s (-efault) s' := by
  have hsplit := Nat.div_mul_le_self s.buffer.length cpu.wordBytes
  obtain ⟨buffer, calls, hrun, hlength⟩ := readChunks_unterminated k cpu hpos
    hnone.2
  obtain ⟨buffer', errno, hrun', hlength'⟩ := readStringByWords_error
    (m := s.buffer.length / cpu.wordBytes) (s := { s with
      buffer, calls, errno := k.errnoAt src s.buffer.length (s.buffer.length - 1) s })
    (by rw [hlength]) (hnone.1.mono hsplit) (fun j hj => hnone.2 j (by omega)) hover
  exact ⟨_, (readString_fallback hrun hlength).trans hrun', rfl, hlength'.trans hlength⟩

/-- What is meant of a run, for what it returned. -/
theorem readsString_of_returns {status : ℤ} {s' : Memory} (h : Returns k cpu src s status s') :
    ReadsString k cpu src s ↔
      (∀ length < s.buffer.length, k.EndsAt s.bytes src length →
        status = ↑(length + 1) ∧ Copied s'.buffer s.bytes src (length + 1)) ∧
      (k.Broken s.bytes src s.buffer.length → status < 0) ∧
      (k.Unterminated s.bytes src s.buffer.length → status < 0 ∨ ↑s.buffer.length < status) := by
  constructor
  · rintro ⟨status', s'', hrun, -, -, hmeant⟩
    rw [h.1] at hrun
    obtain ⟨hstatus, rfl⟩ := Prod.mk.inj hrun
    rwa [Except.ok.inj hstatus]
  · exact fun hmeant => ⟨status, s', h.1, h.2.1, h.2.2, hmeant⟩

/-- What is returned for a string tells of it exactly if its end, when it has one, is reached and its
size is kept by the conversion to an `int`, and if the status of a string that is too long is no
size. -/
theorem readString_iff (hpos : 0 < s.buffer.length) :
    ReadsString k cpu src s ↔
      (∀ length < s.buffer.length, k.EndsAt s.bytes src length →
        k.Reaches cpu src length s ∧ intOf ↑(length + 1) = ↑(length + 1)) ∧
      (k.Unterminated s.bytes src s.buffer.length → k.Overruns cpu src s →
        intOf ↑(s.buffer.length + 1) < 0 ∨
          ↑s.buffer.length < intOf ↑(s.buffer.length + 1)) := by
  have hefault : -(efault : ℤ) < 0 := by decide
  rcases k.string_cases s.bytes src s.buffer.length with ⟨length, hlt, hends⟩ | hbroken | hnone
  · -- The string ends.
    have hwhole : ¬k.Broken s.bytes src s.buffer.length := hends.not_broken
    have hsome := hends.not_unterminated hlt
    by_cases hreaches : k.Reaches cpu src length s
    · obtain ⟨s', hreturns, hcopied⟩ := readString_reaches hlt hends hreaches
      rw [readsString_of_returns hreturns]
      constructor
      · rintro ⟨hmeant, -, -⟩
        refine ⟨fun length' _ hends' => ?_, fun hnone => absurd hnone hsome⟩
        rw [hends'.unique hends]
        exact ⟨hreaches, (hmeant length hlt hends).1⟩
      · rintro ⟨hfits, -⟩
        refine ⟨fun length' _ hends' => ?_, fun hbroken => absurd hbroken hwhole,
          fun hnone => absurd hnone hsome⟩
        rw [hends'.unique hends]
        exact ⟨(hfits length hlt hends).2, hcopied⟩
    · obtain ⟨s', hreturns⟩ := readString_misses hlt hends hreaches
      rw [readsString_of_returns hreturns]
      refine iff_of_false (fun hmeant => ?_) fun hfits => hreaches (hfits.1 length hlt hends).1
      have hstatus := (hmeant.1 length hlt hends).1
      omega
  · -- A byte that is needed is not accessible.
    obtain ⟨s', hreturns⟩ := readString_broken cpu hbroken
    rw [readsString_of_returns hreturns]
    refine iff_of_true ⟨fun _ _ hends => absurd hbroken hends.not_broken, fun _ => hefault,
      fun hnone => absurd hnone hbroken.not_unterminated⟩
      ⟨fun _ _ hends => absurd hbroken hends.not_broken,
        fun hnone => absurd hnone hbroken.not_unterminated⟩
  · -- The string is longer than the buffer.
    have hnever : ∀ length < s.buffer.length, ¬k.EndsAt s.bytes src length :=
      fun _ hlt hends => hends.not_unterminated hlt hnone
    have hwhole : ¬k.Broken s.bytes src s.buffer.length := fun hbroken =>
      hbroken.not_unterminated hnone
    by_cases hover : k.Overruns cpu src s
    · obtain ⟨s', hreturns⟩ := readString_overruns hpos hnone hover
      rw [readsString_of_returns hreturns]
      constructor
      · exact fun hmeant => ⟨fun length hlt hends => absurd hends (hnever length hlt),
          fun _ _ => hmeant.2.2 hnone⟩
      · exact fun hfits => ⟨fun length hlt hends => absurd hends (hnever length hlt),
          fun hbroken => absurd hbroken hwhole, fun _ => hfits.2 hnone hover⟩
    · obtain ⟨s', hreturns⟩ := readString_stays cpu hpos hnone hover
      rw [readsString_of_returns hreturns]
      exact iff_of_true ⟨fun length hlt hends => absurd hends (hnever length hlt),
        fun _ => hefault, fun _ => Or.inl hefault⟩
        ⟨fun length hlt hends => absurd hends (hnever length hlt),
          fun _ hover' => absurd hover' hover⟩

/-- Two characters and a terminator at address zero, and a buffer of eight bytes. -/
def shortString : Memory := ⟨fun a => if a = 2 then 0 else 1, List.replicate 8 0, 0, 0⟩

/-- The string ends behind its characters. -/
theorem shortString_ends (k : Kernel) (h : k.Grants 0 3) : k.EndsAt shortString.bytes 0 2 :=
  ⟨h, rfl, by decide⟩

/-- The string is read where the page is transferred at once. -/
theorem readString_short : ReadsString onePage .arm64 0 shortString := by
  have hends := shortString_ends onePage (by decide)
  refine (readString_iff (by decide)).mpr ⟨fun length hlt hends' => ?_, fun hnone => ?_⟩
  · rw [hends'.unique hends]
    exact ⟨Or.inl rfl, by decide⟩
  · exact absurd hnone (hends.not_unterminated (by decide))

/-- The string is not read where `process_vm_readv` fails: its error is taken for one of the first
word. -/
theorem readString_staleErrno : ¬ReadsString noProcessVm .arm64 0 shortString := by
  have hends := shortString_ends noProcessVm fun _ _ => rfl
  have hmisses : ¬noProcessVm.Reaches .arm64 0 2 shortString := by
    rintro (hstops | ⟨herrno, -⟩)
    · cases hstops
    · exact absurd herrno (by decide)
  obtain ⟨s', hreturns⟩ := readString_misses (by decide) hends hmisses
  intro hmeant
  have hstatus := (((readsString_of_returns hreturns).mp hmeant).1 2 (by decide) hends).1
  exact absurd hstatus (by decide)

end Whole

end Abyss
