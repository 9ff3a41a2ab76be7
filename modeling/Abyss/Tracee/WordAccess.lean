import Abyss.Tracee.Mem

/-!
# Words of a process under a regular kernel

Memory is given page by page, and ends below the top of the address space. A kernel either always
transfers all of a range that is accessible, or has no transfers, and then leaves everything to
`ptrace`. Under such a kernel a word that was written without an error, and that is followed by an
accessible byte, is accessible as a whole and can be read again.
-/

namespace Abyss

open Machine Bytes

/-- What a kernel is expected to do: user memory ends below the top of the address space and is
given in pages, and transfers are either complete where they can be or not available. -/
structure Kernel.Regular (k : Kernel) (cpu : Cpu) : Prop where
  below : ∀ {a}, k.accessible a = true → a + cpu.wordBytes < 2 ^ cpu.wordBits
  paged : ∀ {a b}, a / k.pageSize = b / k.pageSize → k.accessible a = k.accessible b
  word_le_page : cpu.wordBytes ≤ k.pageSize
  transfers : (∀ call a n, 0 < n → k.Grants a n → k.transfer call a n = .moved n) ∨
    ∀ call a n, ∃ e, k.transfer call a n = .failed e

/-- A word as a process with words of another size keeps it. -/
def Mode.truncated (m : Mode) (v : m.cpu.Word) : m.cpu.Word :=
  (v.setWidth (8 * m.sizeofWord)).setWidth m.cpu.wordBits

/-- A word is accessible, and so are the bytes that are read together with it. -/
def Kernel.Readable (k : Kernel) (m : Mode) (a : ℕ) : Prop :=
  k.Grants a m.sizeofWord ∧
    ((∀ call a n, 0 < n → k.Grants a n → k.transfer call a n = .moved n) ∨
      k.Grants a m.cpu.wordBytes)

section Regular

variable {k : Kernel} {m : Mode} {a : ℕ} {s s' : Memory} {value : m.cpu.Word}

/-- The bytes of a word make the truncated word. -/
theorem wordOf_byteOf_truncated (v : m.cpu.Word) :
    wordOf m.cpu.wordBits (byteOf v) m.sizeofWord = m.truncated v := by
  refine BitVec.eq_of_getLsbD_eq fun i hi => ?_
  have hback : 8 * (i / 8) + i % 8 = i := by omega
  have hmod : i % 8 < 8 := Nat.mod_lt _ (by decide)
  rw [wordOf_getLsbD, Mode.truncated, BitVec.getLsbD_setWidth, BitVec.getLsbD_setWidth, byteOf,
    BitVec.getLsbD_extractLsb', hback]
  simp [hi, hmod]

/-- The bytes between two accessible ones are accessible if they are not further apart than a
page. -/
theorem Kernel.Regular.grants (hk : k.Regular m.cpu) (ha : k.accessible a = true) {n : ℕ}
    (hn : n ≤ k.pageSize) (hend : k.accessible (a + n) = true) : k.Grants a n := by
  intro j hj
  have hpos : 0 < k.pageSize := Nat.lt_of_lt_of_le m.cpu.wordBytes_pos hk.word_le_page
  have hlow : a / k.pageSize ≤ (a + j) / k.pageSize := Nat.div_le_div_right (Nat.le_add_right ..)
  have hup : (a + j) / k.pageSize ≤ (a + n) / k.pageSize := Nat.div_le_div_right (by omega)
  have hnext : (a + n) / k.pageSize ≤ a / k.pageSize + 1 := by
    rw [← Nat.add_div_right a hpos]
    exact Nat.div_le_div_right (by omega)
  by_cases hsame : (a + j) / k.pageSize = a / k.pageSize
  · rw [hk.paged hsame, ha]
  · have hpage : (a + j) / k.pageSize = (a + n) / k.pageSize := by omega
    rw [hk.paged hpage, hend]

/-- A readable word is read. -/
theorem peekWord_readable (hk : k.Regular m.cpu) (h : k.Readable m a) (s : Memory) :
    ∃ s', peekWord k m a s = (.ok (s.wordAt m a), s') ∧ s'.bytes = s.bytes ∧ s'.errno = 0 := by
  have hfits : PeekFits k m a s := by
    unfold PeekFits
    split
    · rename_i c htransfer
      rcases hk.transfers with hall | hnone
      · rw [hall _ _ _ (sizeofWord_pos m) h.1] at htransfer
        exact .inl (Transfer.moved.inj htransfer).symm
      · obtain ⟨e, hfail⟩ := hnone s.calls a m.sizeofWord
        rw [hfail] at htransfer
        cases htransfer
    · rename_i hnothing
      rcases h.2 with hall | hwhole
      · have hmoved := hall s.calls a _ (sizeofWord_pos m) h.1
        obtain ⟨c, hc⟩ := Nat.exists_eq_succ_of_ne_zero (sizeofWord_pos m).ne'
        exact absurd (hc ▸ hmoved) (hnothing c)
      · exact fun _ => hwhole
  obtain ⟨v, s', hrun, hbytes, hword⟩ := peekWord_iff.mpr hfits
  rw [if_pos h.1] at hword
  obtain ⟨rfl, herrno⟩ := hword
  exact ⟨s', hrun, hbytes, herrno⟩

/-- What `ptrace` writes starts with the word. -/
theorem pokeWord_ptrace (hnothing : ∀ c, k.transfer s.calls a m.sizeofWord = .moved (c + 1) → False)
    (h : pokeWord k m a value s = (.ok (), s')) (herrno : s'.errno = 0) :
    k.Grants a m.cpu.wordBytes ∧ ∃ word : m.cpu.Word,
      (∀ j < m.sizeofWord, byteOf word j = byteOf value j) ∧
        s'.bytes = splice s.bytes a (bytesOf word m.cpu.wordBytes) := by
  obtain ⟨errno, hrun⟩ := pokeWord_nothing value hnothing
  rw [hrun] at h
  have hwhole : ∀ (s₁ : Memory) (word : m.cpu.Word),
      pokeWholeWord k m.cpu a word s₁ = (.ok (), s') → k.Grants a m.cpu.wordBytes ∧
        s'.bytes = splice s₁.bytes a (bytesOf word m.cpu.wordBytes) := by
    intro s₁ word hpoke
    obtain ⟨errno', hpoke', hzero⟩ := pokeWholeWord_apply (k := k) (a := a) s₁ word
    rw [hpoke'] at hpoke
    obtain ⟨-, rfl⟩ := Prod.mk.inj hpoke
    have hgrants := hzero.mp herrno
    exact ⟨hgrants, if_pos hgrants⟩
  by_cases hmode : m.is32on64 = true
  · rw [if_pos hmode, bind_apply_ok (setErrno_apply 0 _)] at h
    by_cases hgrants : k.Grants a m.cpu.wordBytes
    · rw [bind_apply_ok (ptracePeekData_granted hgrants), bind_apply_ok (read_apply _),
        if_neg (by simp)] at h
      obtain ⟨-, hbytes⟩ := hwhole _ _ h
      refine ⟨hgrants, _, fun j hj => ?_, hbytes⟩
      rw [byteOf_merged hmode _ value (Nat.lt_of_lt_of_le hj (sizeofWord_le m)), if_pos hj]
    · rw [bind_apply_ok (ptracePeekData_refused hgrants), bind_apply_ok (read_apply _),
        if_pos (k.fault_ne_zero a)] at h
      obtain ⟨-, rfl⟩ := Prod.mk.inj h
      exact absurd herrno (k.fault_ne_zero a)
  · rw [if_neg hmode] at h
    obtain ⟨hgrants, hbytes⟩ := hwhole _ _ h
    exact ⟨hgrants, value, fun _ _ => rfl, hbytes⟩

/-- A word that was written without an error starts with an accessible byte, and what is before it
is kept. If it is accessible as a whole, it is there and can be read. -/
theorem pokeWord_written (hk : k.Regular m.cpu) (h : pokeWord k m a value s = (.ok (), s'))
    (herrno : s'.errno = 0) :
    k.accessible a = true ∧ (∀ b < a, s'.bytes b = s.bytes b) ∧
      (k.Grants a m.sizeofWord → k.Readable m a ∧
        ∀ j < m.sizeofWord, s'.bytes (a + j) = byteOf value j) := by
  have hpos := sizeofWord_pos m
  by_cases hsome : ∃ c, k.transfer s.calls a m.sizeofWord = .moved (c + 1)
  · obtain ⟨c, hmoved⟩ := hsome
    rw [pokeWord_moved hmoved] at h
    obtain ⟨-, rfl⟩ := Prod.mk.inj h
    refine ⟨(k.moved_accessible hmoved).2 0 (Nat.succ_pos c), fun b hb => splice_of_lt hb, ?_⟩
    intro hgrants
    rcases hk.transfers with hall | hnone
    · rw [hall _ _ _ hpos hgrants] at hmoved
      have hc : m.sizeofWord = c + 1 := Transfer.moved.inj hmoved
      refine ⟨⟨hgrants, .inl hall⟩, fun j hj => ?_⟩
      have htake : (bytesOf value m.sizeofWord).take (c + 1) = bytesOf value m.sizeofWord :=
        List.take_of_length_le (by rw [bytesOf_length, hc])
      dsimp only
      rw [htake, splice_of_mem (by rwa [bytesOf_length]), bytesOf_getElem]
    · obtain ⟨e, hfail⟩ := hnone s.calls a m.sizeofWord
      rw [hfail] at hmoved
      cases hmoved
  · obtain ⟨hwhole, word, hword, hbytes⟩ :=
      pokeWord_ptrace (fun c hc => hsome ⟨c, hc⟩) h herrno
    refine ⟨hwhole 0 m.cpu.wordBytes_pos, fun b hb => by rw [hbytes, splice_of_lt hb], ?_⟩
    intro hgrants
    refine ⟨⟨hgrants, .inr hwhole⟩, fun j hj => ?_⟩
    have hj' : j < (bytesOf word m.cpu.wordBytes).length := by
      rw [bytesOf_length]
      exact Nat.lt_of_lt_of_le hj (sizeofWord_le m)
    rw [hbytes, splice_of_mem hj', bytesOf_getElem, hword j hj]

/-! ## Words one after the other -/

/-- The address of the next word. -/
def Mode.next (m : Mode) (address : m.cpu.Word) : m.cpu.Word :=
  address + BitVec.ofNat m.cpu.wordBits m.sizeofWord

/-- Words are in memory one after the other, and can be read. -/
def HoldsWords (k : Kernel) (m : Mode) (bytes : ℕ → Byte) : ℕ → List m.cpu.Word → Prop
  | _, [] => True
  | a, word :: words =>
    k.Readable m a ∧ wordOf m.cpu.wordBits (fun j => bytes (a + j)) m.sizeofWord = word ∧
      HoldsWords k m bytes (a + m.sizeofWord) words

/-- The address does not wrap behind accessible memory. -/
theorem Kernel.Regular.next_toNat (hk : k.Regular m.cpu) {address : m.cpu.Word}
    (h : k.accessible address.toNat = true) :
    (m.next address).toNat = address.toNat + m.sizeofWord := by
  have hbelow := hk.below h
  have hle := sizeofWord_le m
  rw [Mode.next, BitVec.toNat_add, BitVec.toNat_ofNat, Nat.mod_eq_of_lt (by omega : m.sizeofWord <
    2 ^ m.cpu.wordBits), Nat.mod_eq_of_lt (by omega)]

/-- A word that is readable is accessible. -/
theorem Kernel.Readable.accessible (h : k.Readable m a) : k.accessible a = true :=
  h.1 0 (sizeofWord_pos m)

/-- A program that goes on with a word, unless it cannot be read. -/
def peekThen {α : Type} (k : Kernel) (m : Mode) (address : m.cpu.Word) (failed : α)
    (next : m.cpu.Word → MemoryProg α) : MemoryProg α := do
  let word ← peekWord k m address.toNat
  let s ← read
  if s.errno ≠ 0 then pure failed else next word

/-- A program that goes on when a word is written, and returns the error otherwise. -/
def pokeThen (k : Kernel) (m : Mode) (address value : m.cpu.Word) (next : MemoryProg ℤ) :
    MemoryProg ℤ := do
  pokeWord k m address.toNat value
  let s ← read
  if s.errno ≠ 0 then pure (-(s.errno : ℤ)) else next

/-- Write words one after the other. -/
def pokeWords (k : Kernel) (m : Mode) : List m.cpu.Word → m.cpu.Word → MemoryProg ℤ
  | [], _ => pure 0
  | word :: words, address => pokeThen k m address word (pokeWords k m words (m.next address))

/-- The program goes on with the word that is held. -/
theorem peekThen_apply {α : Type} (hk : k.Regular m.cpu) {address : m.cpu.Word}
    {words : List m.cpu.Word} {word : m.cpu.Word} (failed : α) (next : m.cpu.Word → MemoryProg α)
    (h : HoldsWords k m s.bytes address.toNat (word :: words)) :
    ∃ s', peekThen k m address failed next s = next word s' ∧ s'.bytes = s.bytes ∧
      HoldsWords k m s'.bytes (m.next address).toNat words := by
  obtain ⟨hreadable, rfl, hwords⟩ := h
  obtain ⟨s', hrun, hbytes, herrno⟩ := peekWord_readable hk hreadable s
  refine ⟨s', ?_, hbytes, ?_⟩
  · rw [peekThen, bind_apply_ok hrun, bind_apply_ok (read_apply s'), if_neg (not_not.mpr herrno)]
    rfl
  · rw [hk.next_toNat hreadable.accessible, hbytes]
    exact hwords

/-- A program that returns zero after a word went on after it, or returned the error. -/
theorem pokeThen_ok {address : m.cpu.Word} {next : MemoryProg ℤ}
    (h : pokeThen k m address value next s = (.ok 0, s')) :
    ∃ s₁, pokeWord k m address.toNat value s = (.ok (), s₁) ∧ s₁.errno = 0 ∧
      next s₁ = (.ok 0, s') := by
  unfold pokeThen at h
  obtain ⟨⟨⟩, s₁, hpoke, h⟩ := bind_ok_iff.mp h
  rw [bind_apply_ok (read_apply s₁)] at h
  by_cases herrno : s₁.errno = 0
  · rw [if_neg (not_not.mpr herrno)] at h
    exact ⟨s₁, hpoke, herrno, h⟩
  · rw [if_pos herrno] at h
    have hzero : -(s₁.errno : ℤ) = 0 := Except.ok.inj (Prod.mk.inj h).1
    exact absurd (Int.natCast_eq_zero.mp (Int.neg_eq_zero.mp hzero)) herrno

/-- The words before another word depend on the bytes before it only. -/
theorem HoldsWords.head_congr {bytes bytes' : ℕ → Byte}
    (h : wordOf m.cpu.wordBits (fun j => bytes (a + j)) m.sizeofWord = value)
    (hbytes : ∀ b < a + m.sizeofWord, bytes' b = bytes b) :
    wordOf m.cpu.wordBits (fun j => bytes' (a + j)) m.sizeofWord = value :=
  (wordOf_congr fun _ hj => hbytes _ (Nat.add_lt_add_left hj a)).trans h

/-- When all words were written, all but the last are there: the last one may lie across the end of
the accessible memory. Nothing before the first one is changed. -/
theorem pokeWords_ok (hk : k.Regular m.cpu) {words : List m.cpu.Word} (hne : words ≠ [])
    {address : m.cpu.Word} (h : pokeWords k m words address s = (.ok 0, s')) :
    k.accessible address.toNat = true ∧ (∀ b < address.toNat, s'.bytes b = s.bytes b) ∧
      HoldsWords k m s'.bytes address.toNat (words.dropLast.map m.truncated) := by
  induction words generalizing address s with
  | nil => exact absurd rfl hne
  | cons word words ih =>
    obtain ⟨s₁, hpoke, herrno, hrest⟩ := pokeThen_ok h
    obtain ⟨haccessible, hframe, hwritten⟩ := pokeWord_written hk hpoke herrno
    refine ⟨haccessible, ?_⟩
    cases words with
    | nil =>
      obtain ⟨-, rfl⟩ := Prod.mk.inj hrest
      exact ⟨hframe, trivial⟩
    | cons word' words =>
      obtain ⟨hnext, hframe', hheld⟩ := ih (List.cons_ne_nil _ _) hrest
      rw [hk.next_toNat haccessible] at hnext hframe' hheld
      have hsize : m.sizeofWord ≤ k.pageSize := (sizeofWord_le m).trans hk.word_le_page
      obtain ⟨hreadable, hbytes⟩ := hwritten (hk.grants haccessible hsize hnext)
      refine ⟨fun b hb => (hframe' b (Nat.lt_add_right _ hb)).trans (hframe b hb), hreadable, ?_,
        hheld⟩
      refine HoldsWords.head_congr ?_ hframe'
      exact (wordOf_congr hbytes).trans (wordOf_byteOf_truncated word)

/-- Words behind others. -/
theorem HoldsWords.of_append {bytes : ℕ → Byte} {init words : List m.cpu.Word}
    (h : HoldsWords k m bytes a (init ++ words)) :
    HoldsWords k m bytes (a + m.sizeofWord * init.length) words := by
  induction init generalizing a with
  | nil => exact h
  | cons word init ih =>
    have hrest := ih h.2.2
    rwa [Nat.add_assoc, Nat.add_comm m.sizeofWord, ← Nat.mul_succ] at hrest

/-- Words in accessible memory can be read if another word follows. -/
theorem holdsWords_of_grants {words : List m.cpu.Word}
    (hgrants : k.Grants a (m.sizeofWord * (words.length + 1)))
    (hwords : ∀ i (hi : i < words.length), s.wordAt m (a + m.sizeofWord * i) = words[i]) :
    HoldsWords k m s.bytes a words := by
  induction words generalizing a with
  | nil => trivial
  | cons word words ih =>
    have htwo : m.cpu.wordBytes ≤ m.sizeofWord * 2 := by
      obtain ⟨cpu, isAarch32⟩ := m
      cases cpu <;> cases isAarch32 <;> decide
    have hmul : m.sizeofWord * 2 ≤ m.sizeofWord * ((word :: words).length + 1) :=
      Nat.mul_le_mul_left _ (by simp)
    refine ⟨⟨hgrants.mono (by omega), .inr (hgrants.mono (htwo.trans hmul))⟩, hwords 0 (by simp),
      ih ?_ fun i hi => ?_⟩
    · rw [List.length_cons, Nat.mul_succ, Nat.add_comm] at hgrants
      exact (Kernel.grants_add.mp hgrants).2
    · have hword := hwords (i + 1) (by simpa using hi)
      rw [Nat.mul_succ, Nat.add_comm (m.sizeofWord * i), ← Nat.add_assoc] at hword
      exact hword

end Regular

end Abyss
