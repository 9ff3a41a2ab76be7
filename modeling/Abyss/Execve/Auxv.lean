import Abyss.Syscall.Seccomp
import Abyss.Tracee.WordAccess

/-!
# Auxiliary vectors

The auxiliary vectors of a process are pairs of words on its stack, behind the arguments and the
environment, and end with a pair of type `AT_NULL`. The tracer keeps them in an array that always
ends with this sentinel: to append a vector it replaces the sentinel and adds it again. Vectors that
are pushed to memory are fetched from there as they were, in words of the process, unless the type
of one of them is a multiple of the size of such a word.
-/

namespace Abyss.Execve

open Machine Bytes

/-- `AT_NULL`. -/
def atNull {cpu : Cpu} : cpu.Word := 0

/-- A vector. -/
structure ElfAuxVector (cpu : Cpu) where
  type : cpu.Word
  value : cpu.Word
deriving DecidableEq

/-- The vector that ends the others. -/
def auxSentinel {cpu : Cpu} : ElfAuxVector cpu := ⟨atNull, 0⟩

section Programs

variable (k : Kernel) (m : Mode)

/-- `add_elf_aux_vector`: the result, and the array. `alloc` tells whether there is memory for a
number of vectors, and `garbage` is what the new element of a larger array holds. -/
def addElfAuxVector {cpu : Cpu} (alloc : ℕ → Bool) (garbage : ElfAuxVector cpu)
    (vectors : List (ElfAuxVector cpu)) (type value : cpu.Word) :
    MemoryProg (ℤ × List (ElfAuxVector cpu)) :=
  match vectors.getLast? with
  | none => fault .assertion
  | some last =>
    if last.type ≠ atNull then fault .assertion
    else if alloc (vectors.length + 1) = false then pure (-enomem, vectors)
    else
      let vectors' := (vectors ++ [garbage]).set (vectors.length - 1) ⟨type, value⟩
      pure (0, vectors'.set vectors.length auxSentinel)

/-- The loop of `fetch_elf_aux_vectors`. -/
def fetchElfAuxVectorsFrom (alloc : ℕ → Bool) (garbage : ElfAuxVector m.cpu) :
    ℕ → List (ElfAuxVector m.cpu) → m.cpu.Word → MemoryProg (Option (List (ElfAuxVector m.cpu)))
  | 0, _, _ => fault .outOfFuel
  | fuel + 1, vectors, address =>
    peekThen k m address none fun type =>
      if type = atNull then pure (some vectors)
      else
        peekThen k m (m.next address) none fun value => do
          let (status, vectors) ← addElfAuxVector alloc garbage vectors type value
          if status < 0 then pure none
          else fetchElfAuxVectorsFrom alloc garbage fuel vectors (m.next (m.next address))

/-- `fetch_elf_aux_vectors`. -/
def fetchElfAuxVectors (alloc : ℕ → Bool) (garbage : ElfAuxVector m.cpu) (fuel : ℕ)
    (address : m.cpu.Word) : MemoryProg (Option (List (ElfAuxVector m.cpu))) :=
  if alloc 1 = false then pure none
  else fetchElfAuxVectorsFrom k m alloc garbage fuel [auxSentinel] address

/-- `push_elf_aux_vectors`. -/
def pushElfAuxVectors : List (ElfAuxVector m.cpu) → m.cpu.Word → MemoryProg ℤ
  | [], _ => fault .outOfBounds
  | vector :: vectors, address =>
    if vector.type ≠ atNull then
      pokeThen k m address vector.type
        (pokeThen k m (m.next address) vector.value
          (pushElfAuxVectors vectors (m.next (m.next address))))
    else pokeThen k m address atNull (pokeThen k m (m.next address) 0 (pure 0))

/-- Skip the environment and its terminator. -/
def skipEnvp : ℕ → m.cpu.Word → MemoryProg m.cpu.Word
  | 0, _ => fault .outOfFuel
  | fuel + 1, address =>
    peekThen k m address 0 fun data =>
      if data ≠ 0 then skipEnvp fuel (m.next address) else pure (m.next address)

/-- `get_elf_aux_vectors_address`, which is for the exit of `execve`. -/
def getElfAuxVectorsAddress (inExecveExit : Bool) (regs : Regs) (fuel : ℕ) :
    MemoryProg m.cpu.Word :=
  if inExecveExit = false then fault .assertion
  else
    let address := BitVec.ofNat m.cpu.wordBits (peekReg m regs .current .stackPointer)
    peekThen k m address 0 fun data =>
      skipEnvp k m fuel (address + (1 + data + 1) * BitVec.ofNat m.cpu.wordBits m.sizeofWord)

end Programs

/-- A vector as a process keeps it. -/
def ElfAuxVector.truncated (m : Mode) (vector : ElfAuxVector m.cpu) : ElfAuxVector m.cpu where
  type := m.truncated vector.type
  value := m.truncated vector.value

/-- The words of vectors. -/
def auxWords {cpu : Cpu} (vectors : List (ElfAuxVector cpu)) : List cpu.Word :=
  vectors.flatMap fun vector => [vector.type, vector.value]

section RoundTrip

variable {k : Kernel} {m : Mode} {alloc : ℕ → Bool} {garbage : ElfAuxVector m.cpu}

/-- An array that ends with the sentinel gets a vector before it. -/
theorem addElfAuxVector_apply {cpu : Cpu} (garbage : ElfAuxVector cpu)
    (vectors : List (ElfAuxVector cpu)) (halloc : alloc (vectors.length + 2) = true)
    (type value : cpu.Word) (s : Memory) :
    addElfAuxVector alloc garbage (vectors ++ [auxSentinel]) type value s =
      (.ok (0, vectors ++ [⟨type, value⟩] ++ [auxSentinel]), s) := by
  have hlength : (vectors ++ [auxSentinel]).length = vectors.length + 1 := by simp
  unfold addElfAuxVector
  have hnull : ¬(auxSentinel : ElfAuxVector cpu).type ≠ atNull := not_not.mpr rfl
  rw [List.getLast?_concat]
  dsimp only
  rw [if_neg hnull, hlength, halloc, if_neg (by simp)]
  simp

/-- Vectors are pushed word by word. -/
theorem pushElfAuxVectors_eq (vectors : List (ElfAuxVector m.cpu))
    (htypes : ∀ vector ∈ vectors, vector.type ≠ atNull) (address : m.cpu.Word) :
    pushElfAuxVectors k m (vectors ++ [auxSentinel]) address =
      pokeWords k m (auxWords vectors ++ [atNull, 0]) address := by
  induction vectors generalizing address with
  | nil => rfl
  | cons vector vectors ih =>
    rw [List.forall_mem_cons] at htypes
    rw [List.cons_append, pushElfAuxVectors, if_pos htypes.1, ih htypes.2]
    rfl

/-- Vectors in memory are fetched behind those that were fetched before. -/
theorem fetchElfAuxVectorsFrom_apply (hk : k.Regular m.cpu) {vectors : List (ElfAuxVector m.cpu)}
    (htypes : ∀ vector ∈ vectors, vector.type ≠ atNull) {fuel : ℕ} (hfuel : vectors.length < fuel)
    (fetched : List (ElfAuxVector m.cpu))
    (halloc : ∀ n ≤ fetched.length + vectors.length + 1, alloc n = true) {address : m.cpu.Word}
    {s : Memory}
    (h : HoldsWords k m s.bytes address.toNat (auxWords vectors ++ [atNull])) :
    ∃ s', fetchElfAuxVectorsFrom k m alloc garbage fuel (fetched ++ [auxSentinel]) address s =
        (.ok (some (fetched ++ vectors ++ [auxSentinel])), s') ∧ s'.bytes = s.bytes := by
  induction vectors generalizing fuel fetched address s with
  | nil =>
    obtain ⟨fuel, rfl⟩ : ∃ n, fuel = n + 1 := ⟨fuel - 1, by omega⟩
    obtain ⟨s', hpeek, hbytes, -⟩ := peekThen_apply hk none _ h
    refine ⟨s', ?_, hbytes⟩
    rw [fetchElfAuxVectorsFrom, hpeek, if_pos rfl, List.append_nil]
    rfl
  | cons vector vectors ih =>
    rw [List.forall_mem_cons] at htypes
    rw [List.length_cons] at hfuel halloc
    obtain ⟨fuel, rfl⟩ : ∃ n, fuel = n + 1 := ⟨fuel - 1, by omega⟩
    obtain ⟨s₁, hpeek₁, hbytes₁, h₁⟩ := peekThen_apply hk none _ h
    obtain ⟨s₂, hpeek₂, hbytes₂, h₂⟩ := peekThen_apply hk none _ h₁
    have hadd := addElfAuxVector_apply garbage fetched (halloc _ (by omega))
      vector.type vector.value s₂
    have hlater : ∀ n ≤ (fetched ++ [vector]).length + vectors.length + 1, alloc n = true := by
      intro n hn
      rw [List.length_append, List.length_singleton] at hn
      exact halloc n (by omega)
    obtain ⟨s', hrun, hbytes⟩ := ih htypes.2 (Nat.lt_of_succ_lt_succ hfuel) _ hlater h₂
    refine ⟨s', ?_, hbytes.trans (hbytes₂.trans hbytes₁)⟩
    rw [fetchElfAuxVectorsFrom, hpeek₁, if_neg htypes.1, hpeek₂, bind_apply_ok hadd]
    dsimp only
    rw [if_neg (by decide), hrun, List.append_assoc fetched [vector], List.singleton_append]

/-- The words that a process keeps for vectors are those of the vectors that it keeps. -/
theorem map_truncated_auxWords (vectors : List (ElfAuxVector m.cpu)) :
    (auxWords vectors).map m.truncated = auxWords (vectors.map (ElfAuxVector.truncated m)) := by
  unfold auxWords
  rw [List.map_flatMap, List.flatMap_map]
  rfl

/-- Zero has all its bits in a word of either size. -/
theorem truncated_zero (m : Mode) : m.truncated 0 = 0 := by
  simp [Mode.truncated]

/-- Vectors that were pushed are fetched again. -/
theorem fetch_push (hk : k.Regular m.cpu) {vectors : List (ElfAuxVector m.cpu)}
    (htypes : ∀ vector ∈ vectors, m.truncated vector.type ≠ atNull)
    (halloc : ∀ n ≤ vectors.length + 1, alloc n = true) {address : m.cpu.Word} {s s' : Memory}
    (h : pushElfAuxVectors k m (vectors ++ [auxSentinel]) address s = (.ok 0, s')) {fuel : ℕ}
    (hfuel : vectors.length < fuel) {s₁ : Memory} (hs₁ : s₁.bytes = s'.bytes) :
    ∃ s₂, fetchElfAuxVectors k m alloc garbage fuel address s₁ =
        (.ok (some (vectors.map (ElfAuxVector.truncated m) ++ [auxSentinel])), s₂) ∧
      s₂.bytes = s₁.bytes := by
  have hnonzero : ∀ vector ∈ vectors, vector.type ≠ atNull := by
    intro vector hvector hzero
    apply htypes vector hvector
    rw [hzero]
    exact truncated_zero m
  rw [pushElfAuxVectors_eq vectors hnonzero] at h
  obtain ⟨-, -, hheld⟩ := pokeWords_ok hk (by simp) h
  have hlast : (auxWords vectors ++ [atNull, 0]).dropLast = auxWords vectors ++ [atNull] := by
    rw [List.dropLast_append_of_ne_nil (by simp)]
    rfl
  have hnull : ([atNull] : List m.cpu.Word).map m.truncated = [atNull] :=
    congrArg (fun word => [word]) (truncated_zero m)
  rw [hlast, List.map_append, map_truncated_auxWords, hnull, ← hs₁] at hheld
  have htypes' : ∀ vector ∈ vectors.map (ElfAuxVector.truncated m), vector.type ≠ atNull := by
    intro vector hvector
    obtain ⟨v, hv, rfl⟩ := List.mem_map.mp hvector
    exact htypes v hv
  unfold fetchElfAuxVectors
  rw [if_neg (by simp [halloc 1 (by omega)])]
  have hlength : (vectors.map (ElfAuxVector.truncated m)).length = vectors.length := by simp
  exact fetchElfAuxVectorsFrom_apply hk htypes' (hlength ▸ hfuel) []
    (by simpa using halloc) hheld

end RoundTrip

/-! ## Where the vectors are -/

section Address

variable {k : Kernel} {m : Mode}

/-- The environment is skipped with its terminator. -/
theorem skipEnvp_apply (hk : k.Regular m.cpu) {envp : List m.cpu.Word}
    (henvp : ∀ word ∈ envp, word ≠ 0) {fuel : ℕ} (hfuel : envp.length < fuel)
    {address : m.cpu.Word} {s : Memory}
    (h : HoldsWords k m s.bytes address.toNat (envp ++ [0])) :
    ∃ result s', skipEnvp k m fuel address s = (.ok result, s') ∧ s'.bytes = s.bytes ∧
      result.toNat = address.toNat + m.sizeofWord * (envp.length + 1) := by
  induction envp generalizing fuel address s with
  | nil =>
    obtain ⟨fuel, rfl⟩ : ∃ n, fuel = n + 1 := ⟨fuel - 1, by omega⟩
    obtain ⟨s', hpeek, hbytes, -⟩ := peekThen_apply hk (0 : m.cpu.Word) _ h
    refine ⟨m.next address, s', ?_, hbytes, ?_⟩
    · rw [skipEnvp, hpeek, if_neg (not_not.mpr rfl)]
      rfl
    · rw [hk.next_toNat h.1.accessible, List.length_nil, Nat.mul_one]
  | cons word envp ih =>
    rw [List.forall_mem_cons] at henvp
    obtain ⟨fuel, rfl⟩ : ∃ n, fuel = n + 1 := ⟨fuel - 1, by omega⟩
    obtain ⟨s₁, hpeek, hbytes₁, h₁⟩ := peekThen_apply hk (0 : m.cpu.Word) _ h
    obtain ⟨result, s', hrun, hbytes, hresult⟩ := ih henvp.2 (Nat.lt_of_succ_lt_succ hfuel) h₁
    refine ⟨result, s', ?_, hbytes.trans hbytes₁, ?_⟩
    · rw [skipEnvp, hpeek, if_pos henvp.1, hrun]
    · rw [hresult, hk.next_toNat h.1.accessible, List.length_cons]
      simp only [Nat.mul_add, Nat.mul_one]
      omega

/-- What is on the stack of a new process: the number of arguments, the arguments, a zero, the
environment, a zero, and the vectors. -/
structure StackLayout (m : Mode) where
  argv : List m.cpu.Word
  envp : List m.cpu.Word
  auxv : List m.cpu.Word
  envp_ne : ∀ word ∈ envp, word ≠ 0
  auxv_ne : auxv ≠ []

/-- The words on the stack. -/
def StackLayout.words (layout : StackLayout m) : List m.cpu.Word :=
  (BitVec.ofNat m.cpu.wordBits layout.argv.length :: layout.argv ++ [0]) ++
    (layout.envp ++ [0]) ++ layout.auxv

/-- The words are in memory, all of which is accessible. -/
structure StackLayout.LiesAt (layout : StackLayout m) (k : Kernel) (s : Memory) (a : ℕ) : Prop where
  grants : k.Grants a (m.sizeofWord * layout.words.length)
  words : ∀ i (hi : i < layout.words.length), s.wordAt m (a + m.sizeofWord * i) = layout.words[i]

/-- The words before the vectors can be read. -/
theorem StackLayout.LiesAt.holds {layout : StackLayout m} {s : Memory} {a : ℕ}
    (h : layout.LiesAt k s a) :
    HoldsWords k m s.bytes a ((BitVec.ofNat m.cpu.wordBits layout.argv.length ::
      layout.argv ++ [0]) ++ (layout.envp ++ [0])) := by
  have hpos : 0 < layout.auxv.length := List.length_pos_iff.mpr layout.auxv_ne
  have hlength : layout.words.length = ((BitVec.ofNat m.cpu.wordBits layout.argv.length ::
      layout.argv ++ [0]) ++ (layout.envp ++ [0])).length + layout.auxv.length :=
    List.length_append
  refine holdsWords_of_grants (h.grants.mono (Nat.mul_le_mul_left _ ?_)) fun i hi => ?_
  · omega
  · have hlt : i < layout.words.length := by omega
    rw [h.words i hlt]
    exact List.getElem_append_left hi

/-- The address of the environment. -/
theorem envp_toNat (hk : k.Regular m.cpu) {address : m.cpu.Word} {n : ℕ}
    (h : k.accessible (address.toNat + m.sizeofWord * (n + 2)) = true) :
    (address + (1 + BitVec.ofNat m.cpu.wordBits n + 1) *
      BitVec.ofNat m.cpu.wordBits m.sizeofWord).toNat =
        address.toNat + m.sizeofWord * (n + 2) := by
  have hbelow := hk.below h
  have hsum : address + (1 + BitVec.ofNat m.cpu.wordBits n + 1) *
      BitVec.ofNat m.cpu.wordBits m.sizeofWord =
        BitVec.ofNat m.cpu.wordBits (address.toNat + m.sizeofWord * (n + 2)) := by
    rw [BitVec.ofNat_add, BitVec.ofNat_mul, BitVec.ofNat_toNat, BitVec.setWidth_eq,
      BitVec.mul_comm, Nat.add_comm n 2]
    congr 2
    rw [BitVec.ofNat_add, BitVec.add_comm 1, BitVec.add_assoc, BitVec.add_comm]
    exact congrArg (· + _) (BitVec.ofNat_add 1 1).symm
  rw [hsum, BitVec.toNat_ofNat, Nat.mod_eq_of_lt (by omega)]

/-- The vectors are behind the terminator of the environment. -/
theorem getElfAuxVectorsAddress_apply (hk : k.Regular m.cpu) {regs : Regs} {s : Memory}
    {layout : StackLayout m}
    (h : layout.LiesAt k s
      (BitVec.ofNat m.cpu.wordBits (peekReg m regs .current .stackPointer)).toNat)
    {fuel : ℕ} (hfuel : layout.envp.length < fuel) :
    ∃ result s', getElfAuxVectorsAddress k m true regs fuel s = (.ok result, s') ∧
      s'.bytes = s.bytes ∧
      result.toNat = (BitVec.ofNat m.cpu.wordBits (peekReg m regs .current .stackPointer)).toNat +
        m.sizeofWord * (layout.argv.length + layout.envp.length + 3) := by
  unfold getElfAuxVectorsAddress
  rw [if_neg (by decide)]
  generalize BitVec.ofNat m.cpu.wordBits (peekReg m regs .current .stackPointer) = address at h ⊢
  have hheld := h.holds
  have henvp := HoldsWords.of_append hheld
  obtain ⟨s₁, hpeek, hbytes₁, -⟩ := peekThen_apply hk (0 : m.cpu.Word) (fun data =>
    skipEnvp k m fuel (address + (1 + data + 1) * BitVec.ofNat m.cpu.wordBits m.sizeofWord)) hheld
  have hskipped : (BitVec.ofNat m.cpu.wordBits layout.argv.length ::
      layout.argv ++ [0]).length = layout.argv.length + 2 := by simp
  rw [hskipped] at henvp
  have htoNat : (address + (1 + BitVec.ofNat m.cpu.wordBits layout.argv.length + 1) *
      BitVec.ofNat m.cpu.wordBits m.sizeofWord).toNat =
        address.toNat + m.sizeofWord * (layout.argv.length + 2) := by
    refine envp_toNat hk (h.grants _ ?_)
    have hlt : layout.argv.length + 2 < layout.words.length := by
      simp only [StackLayout.words, List.length_append, hskipped, List.length_singleton]
      omega
    exact Nat.mul_lt_mul_of_pos_left hlt (sizeofWord_pos m)
  rw [← hbytes₁, ← htoNat] at henvp
  obtain ⟨result, s', hrun, hbytes, hresult⟩ := skipEnvp_apply hk layout.envp_ne hfuel henvp
  refine ⟨result, s', hpeek.trans hrun, hbytes.trans hbytes₁, ?_⟩
  rw [hresult, htoNat]
  simp only [Nat.mul_add]
  omega

end Address

/-! ## Both directions -/

/-- Under a regular kernel, and with memory for the array, vectors that were pushed are fetched as
the process keeps them, followed by one sentinel, unless the type of one of them is zero as a word
of the process. Their address on the stack of a new process is that behind the terminator of the
environment. -/
theorem auxVectors_roundTrip {k : Kernel} {m : Mode} (hk : k.Regular m.cpu) :
    (∀ (vectors : List (ElfAuxVector m.cpu)) (address : m.cpu.Word) (s s' s₁ : Memory)
      (alloc : ℕ → Bool) (garbage : ElfAuxVector m.cpu) (fuel : ℕ),
      (∀ vector ∈ vectors, m.truncated vector.type ≠ atNull) →
      (∀ n ≤ vectors.length + 1, alloc n = true) →
      pushElfAuxVectors k m (vectors ++ [auxSentinel]) address s = (.ok 0, s') →
      s₁.bytes = s'.bytes → vectors.length < fuel →
      ∃ s₂, fetchElfAuxVectors k m alloc garbage fuel address s₁ =
          (.ok (some (vectors.map (ElfAuxVector.truncated m) ++ [auxSentinel])), s₂) ∧
        s₂.bytes = s₁.bytes) ∧
    ∀ (layout : StackLayout m) (regs : Regs) (s : Memory) (fuel : ℕ),
      layout.LiesAt k s
        (BitVec.ofNat m.cpu.wordBits (peekReg m regs .current .stackPointer)).toNat →
      layout.envp.length < fuel →
      ∃ result s', getElfAuxVectorsAddress k m true regs fuel s = (.ok result, s') ∧
        s'.bytes = s.bytes ∧
        result.toNat = (BitVec.ofNat m.cpu.wordBits (peekReg m regs .current .stackPointer)).toNat +
          m.sizeofWord * (layout.argv.length + layout.envp.length + 3) :=
  ⟨fun _ _ _ _ _ _ _ _ htypes halloc h hs₁ hfuel => fetch_push hk htypes halloc h hfuel hs₁,
    fun _ _ _ _ h hfuel => getElfAuxVectorsAddress_apply hk h hfuel⟩

/-- A kernel with one page transfers all that is accessible. -/
theorem onePage_regular : onePage.Regular .arm64 where
  below h := by
    have hlt := of_decide_eq_true h
    have hbits : 4104 < 2 ^ Cpu.arm64.wordBits := by decide
    have hbytes : Cpu.arm64.wordBytes = 8 := rfl
    omega
  paged {a b} h := by
    have hpage : a / 4096 = b / 4096 := h
    have hiff : a < 4096 ↔ b < 4096 := by omega
    exact decide_eq_decide.mpr hiff
  word_le_page := Nat.le_of_ble_eq_true rfl
  transfers := by
    refine .inl fun call a n hn hgrants => ?_
    have hlast : a + (n - 1) < 4096 := of_decide_eq_true (hgrants (n - 1) (by omega))
    exact congrArg Transfer.moved (Nat.min_eq_left (by omega))

/-- The empty memory. -/
def emptyMemory : Memory := ⟨fun _ => 0, [], 0, 0⟩

/-- The memory of a process with one argument and one variable. -/
def newProcess : Memory where
  bytes a := if a = 0 then 1 else if a = 4 then 100 else if a = 12 then 200 else 0
  buffer := []
  errno := 0
  calls := 0

/-- The registers of a process whose stack starts at zero. -/
def newProcessRegs : Regs where
  current _ := 0
  original _ := 0
  modified _ := 0
  wereChanged := false
  restoreOriginal := false

/-- The stack of the process. -/
def newProcessLayout : StackLayout ⟨.arm64, true⟩ where
  argv := [100#64]
  envp := [200#64]
  auxv := [0#64, 0#64]
  envp_ne word hword := by
    have hne : 200#64 ≠ 0#64 := by decide
    exact List.mem_singleton.mp hword ▸ hne
  auxv_ne := List.cons_ne_nil _ _

/-- A vector of a 32-bit process, and the address of the vectors of another one. -/
theorem auxVectors_roundTrip_aarch32 :
    (∃ s₂, fetchElfAuxVectors onePage ⟨.arm64, true⟩ (fun _ => true) auxSentinel 2 64#64
        (pushElfAuxVectors onePage ⟨.arm64, true⟩ [⟨3#64, 7#64⟩, auxSentinel] 64#64 emptyMemory).2 =
      (.ok (some [⟨3#64, 7#64⟩, auxSentinel]), s₂)) ∧
    ∃ result s', getElfAuxVectorsAddress onePage ⟨.arm64, true⟩ true newProcessRegs 2 newProcess =
      (.ok result, s') ∧ result.toNat = 20 := by
  have hboth := auxVectors_roundTrip (m := ⟨.arm64, true⟩) onePage_regular
  constructor
  · have hpush : pushElfAuxVectors onePage ⟨.arm64, true⟩
        ([⟨3#64, 7#64⟩] ++ [auxSentinel]) 64#64 emptyMemory = (.ok 0, _) := Prod.ext rfl rfl
    obtain ⟨s₂, hfetch, -⟩ := hboth.1 [⟨3#64, 7#64⟩] 64#64 emptyMemory _ _ (fun _ => true)
      auxSentinel 2 (by decide) (fun _ _ => rfl) hpush rfl (by decide)
    exact ⟨s₂, hfetch⟩
  · have hlies : newProcessLayout.LiesAt onePage newProcess
        (BitVec.ofNat 64 (peekReg ⟨.arm64, true⟩ newProcessRegs .current .stackPointer)).toNat :=
      ⟨by decide, by decide⟩
    obtain ⟨result, s', hrun, -, hresult⟩ :=
      hboth.2 newProcessLayout newProcessRegs newProcess 2 hlies (by decide)
    exact ⟨result, s', hrun, hresult⟩

/-- The type of a vector is not zero, but its lower half, which a 32-bit process keeps, is: the
vector ends the others. -/
theorem halfZeroType_ends :
    ¬∀ (k : Kernel) (m : Mode), k.Regular m.cpu →
      ∀ (vectors : List (ElfAuxVector m.cpu)) (address : m.cpu.Word) (s s' : Memory),
        (∀ vector ∈ vectors, vector.type ≠ atNull) →
        pushElfAuxVectors k m (vectors ++ [auxSentinel]) address s = (.ok 0, s') →
        ∃ s₂, fetchElfAuxVectors k m (fun _ => true) auxSentinel (vectors.length + 1) address s' =
          (.ok (some (vectors.map (ElfAuxVector.truncated m) ++ [auxSentinel])), s₂) := by
  intro h
  have hpush : pushElfAuxVectors onePage ⟨.arm64, true⟩
      ([⟨0x100000000#64, 7#64⟩] ++ [auxSentinel]) 64#64 emptyMemory = (.ok 0, _) := Prod.ext rfl rfl
  obtain ⟨s₂, hfetch⟩ := h onePage ⟨.arm64, true⟩ onePage_regular [⟨0x100000000#64, 7#64⟩] 64#64
    emptyMemory _ (by decide) hpush
  have hended : (fetchElfAuxVectors onePage ⟨.arm64, true⟩ (fun _ => true) auxSentinel 2 64#64
      (pushElfAuxVectors onePage ⟨.arm64, true⟩
        ([⟨0x100000000#64, 7#64⟩] ++ [auxSentinel]) 64#64 emptyMemory).2).1 =
      .ok (some [auxSentinel]) := rfl
  have hsame := Option.some.inj (Except.ok.inj (hended.symm.trans (congrArg Prod.fst hfetch)))
  exact absurd (congrArg List.length hsame) (by decide)

end Abyss.Execve
