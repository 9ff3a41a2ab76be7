import Abyss.Loader.Script

/-!
# From the load information to the start of the program

The loader does what the load information says: it opens the program and maps it, closes it and does
the same for the interpreter, makes the stack executable if that is needed, and starts the program
with the fields of its header and the base address in the auxiliary vectors. The name of the
executable among the vectors is not the recorded one, which will be overwritten, but the first
argument.
-/

namespace Abyss.Loader

open Machine Bytes

/-! ## What is to be done -/

section Perform

variable {m : Mode} (sys : System m.program)

/-- Map a mapping of the file that is open, or an anonymous one. -/
def performMapping (l : Locals m.program) (mapping : Execve.Mapping m.cpu) :
    LoaderProg m.program (Locals m.program) :=
  if isAnonymous mapping then do
    mmapAnon sys (narrow m mapping.addr) (narrow m mapping.length) (narrow m mapping.prot)
    pure l
  else
    mmapFile sys l (narrow m mapping.addr) (narrow m mapping.length) (narrow m mapping.prot)
      (narrow m mapping.offset) (narrow m mapping.clearLength)

/-- Map mappings in order. -/
def performMappings : List (Execve.Mapping m.cpu) → Locals m.program →
    LoaderProg m.program (Locals m.program)
  | [], l => pure l
  | mapping :: mappings, l => do
    let l ← performMapping sys l mapping
    performMappings mappings l

/-- Close the program, and open and map the interpreter. -/
def performInterp (string2 : m.cpu.Word) (interp : Option (List (Execve.Mapping m.cpu)))
    (l : Locals m.program) : LoaderProg m.program (Locals m.program) :=
  match interp with
  | none => pure l
  | some mappings => do
    closeFile sys l
    let l ← openFile sys l (narrow m string2)
    performMappings sys mappings l

end Perform

/-- What is on the stack of a new program: the arguments, the environment, and the vectors, the last
of which has type `AT_NULL`. -/
structure ProgramStack (cpu : Cpu) where
  argv : List cpu.Word
  envp : List cpu.Word
  auxv : List (cpu.Word × cpu.Word)
  envp_ne : ∀ word ∈ envp, word ≠ 0
  auxv_types : ∀ vector ∈ auxv, vector.1 ≠ 0
  auxv_ne : auxv ≠ []

section Begin

variable {cpu : Cpu}

/-- The words of vectors. -/
def vectorWords (auxv : List (cpu.Word × cpu.Word)) : List cpu.Word :=
  auxv.flatMap fun vector => [vector.1, vector.2]

/-- The words on the stack. -/
def ProgramStack.words (stack : ProgramStack cpu) : List cpu.Word :=
  BitVec.ofNat cpu.wordBits stack.argv.length :: stack.argv ++ [0] ++ (stack.envp ++ [0]) ++
    (vectorWords stack.auxv ++ [0])

/-- The first argument. -/
def ProgramStack.arg0 (stack : ProgramStack cpu) : cpu.Word := stack.argv.head?.getD 0

/-- Where the vectors are. -/
def ProgramStack.auxvAddress (stack : ProgramStack cpu) (a : ℕ) : ℕ :=
  a + cpu.wordBytes * (stack.argv.length + stack.envp.length + 3)

/-- The vectors as the program finds them. -/
def ProgramStack.adjusted (stack : ProgramStack cpu) (stmt : StartStatement cpu)
    (atBase : cpu.Word) : List (cpu.Word × cpu.Word) :=
  stack.auxv.map fun vector =>
    (vector.1, (auxValue stmt atBase stack.arg0 vector.1).getD vector.2)

/-- The stack is in memory. -/
structure ProgramStack.LiesAt (stack : ProgramStack cpu) (mem : ℕ → Byte) (a : ℕ) : Prop where
  words : WordsAt cpu mem a stack.words
  fits : a + cpu.wordBytes * stack.words.length ≤ 2 ^ cpu.wordBits

variable (sys : System cpu)

/-- Start the program: close the file, adjust the vectors, set the name, and go to the entry point.
A program that is traced is started by a special `execve`. -/
def begin (stack : ProgramStack cpu) (l : Locals cpu) (traced : Bool) (stmt : StartStatement cpu)
    (name : Text) : LoaderProg cpu Unit := do
  closeFile sys l
  modify fun s =>
    { s with
      mem := splice s.mem (stack.auxvAddress stmt.stackPointer.toNat)
        ((vectorWords (stack.adjusted stmt l.atBase)).flatMap fun word =>
          bytesOf word cpu.wordBytes) }
  let s ← read
  let cursor := lastSlash s.mem stmt.atExecfn.toNat name.val.length
  let base := if cursor ≠ stmt.atExecfn.toNat then cursor + 1 else cursor
  let _ ← syscall sys (syscallNumbers cpu).prctl [BitVec.ofNat _ prSetName, BitVec.ofNat _ base, 0]
  if traced then do
    let _ ← syscall sys (syscallNumbers cpu).execve
      [1, stmt.stackPointer, stmt.entryPoint, 2, 3, 4]
    fatal sys
  else fault (.branch stmt.stackPointer stmt.entryPoint)

end Begin

/-- The fields of the start statement, in the words of the process. -/
def StartStatement.narrow (m : Mode) (stmt : StartStatement m.cpu) :
    StartStatement m.program where
  stackPointer := Loader.narrow m stmt.stackPointer
  entryPoint := Loader.narrow m stmt.entryPoint
  atPhdr := Loader.narrow m stmt.atPhdr
  atPhent := Loader.narrow m stmt.atPhent
  atPhnum := Loader.narrow m stmt.atPhnum
  atEntry := Loader.narrow m stmt.atEntry
  atExecfn := Loader.narrow m stmt.atExecfn

/-- The name that the process is given. -/
def LoadInfo.name {cpu : Cpu} (info : LoadInfo cpu) : Text :=
  info.rawPath.getD info.program.userPath

/-- Load and start a program: open it and map it, close it and do the same for the interpreter, make
the stack executable if that is needed, and start the program. -/
def perform {m : Mode} (sys : System m.program) (info : LoadInfo m.cpu) (pageMask : m.cpu.Word)
    (traced : Bool) (stackPointer : m.cpu.Word) (mappings : List (Execve.Mapping m.cpu))
    (interp : Option (List (Execve.Mapping m.cpu))) (first : Execve.Mapping m.cpu)
    (stack : ProgramStack m.program) : LoaderProg m.program Unit := do
  let strings := info.strings stackPointer
  let l ← openFile sys .initial (narrow m strings.string1)
  let l ← performMappings sys mappings l
  let l ← performInterp sys strings.string2 interp l
  when (info.needsStack = true) (makeStackExec sys (narrow m (stackPointer &&& pageMask)))
  begin sys stack l traced ((info.startFields stackPointer first).narrow m) info.name

/-! ## Words in memory -/

section Words

variable {cpu : Cpu} {mem mem' : ℕ → Byte} {a : ℕ} {words rest : List cpu.Word}

/-- Words further on are read from further on. -/
theorem wordAt_add (mem : ℕ → Byte) (a i j : ℕ) :
    wordAt cpu mem a (i + j) = wordAt cpu mem (a + cpu.wordBytes * i) j := by
  simp only [wordAt, Nat.mul_add, Nat.add_assoc]

/-- The second word is the first one from the next address on. -/
theorem wordAt_next (mem : ℕ → Byte) (a : ℕ) :
    wordAt cpu mem (a + cpu.wordBytes) 0 = wordAt cpu mem a 1 := by
  rw [← Nat.mul_one cpu.wordBytes, ← wordAt_add]

/-- Two lists of words are in memory one after the other. -/
theorem wordsAt_append :
    WordsAt cpu mem a (words ++ rest) ↔
      WordsAt cpu mem a words ∧ WordsAt cpu mem (a + cpu.wordBytes * words.length) rest := by
  constructor
  · intro h
    refine ⟨fun i hi => ?_, fun i hi => ?_⟩
    · rw [h i (by rw [List.length_append]; omega), List.getElem_append_left hi]
    · rw [← wordAt_add, h _ (by rw [List.length_append]; omega),
        List.getElem_append_right (Nat.le_add_right ..)]
      simp
  · rintro ⟨h, h'⟩ i hi
    by_cases hlt : i < words.length
    · rw [h i hlt, List.getElem_append_left hlt]
    · obtain ⟨j, rfl⟩ := Nat.exists_eq_add_of_le (Nat.le_of_not_lt hlt)
      rw [List.length_append] at hi
      rw [wordAt_add, h' j (by omega), List.getElem_append_right (Nat.le_add_right ..)]
      simp

/-- The first word and the others. -/
theorem wordsAt_cons {word : cpu.Word} :
    WordsAt cpu mem a (word :: rest) ↔
      wordAt cpu mem a 0 = word ∧ WordsAt cpu mem (a + cpu.wordBytes) rest := by
  rw [← List.singleton_append, wordsAt_append, List.length_singleton, Nat.mul_one]
  refine and_congr_left fun _ => ⟨fun h => h 0 (by simp), fun h i hi => ?_⟩
  obtain rfl : i = 0 := by simpa using hi
  exact h

/-- Words depend on their bytes only. -/
theorem WordsAt.congr (h : WordsAt cpu mem a words)
    (hmem : ∀ b, a ≤ b → b < a + cpu.wordBytes * words.length → mem' b = mem b) :
    WordsAt cpu mem' a words := by
  intro i hi
  rw [← h i hi]
  refine wordOf_congr fun j hj => hmem _ (by omega) ?_
  have hle : cpu.wordBytes * (i + 1) ≤ cpu.wordBytes * words.length := Nat.mul_le_mul_left _ hi
  rw [Nat.mul_succ] at hle
  omega

end Words

/-! ## Statements -/

section Statements

variable {cpu : Cpu} {sys : System cpu} {mem : ℕ → Byte}

/-- A part of the loader that leaves the memory alone. -/
def KeepsMem (mem : ℕ → Byte) {α : Type} (x : LoaderProg cpu α) : Prop :=
  Keeps (fun s => s.mem = mem) (fun _ _ => True) x

/-- The syscalls of the loader do not write to its memory. -/
theorem syscall_keepsMem (number : ℕ) (args : List cpu.Word) :
    KeepsMem mem (syscall sys number args) :=
  Keeps.bind (Keeps.modify fun _ h => h) fun _ => Keeps.bind Keeps.read fun _ => Keeps.pure _

/-- Nor does its end. -/
theorem fatal_keepsMem {α : Type} : KeepsMem mem (fatal sys : LoaderProg cpu α) :=
  Keeps.bind (syscall_keepsMem _ _) fun _ => Keeps.fault fun _ _ => trivial

/-- To close a file does not write to the memory. -/
theorem closeFile_keepsMem (l : Locals cpu) : KeepsMem mem (closeFile sys l) :=
  Keeps.bind (syscall_keepsMem _ _) fun _ =>
    Keeps.ite (fun _ => fatal_keepsMem) fun _ => Keeps.pure _

/-- Nor does it to open one. -/
theorem openFile_keepsMem (l : Locals cpu) (path : cpu.Word) :
    KeepsMem mem (openFile sys l path) := by
  cases cpu with
  | armEabi =>
    exact Keeps.bind (syscall_keepsMem _ _) fun _ =>
      Keeps.ite (fun _ => fatal_keepsMem) fun _ => Keeps.pure _
  | arm64 =>
    exact Keeps.bind (syscall_keepsMem _ _) fun _ =>
      Keeps.ite (fun _ => fatal_keepsMem) fun _ => Keeps.pure _

/-- A file mapping that has nothing to clear does not write to the memory. -/
theorem mmapFile_keepsMem (l : Locals cpu) (addr length prot offset clearLength : cpu.Word) :
    KeepsMem mem (mmapFile sys l addr length prot offset clearLength) :=
  Keeps.bind (syscall_keepsMem _ _) fun _ =>
    Keeps.ite (fun _ => fatal_keepsMem) fun _ =>
      Keeps.bind (Keeps.when fun _ => Keeps.modify fun _ h => h) fun _ => Keeps.pure _

/-- Nor does an anonymous mapping. -/
theorem mmapAnon_keepsMem (addr length prot : cpu.Word) :
    KeepsMem mem (mmapAnon sys addr length prot) :=
  Keeps.bind (syscall_keepsMem _ _) fun _ =>
    Keeps.ite (fun _ => fatal_keepsMem) fun _ => Keeps.pure _

/-- Nor does the protection of the stack. -/
theorem makeStackExec_keepsMem (start : cpu.Word) : KeepsMem mem (makeStackExec sys start) :=
  Keeps.bind (syscall_keepsMem _ _) fun _ => Keeps.pure _

variable {fuel cursor : ℕ} {l : Locals cpu} {s : LoaderState cpu} {action : cpu.Word}
  {w₁ w₂ w₃ w₄ w₅ w₆ w₇ : cpu.Word} {rest : List cpu.Word}

/-- The statement that opens the next file. -/
theorem startFrom_openNext (h : WordsAt cpu s.mem cursor (action :: w₁ :: rest))
    (haction : action.toNat = 0) :
    startFrom sys (fuel + 1) cursor l s = (do
      closeFile sys l
      let l ← openFile sys l w₁
      startFrom sys fuel (cursor + 2 * cpu.wordBytes) l) s := by
  have h0 := h 0 (by simp)
  have h1 := h 1 (by simp)
  rw [startFrom, bind_apply_ok (read_apply s), h0]
  dsimp only [List.getElem_cons_zero]
  rw [haction, h1]
  rfl

/-- The statement that opens the first file. -/
theorem startFrom_open (h : WordsAt cpu s.mem cursor (action :: w₁ :: rest))
    (haction : action.toNat = 1) :
    startFrom sys (fuel + 1) cursor l s = (do
      let l ← openFile sys l w₁
      startFrom sys fuel (cursor + 2 * cpu.wordBytes) l) s := by
  have h0 := h 0 (by simp)
  have h1 := h 1 (by simp)
  rw [startFrom, bind_apply_ok (read_apply s), h0]
  dsimp only [List.getElem_cons_zero]
  rw [haction, h1]
  rfl

/-- The statement of a file mapping. -/
theorem startFrom_mmapFile
    (h : WordsAt cpu s.mem cursor (action :: w₁ :: w₂ :: w₃ :: w₄ :: w₅ :: rest))
    (haction : action.toNat = 2) :
    startFrom sys (fuel + 1) cursor l s = (do
      let l ← mmapFile sys l w₁ w₂ w₃ w₄ w₅
      startFrom sys fuel (cursor + 6 * cpu.wordBytes) l) s := by
  have h0 := h 0 (by simp)
  have h1 := h 1 (by simp)
  have h2 := h 2 (by simp)
  have h3 := h 3 (by simp)
  have h4 := h 4 (by simp)
  have h5 := h 5 (by simp)
  rw [startFrom, bind_apply_ok (read_apply s), h0]
  dsimp only [List.getElem_cons_zero]
  rw [haction, h1, h2, h3, h4, h5]
  rfl

/-- The statement of an anonymous mapping, which has more fields than are looked at. -/
theorem startFrom_mmapAnon (h : WordsAt cpu s.mem cursor (action :: w₁ :: w₂ :: w₃ :: rest))
    (haction : action.toNat = 3) :
    startFrom sys (fuel + 1) cursor l s = (do
      mmapAnon sys w₁ w₂ w₃
      startFrom sys fuel (cursor + 6 * cpu.wordBytes) l) s := by
  have h0 := h 0 (by simp)
  have h1 := h 1 (by simp)
  have h2 := h 2 (by simp)
  have h3 := h 3 (by simp)
  rw [startFrom, bind_apply_ok (read_apply s), h0]
  dsimp only [List.getElem_cons_zero]
  rw [haction, h1, h2, h3]
  rfl

/-- The statement of the executable stack. -/
theorem startFrom_makeStackExec (h : WordsAt cpu s.mem cursor (action :: w₁ :: rest))
    (haction : action.toNat = 4) :
    startFrom sys (fuel + 1) cursor l s = (do
      makeStackExec sys w₁
      startFrom sys fuel (cursor + 2 * cpu.wordBytes) l) s := by
  have h0 := h 0 (by simp)
  have h1 := h 1 (by simp)
  rw [startFrom, bind_apply_ok (read_apply s), h0]
  dsimp only [List.getElem_cons_zero]
  rw [haction, h1]
  rfl

/-- The statement that starts the program. -/
theorem startFrom_start {stmt : StartStatement cpu} {traced : Bool}
    (h : WordsAt cpu s.mem cursor (action :: (startStatement traced stmt).tail))
    (haction : action.toNat = if traced then 5 else 6) :
    startFrom sys (fuel + 1) cursor l s = start sys fuel l traced stmt s := by
  have h0 := h 0 (by simp)
  have h1 := h 1 (by simp [startStatement])
  have h2 := h 2 (by simp [startStatement])
  have h3 := h 3 (by simp [startStatement])
  have h4 := h 4 (by simp [startStatement])
  have h5 := h 5 (by simp [startStatement])
  have h6 := h 6 (by simp [startStatement])
  have h7 := h 7 (by simp [startStatement])
  rw [startFrom, bind_apply_ok (read_apply s), h0]
  dsimp only [List.getElem_cons_zero]
  rw [haction, h1, h2, h3, h4, h5, h6, h7]
  cases traced <;> rfl

end Statements

/-! ## Mappings -/

section Mappings

variable {m : Mode} {sys : System m.program} {mem : ℕ → Byte}

/-- A mapping of the script keeps the memory. -/
theorem performMapping_keepsMem (l : Locals m.program) (mapping : Execve.Mapping m.cpu) :
    KeepsMem mem (performMapping sys l mapping) :=
  Keeps.ite (fun _ => Keeps.bind (mmapAnon_keepsMem _ _ _) fun _ => Keeps.pure _)
    fun _ => mmapFile_keepsMem _ _ _ _ _ _

/-- So do all mappings of a file. -/
theorem performMappings_keepsMem (mappings : List (Execve.Mapping m.cpu)) (l : Locals m.program) :
    KeepsMem mem (performMappings sys mappings l) := by
  induction mappings generalizing l with
  | nil => exact Keeps.pure l
  | cons mapping rest ih => exact Keeps.bind (performMapping_keepsMem l mapping) ih

/-- A small number is one for both processors. -/
theorem narrow_ofNat_toNat (m : Mode) {n : ℕ} (hn : n < 2 ^ 32) :
    (narrow m (BitVec.ofNat m.cpu.wordBits n)).toNat = n := by
  have hbits : ∀ cpu : Cpu, n < 2 ^ cpu.wordBits := by
    intro cpu
    refine Nat.lt_of_lt_of_le hn (Nat.pow_le_pow_right (by decide) ?_)
    cases cpu <;> decide
  rw [narrow, BitVec.toNat_setWidth, BitVec.toNat_ofNat, Nat.mod_eq_of_lt (hbits _),
    Nat.mod_eq_of_lt (hbits _)]

/-- A mapping is mapped as it should be. -/
theorem startFrom_mapping {s : LoaderState m.program} {fuel cursor : ℕ} {l : Locals m.program}
    {mapping : Execve.Mapping m.cpu} {rest : List m.program.Word}
    (h : WordsAt m.program s.mem cursor ((mmapStatement mapping).map (narrow m) ++ rest)) :
    startFrom sys (fuel + 1) cursor l s = (do
      let l ← performMapping sys l mapping
      startFrom sys fuel (cursor + 6 * m.program.wordBytes) l) s := by
  unfold mmapStatement at h
  unfold performMapping
  by_cases hanon : isAnonymous mapping = true
  · rw [if_pos hanon] at h ⊢
    rw [startFrom_mmapAnon h (narrow_ofNat_toNat m (by decide)), bind_assoc]
    rfl
  · rw [if_neg hanon] at h ⊢
    exact startFrom_mmapFile h (narrow_ofNat_toNat m (by decide))

/-- All mappings of a script are mapped in order, and the loader goes on behind them. -/
theorem startFrom_mappings {s : LoaderState m.program} {fuel cursor : ℕ} {l : Locals m.program}
    {mappings : List (Execve.Mapping m.cpu)} {rest : List m.program.Word} (hs : s.mem = mem)
    (h : WordsAt m.program mem cursor ((transcriptMappings mappings).map (narrow m) ++ rest)) :
    startFrom sys (fuel + mappings.length) cursor l s = (do
      let l ← performMappings sys mappings l
      startFrom sys fuel (cursor + 6 * mappings.length * m.program.wordBytes) l) s := by
  induction mappings generalizing s cursor l with
  | nil =>
    rw [List.length_nil, Nat.mul_zero, Nat.zero_mul]
    rfl
  | cons mapping mappings ih =>
    rw [transcriptMappings, List.flatMap_cons, List.map_append, List.append_assoc] at h
    have hrest := (wordsAt_append.mp h).2
    rw [← hs] at h
    rw [List.length_cons, ← Nat.add_assoc, startFrom_mapping h, performMappings, bind_assoc]
    refine Keeps.bind_congr (performMapping_keepsMem l mapping) hs fun l' s' hs' => ?_
    have hlength : ((mmapStatement mapping).map (narrow m)).length = 6 := rfl
    rw [hlength, Nat.mul_comm] at hrest
    rw [ih hs' hrest]
    have hcursor : cursor + 6 * m.program.wordBytes + 6 * mappings.length * m.program.wordBytes =
        cursor + 6 * (mappings.length + 1) * m.program.wordBytes := by
      rw [Nat.mul_succ, Nat.add_mul]
      omega
    rw [hcursor]

end Mappings

/-! ## The start of the program -/

section Start

variable {cpu : Cpu} {sys : System cpu} {mem : ℕ → Byte}

/-- A string is in memory. -/
def TextAt (mem : ℕ → Byte) (a : ℕ) (s : Text) : Prop := BytesAt mem a s.terminated

/-- A string has its terminator behind its characters. -/
theorem Text.terminated_length (s : Text) : s.terminated.length = s.val.length + 1 := by
  rw [Text.terminated, List.length_append, List.length_singleton]

/-- The environment is skipped with its terminator. -/
theorem skipEnvp_apply {envp : List cpu.Word} (henvp : ∀ word ∈ envp, word ≠ 0) {fuel cursor : ℕ}
    (hfuel : envp.length < fuel) (h : WordsAt cpu mem (cursor + cpu.wordBytes) (envp ++ [0]))
    (s : LoaderState cpu) :
    skipEnvp mem fuel cursor s = (.ok (cursor + cpu.wordBytes * (envp.length + 2)), s) := by
  induction envp generalizing fuel cursor with
  | nil =>
    obtain ⟨fuel, rfl⟩ : ∃ n, fuel = n + 1 := ⟨fuel - 1, by omega⟩
    have hzero := (wordsAt_cons.mp h).1
    rw [wordAt_next] at hzero
    rw [skipEnvp, if_neg (not_not.mpr hzero), Nat.mul_comm 2]
    rfl
  | cons word envp ih =>
    obtain ⟨fuel, rfl⟩ : ∃ n, fuel = n + 1 := ⟨fuel - 1, by omega⟩
    rw [List.forall_mem_cons] at henvp
    obtain ⟨hword, hrest⟩ := wordsAt_cons.mp h
    rw [wordAt_next] at hword
    rw [skipEnvp, hword, if_pos henvp.1, ih henvp.2 (Nat.lt_of_succ_lt_succ hfuel) hrest,
      List.length_cons]
    congr 2
    simp only [Nat.mul_add, Nat.mul_one]
    omega

/-- The end of a string is found. -/
theorem stringEnd_apply {a : ℕ} {name : List Byte} (hname : (0 : Byte) ∉ name)
    (h : BytesAt mem a (name ++ [0])) {fuel : ℕ} (hfuel : name.length < fuel)
    (s : LoaderState cpu) : stringEnd mem fuel a s = (.ok (a + name.length), s) := by
  induction name generalizing a fuel with
  | nil =>
    obtain ⟨fuel, rfl⟩ : ∃ n, fuel = n + 1 := ⟨fuel - 1, by omega⟩
    rw [stringEnd, if_neg (not_not.mpr h.1)]
    rfl
  | cons c name ih =>
    rw [List.mem_cons, not_or] at hname
    obtain ⟨fuel, rfl⟩ : ∃ n, fuel = n + 1 := ⟨fuel - 1, by omega⟩
    rw [stringEnd, h.1, if_pos (Ne.symm hname.1), ih hname.2 h.2 (Nat.lt_of_succ_lt_succ hfuel),
      List.length_cons, Nat.add_right_comm, Nat.add_assoc]

/-- A word that is there may be written again. -/
theorem splice_wordAt {a : ℕ} {word : cpu.Word} (h : wordAt cpu mem a 0 = word) :
    splice mem a (bytesOf word cpu.wordBytes) = mem := by
  refine splice_self fun j hj => ?_
  rw [bytesOf_length] at hj
  rw [bytesOf_getElem, ← h, wordAt, byteOf_wordOf hj (Nat.le_of_eq cpu.wordBits_eq.symm)]
  rfl

/-- The vectors are adjusted up to the last one. -/
theorem adjustAuxv_apply (value : cpu.Word → Option cpu.Word)
    {auxv : List (cpu.Word × cpu.Word)} (hne : auxv ≠ []) (htypes : ∀ vector ∈ auxv, vector.1 ≠ 0)
    {fuel cursor : ℕ} (hfuel : auxv.length ≤ fuel) {s : LoaderState cpu}
    (h : WordsAt cpu s.mem cursor (vectorWords auxv ++ [0])) :
    adjustAuxv value fuel cursor s = (.ok (), { s with
      mem := splice s.mem cursor
        ((vectorWords (auxv.map fun vector =>
          (vector.1, (value vector.1).getD vector.2))).flatMap fun word =>
            bytesOf word cpu.wordBytes) }) := by
  induction auxv generalizing fuel cursor s with
  | nil => exact absurd rfl hne
  | cons vector auxv ih =>
    obtain ⟨type, old⟩ := vector
    rw [List.length_cons] at hfuel
    obtain ⟨fuel, rfl⟩ : ∃ n, fuel = n + 1 := ⟨fuel - 1, by omega⟩
    rw [List.forall_mem_cons] at htypes
    obtain ⟨htype, hvalue⟩ := wordsAt_cons.mp h
    obtain ⟨hold, hrest⟩ := wordsAt_cons.mp hvalue
    generalize hbytes : bytesOf type cpu.wordBytes ++
      bytesOf ((value type).getD old) cpu.wordBytes = bytes
    have hlength : bytes.length = 2 * cpu.wordBytes := by
      rw [← hbytes, List.length_append, bytesOf_length, bytesOf_length]
      omega
    -- The type is written again with the value.
    have hpair : ∀ v : cpu.Word, splice s.mem (cursor + cpu.wordBytes) (bytesOf v cpu.wordBytes) =
        splice s.mem cursor (bytesOf type cpu.wordBytes ++ bytesOf v cpu.wordBytes) := by
      intro v
      rw [← splice_append, splice_wordAt htype, bytesOf_length]
    have hmodify : adjustVector value cursor s = { s with mem := splice s.mem cursor bytes } := by
      rw [adjustVector, htype]
      cases hv : value type with
      | some v =>
        rw [hv] at hbytes
        rw [← hbytes]
        exact congrArg (fun f => { s with mem := f }) (hpair v)
      | none =>
        rw [hv] at hbytes
        rw [← hbytes, ← hpair, Option.getD_none, splice_wordAt hold]
    have hkept : WordsAt cpu (splice s.mem cursor bytes) (cursor + 2 * cpu.wordBytes)
        (vectorWords auxv ++ [0]) := by
      rw [Nat.two_mul, ← Nat.add_assoc]
      exact hrest.congr fun b hb _ => splice_of_le (by omega)
    have hnext : wordAt cpu (splice s.mem cursor bytes) cursor 2 =
        wordAt cpu (splice s.mem cursor bytes) (cursor + 2 * cpu.wordBytes) 0 := by
      rw [Nat.mul_comm, ← wordAt_add]
    have hwords : (vectorWords (((type, old) :: auxv).map fun vector =>
        (vector.1, (value vector.1).getD vector.2))).flatMap (fun word =>
          bytesOf word cpu.wordBytes) = bytes ++ (vectorWords (auxv.map fun vector =>
            (vector.1, (value vector.1).getD vector.2))).flatMap fun word =>
              bytesOf word cpu.wordBytes := by
      rw [← hbytes, List.append_assoc]
      rfl
    rw [adjustAuxv, bind_apply_ok (modify_apply _ s), hmodify, bind_apply_ok (read_apply _),
      hwords]
    dsimp only
    rw [hnext]
    cases auxv with
    | nil =>
      have hzero := (wordsAt_cons.mp hkept).1
      rw [if_neg (not_not.mpr hzero)]
      simp [vectorWords]
    | cons vector auxv =>
      have hmore := (wordsAt_cons.mp hkept).1
      have hne' : vector.1 ≠ 0 := htypes.2 vector List.mem_cons_self
      rw [hmore, if_pos hne', ih (List.cons_ne_nil _ _) htypes.2 (Nat.le_of_succ_le_succ hfuel)
        hkept, ← hlength, splice_append]

/-- The name of the program is the last component of a string, unless this starts with its only
slash. -/
theorem basename_apply {a : ℕ} {name : Text} (h : TextAt mem a name) {fuel : ℕ}
    (hfuel : name.val.length < fuel) (s : LoaderState cpu) :
    basename mem fuel a s =
      (.ok (let cursor := lastSlash mem a name.val.length
        if cursor ≠ a then cursor + 1 else cursor), s) := by
  rw [basename, bind_apply_ok (stringEnd_apply name.property h hfuel s), Nat.add_sub_cancel_left]
  rfl

/-- The number of the arguments and the first one, as the loader reads them. -/
theorem ProgramStack.LiesAt.argc {stack : ProgramStack cpu} {a : ℕ} (h : stack.LiesAt mem a) :
    (wordAt cpu mem a 0).toNat = stack.argv.length ∧ wordAt cpu mem a 1 = stack.arg0 := by
  obtain ⟨hargs, -⟩ := wordsAt_append.mp (wordsAt_append.mp h.words).1
  obtain ⟨hargc, hargv⟩ := wordsAt_cons.mp hargs
  have hlt : stack.argv.length < 2 ^ cpu.wordBits := by
    have hfits := h.fits
    have hpos := cpu.wordBytes_pos
    have hlen : stack.argv.length + 1 ≤ stack.words.length := by
      simp only [ProgramStack.words, List.length_append, List.length_cons]
      omega
    have hle : 1 * (stack.argv.length + 1) ≤ cpu.wordBytes * stack.words.length :=
      Nat.mul_le_mul hpos hlen
    omega
  constructor
  · rw [hargc, BitVec.toNat_ofNat, Nat.mod_eq_of_lt hlt]
  · rw [← wordAt_next]
    unfold ProgramStack.arg0
    cases hcases : stack.argv with
    | nil =>
      rw [hcases] at hargv
      exact (wordsAt_cons.mp hargv).1
    | cons word argv =>
      rw [hcases] at hargv
      exact (wordsAt_cons.mp hargv).1

/-- The loader starts the program as it should. -/
theorem start_apply {stack : ProgramStack cpu} {stmt : StartStatement cpu} {name : Text}
    {s : LoaderState cpu} {fuel : ℕ} (l : Locals cpu) (traced : Bool)
    (hstack : stack.LiesAt s.mem stmt.stackPointer.toNat)
    (hname : TextAt s.mem stmt.atExecfn.toNat name)
    (hbelow : stmt.atExecfn.toNat + name.terminated.length ≤ stmt.stackPointer.toNat)
    (hfuel : stack.envp.length + stack.auxv.length + name.val.length < fuel) :
    start sys fuel l traced stmt s = begin sys stack l traced stmt name s := by
  obtain ⟨hargc, harg0⟩ := hstack.argc
  obtain ⟨hfront, hauxv⟩ := wordsAt_append.mp hstack.words
  obtain ⟨-, henvp⟩ := wordsAt_append.mp hfront
  have hargs : (BitVec.ofNat cpu.wordBits stack.argv.length :: stack.argv ++ [0]).length =
      stack.argv.length + 2 := by simp
  have hskipped : ∀ s' : LoaderState cpu, skipEnvp s.mem fuel
      (stmt.stackPointer.toNat + cpu.wordBytes * (stack.argv.length + 1)) s' =
        (.ok (stack.auxvAddress stmt.stackPointer.toNat), s') := by
    intro s'
    have hcursor : stmt.stackPointer.toNat + cpu.wordBytes * (stack.argv.length + 1) +
        cpu.wordBytes * (stack.envp.length + 2) =
          stack.auxvAddress stmt.stackPointer.toNat := by
      rw [ProgramStack.auxvAddress, Nat.add_assoc, ← Nat.mul_add]
      congr 2
      omega
    rw [← hcursor]
    refine skipEnvp_apply stack.envp_ne (by omega) ?_ s'
    rw [hargs, Nat.mul_succ, ← Nat.add_assoc] at henvp
    exact henvp
  have hvectors : WordsAt cpu s.mem (stack.auxvAddress stmt.stackPointer.toNat)
      (vectorWords stack.auxv ++ [0]) := by
    have hlen : (BitVec.ofNat cpu.wordBits stack.argv.length :: stack.argv ++ [0] ++
        (stack.envp ++ [0])).length = stack.argv.length + stack.envp.length + 3 := by
      rw [List.length_append, hargs, List.length_append, List.length_singleton]
      omega
    rwa [hlen] at hauxv
  unfold start begin
  rw [bind_apply_ok (read_apply s), hargc, harg0]
  have hkeeps : KeepsMem s.mem (closeFile sys l) := closeFile_keepsMem l
  refine hkeeps.bind_congr rfl fun _ s' hs' => ?_
  have hauxvFuel : stack.auxv.length ≤ fuel := by omega
  have hadjust := adjustAuxv_apply (auxValue stmt l.atBase stack.arg0) stack.auxv_ne
    stack.auxv_types hauxvFuel (hs'.symm ▸ hvectors)
  rw [bind_apply_ok (hskipped s'), bind_apply_ok hadjust, bind_apply_ok (modify_apply _ s'),
    bind_apply_ok (read_apply _), bind_apply_ok (read_apply _)]
  have hname' : TextAt (splice s'.mem (stack.auxvAddress stmt.stackPointer.toNat)
      ((vectorWords (stack.adjusted stmt l.atBase)).flatMap fun word =>
        bytesOf word cpu.wordBytes)) stmt.atExecfn.toNat name := by
    refine BytesAt.congr hname fun b _ hb => ?_
    rw [splice_of_lt, hs']
    rw [ProgramStack.auxvAddress]
    omega
  have hnameFuel : name.val.length < fuel := by omega
  exact bind_apply_ok (basename_apply hname' hnameFuel _)

end Start

/-! ## The script -/

section Script

variable {m : Mode} {sys : System m.program} {mem : ℕ → Byte} {s : LoaderState m.program}
  {fuel cursor : ℕ} {l : Locals m.program} {rest : List m.program.Word}

/-- So does the interpreter. -/
theorem performInterp_keepsMem (string2 : m.cpu.Word)
    (interp : Option (List (Execve.Mapping m.cpu))) (l : Locals m.program) :
    KeepsMem mem (performInterp sys string2 interp l) := by
  cases interp with
  | none => exact Keeps.pure l
  | some mappings =>
    exact Keeps.bind (closeFile_keepsMem l) fun _ =>
      Keeps.bind (openFile_keepsMem l _) fun l' => performMappings_keepsMem mappings l'

/-- The statements of the interpreter, if there are any. -/
theorem startFrom_interp {string2 : m.cpu.Word} {interp : Option (List (Execve.Mapping m.cpu))}
    {words : List m.cpu.Word}
    (hwords : words =
      (interp.map fun mappings => [0, string2] ++ transcriptMappings mappings).getD [])
    (hs : s.mem = mem) (h : WordsAt m.program mem cursor (words.map (narrow m) ++ rest)) :
    startFrom sys (fuel + (interp.map fun mappings => mappings.length + 1).getD 0) cursor l s =
      (do
        let l ← performInterp sys string2 interp l
        startFrom sys fuel (cursor + m.program.wordBytes * words.length) l) s := by
  cases interp with
  | none =>
    obtain rfl := hwords
    rfl
  | some mappings =>
    obtain rfl : words = [0, string2] ++ transcriptMappings mappings := hwords
    rw [List.map_append, List.append_assoc] at h
    have hrest : WordsAt m.program mem (cursor + 2 * m.program.wordBytes)
        ((transcriptMappings mappings).map (narrow m) ++ rest) := by
      rw [Nat.mul_comm]
      exact (wordsAt_append.mp h).2
    rw [← hs] at h
    change startFrom sys (fuel + mappings.length + 1) cursor l s = _
    rw [startFrom_openNext h (narrow_ofNat_toNat m (by decide))]
    rw [performInterp, bind_assoc]
    refine Keeps.bind_congr (closeFile_keepsMem l) hs fun _ s₁ hs₁ => ?_
    rw [bind_assoc]
    refine Keeps.bind_congr (openFile_keepsMem l _) hs₁ fun l' s₂ hs₂ => ?_
    rw [startFrom_mappings hs₂ hrest, List.length_append, transcriptMappings_length]
    have hcursor : cursor + 2 * m.program.wordBytes + 6 * mappings.length * m.program.wordBytes =
        cursor + m.program.wordBytes * (2 + 6 * mappings.length) := by
      rw [Nat.mul_comm m.program.wordBytes, Nat.add_mul, Nat.add_assoc]
    exact congrArg (fun c => (performMappings sys mappings l' >>= fun l =>
      startFrom sys fuel c l) s₂) hcursor

/-- The statement of the executable stack, if it is needed. -/
theorem startFrom_stack {needed : Bool} {start : m.cpu.Word} {words : List m.cpu.Word}
    (hwords : words = if needed then [4, start] else []) (hs : s.mem = mem)
    (h : WordsAt m.program mem cursor (words.map (narrow m) ++ rest)) :
    startFrom sys (fuel + if needed then 1 else 0) cursor l s = (do
      when (needed = true) (makeStackExec sys (narrow m start))
      startFrom sys fuel (cursor + m.program.wordBytes * words.length) l) s := by
  cases needed with
  | false =>
    obtain rfl := hwords
    rfl
  | true =>
    obtain rfl : words = [4, start] := hwords
    rw [← hs] at h
    change startFrom sys (fuel + 1) cursor l s = _
    rw [startFrom_makeStackExec h (narrow_ofNat_toNat m (by decide)), Nat.mul_comm 2]
    rfl

/-- The number of statements of a script. -/
def LoadInfo.statements (info : LoadInfo m.cpu) (mappings : List (Execve.Mapping m.cpu))
    (interp : Option (List (Execve.Mapping m.cpu))) : ℕ :=
  1 + mappings.length + (interp.map fun mappings => mappings.length + 1).getD 0 +
    (if info.needsStack then 1 else 0) + 1

/-- The loader does what the load information says if it finds the script, the name and the
stack. -/
theorem loaderStart_perform {info : LoadInfo m.cpu} {pageMask : m.cpu.Word} {traced : Bool}
    {stackPointer : m.cpu.Word} {mappings : List (Execve.Mapping m.cpu)}
    {interp : Option (List (Execve.Mapping m.cpu))} {first : Execve.Mapping m.cpu}
    {stack : ProgramStack m.program}
    (hscript : WordsAt m.program s.mem cursor
      ((info.script pageMask traced stackPointer mappings interp first).map (narrow m)))
    (hstack : stack.LiesAt s.mem (narrow m stackPointer).toNat)
    (hname : TextAt s.mem (narrow m (info.strings stackPointer).string3).toNat info.name)
    (hbelow : (narrow m (info.strings stackPointer).string3).toNat + info.name.terminated.length ≤
      (narrow m stackPointer).toNat)
    (hfuel : info.statements mappings interp +
      (stack.envp.length + stack.auxv.length + info.name.val.length) < fuel) :
    loaderStart sys fuel cursor s =
      perform sys info pageMask traced stackPointer mappings interp first stack s := by
  obtain ⟨f, rfl, hf⟩ : ∃ f, fuel = f + 1 + (if info.needsStack then 1 else 0) +
      (interp.map fun mappings => mappings.length + 1).getD 0 + mappings.length + 1 ∧
        stack.envp.length + stack.auxv.length + info.name.val.length < f := by
    refine ⟨fuel - info.statements mappings interp, ?_, by omega⟩
    unfold LoadInfo.statements at hfuel ⊢
    omega
  have hopen := hscript
  unfold LoadInfo.script at hopen
  simp only [List.map_append, List.append_assoc] at hopen
  have hmappings := (wordsAt_append.mp hopen).2
  have hinterp := (wordsAt_append.mp hmappings).2
  have hexec := (wordsAt_append.mp hinterp).2
  have hstart := (wordsAt_append.mp hexec).2
  rw [List.length_map] at hmappings hinterp hexec hstart
  rw [List.length_map, transcriptMappings_length] at hinterp hexec hstart
  rw [List.length_map] at hexec hstart
  rw [List.length_map] at hstart
  have htwo : m.program.wordBytes * [1, (info.strings stackPointer).string1].length =
      2 * m.program.wordBytes := Nat.mul_comm ..
  rw [htwo] at hmappings hinterp hexec hstart
  rw [Nat.mul_comm m.program.wordBytes (6 * mappings.length)] at hinterp hexec hstart
  refine (startFrom_open hopen (narrow_ofNat_toNat m (by decide))).trans ?_
  unfold perform
  refine Keeps.bind_congr (openFile_keepsMem _ _) rfl fun l₁ s₁ hs₁ => ?_
  refine (startFrom_mappings hs₁ hmappings).trans ?_
  refine Keeps.bind_congr (performMappings_keepsMem mappings l₁) hs₁ fun l₂ s₂ hs₂ => ?_
  refine (startFrom_interp rfl hs₂ hinterp).trans ?_
  refine Keeps.bind_congr (performInterp_keepsMem _ interp l₂) hs₂ fun l₃ s₃ hs₃ => ?_
  refine (startFrom_stack rfl hs₃ hexec).trans ?_
  refine Keeps.bind_congr (Keeps.when fun _ => makeStackExec_keepsMem _) hs₃ fun _ s₄ hs₄ => ?_
  rw [← hs₄] at hstart hstack hname
  have hfields : WordsAt m.program s₄.mem _ (_ ::
      (startStatement traced ((info.startFields stackPointer first).narrow m)).tail) := hstart
  refine (startFrom_start hfields ?_).trans ?_
  · cases traced
    · exact narrow_ofNat_toNat m (n := 6) (by decide)
    · exact narrow_ofNat_toNat m (n := 5) (by decide)
  · exact start_apply l₃ traced hstack hname hbelow hf

end Script

end Abyss.Loader
