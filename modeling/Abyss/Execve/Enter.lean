import Abyss.Execve.Shebang

/-!
# Entering an executable

The front end of `execve`: the scripts are replaced by their interpreters, and the headers of the
executable and of its ELF interpreter are read. All paths on the way are translated.

The working directory that relative paths are joined to is that of the tracer. Nothing depends on it
exactly as long as all paths are absolute: the one that is given, those of the interpreters of
scripts and those of the ELF interpreters.
-/

namespace Abyss.Execve

open Bytes

/-- A field of a structure in a file. -/
def field (bytes : List Byte) (offset size : ℕ) : ℕ :=
  ((bytes.drop offset).take size).foldr (fun b n => b.toNat + 256 * n) 0

/-- The value of a field fits its size. -/
theorem field_lt (bytes : List Byte) (offset size : ℕ) :
    field bytes offset size < 2 ^ (8 * size) := by
  have hfold : ∀ l : List Byte, l.foldr (fun b n => b.toNat + 256 * n) 0 < 256 ^ l.length := by
    intro l
    induction l with
    | nil => decide
    | cons b rest ih =>
      have hb : b.toNat < 256 := b.isLt
      rw [List.foldr_cons, List.length_cons, Nat.pow_succ]
      omega
  have hlength : ((bytes.drop offset).take size).length ≤ size := List.length_take_le ..
  rw [Nat.pow_mul]
  exact (hfold _).trans_le (Nat.pow_le_pow_right (by decide) hlength)

/-- The fields of the ELF header that are used. -/
structure ElfHeader where
  isClass64 : Bool
  type : ℕ
  phoff : ℕ
  phentsize : ℕ
  phnum : ℕ

/-- The ELF header in the first bytes of a file. -/
def ElfHeader.ofBytes (bytes : List Byte) : ElfHeader :=
  if field bytes 4 1 = 2 then
    ⟨true, field bytes 16 2, field bytes 32 8, field bytes 54 2, field bytes 56 2⟩
  else ⟨false, field bytes 16 2, field bytes 28 4, field bytes 42 2, field bytes 44 2⟩

/-- The fields of a program header that are used. -/
structure ProgramHeader where
  type : ℕ
  offset : ℕ
  filesz : ℕ

/-- A program header of a class. -/
def ProgramHeader.ofBytes (isClass64 : Bool) (bytes : List Byte) : ProgramHeader :=
  if isClass64 then ⟨field bytes 0 4, field bytes 8 8, field bytes 32 8⟩
  else ⟨field bytes 0 4, field bytes 4 4, field bytes 16 4⟩

/-- `sizeof(ElfHeader)`. -/
def sizeofElfHeader : ℕ := 64

/-- `KNOWN_PHENTSIZE`. -/
def knownPhentsize (header : ElfHeader) : Bool :=
  if header.isClass64 then header.phentsize = 56 else header.phentsize = 32

/-- `ET_EXEC`. -/
def etExec : ℕ := 2

/-- `ET_DYN`. -/
def etDyn : ℕ := 3

/-- `PT_LOAD`. -/
def ptLoad : ℕ := 1

/-- `PT_INTERP`. -/
def ptInterp : ℕ := 3

section Headers

variable (h : Host)

/-- Open an ELF file and extract its header. -/
def openElf (path : Path) : Except Stop (File × ElfHeader) :=
  match h.openFile path with
  | .error errno => status (-errno)
  | .ok file =>
    match file.pread 0 sizeofElfHeader with
    | .error errno => status (-errno)
    | .ok bytes =>
      if bytes.length < sizeofElfHeader ∨ bytes.take 4 ≠ [0x7f, 69, 76, 70] then status (-enoexec)
      else if field bytes 4 1 ≠ 1 ∧ field bytes 4 1 ≠ 2 then status (-enoexec)
      else .ok (file, .ofBytes bytes)

/-- The path of the interpreter that a program header tells. -/
def readInterp (file : File) (header : ProgramHeader) : Except Stop Path :=
  let status' := match file.pread header.offset header.filesz with
    | .error _ => -1
    | .ok bytes => intOf bytes.length
  if h.cpu.sizeT status' ≠ header.filesz then status (-eacces)
  else if status' < 0 then status status'
  else
    match file.pread header.offset header.filesz with
    | .error _ => .ok []
    | .ok bytes => .ok (bytes.takeWhile (· ≠ 0))

/-- Add the interpreter of an executable, or of an interpreter. -/
def addInterp (ofInterp : Bool) (file : File) (header : ProgramHeader) (interp : Option Path) :
    Front (Option Path) := do
  if interp.isSome then Front.of (status (-einval))
  else if h.allocates (.interp ofInterp) = false then Front.of (status (-enomem))
  else do
    let userPath ← Front.of (readInterp h file header)
    let hostPath ← translateAndCheckExec h userPath
    if h.allocates (.interpPaths ofInterp) = false then Front.of (status (-enomem))
    else pure (some hostPath)

/-- Add what a program header tells. -/
def addLoadInfo (ofInterp : Bool) (file : File) (i : ℕ) (header : ProgramHeader)
    (interp : Option Path) : Front (Option Path) := do
  if header.type = ptLoad then do
    if h.allocates (.noMappings ofInterp) = false then Front.of (.error .nullPointer)
    else if h.allocates (.mapping ofInterp i) = false then Front.of (status (-enomem))
    else pure interp
  else if header.type = ptInterp then addInterp h ofInterp file header interp
  else pure interp

/-- Read the program headers from an offset on. -/
def programHeadersFrom (ofInterp : Bool) (file : File) (elf : ElfHeader) :
    ℕ → ℕ → ℕ → Option Path → Front (Option Path)
  | 0, _, _, interp => pure interp
  | n + 1, i, offset, interp => do
    match file.pread offset elf.phentsize with
    | .error errno => Front.of (status (-errno))
    | .ok bytes =>
      if bytes.length ≠ elf.phentsize then Front.of (status (-enotsup))
      else do
        let interp ← addLoadInfo h ofInterp file i (.ofBytes elf.isClass64 bytes) interp
        programHeadersFrom ofInterp file elf n (i + 1) (offset + elf.phentsize) interp

/-- Read all program headers; the interpreter is returned. -/
def iterateProgramHeaders (ofInterp : Bool) (file : File) (elf : ElfHeader) :
    Front (Option Path) :=
  if elf.phnum ≥ 0xffff then Front.of (status (-enotsup))
  else if !knownPhentsize elf then Front.of (status (-enotsup))
  else
    match file.lseek elf.phoff with
    | .error errno => Front.of (status (-errno))
    | .ok offset =>
      -- An offset that is negative as an `int` is taken for an error.
      if intOf offset < 0 then
        if h.errno = 0 then pure none else Front.of (status (-h.errno))
      else programHeadersFrom h ofInterp file elf elf.phnum 0 offset none

/-- Extract what is needed of an executable, or of its interpreter. -/
def extractLoadInfo (ofInterp : Bool) (hostPath : Path) : Front (Option Path) := do
  let (file, elf) ← Front.of (openElf h hostPath)
  if elf.type = etExec ∨ elf.type = etDyn then iterateProgramHeaders h ofInterp file elf
  else Front.of (status (-einval))

/-- Extract what is needed of an executable and of its interpreter. -/
def extractLoadInfos (hostPath : Path) : Front Unit := do
  if h.allocates .loadInfo = false then Front.of (status (-enomem))
  else if h.allocates .hostPath = false then Front.of (status (-enomem))
  else if h.allocates .userPath = false then Front.of (status (-enomem))
  else
    match ← extractLoadInfo h false hostPath with
    | none => pure ()
    | some interpPath => do
      let nested ← extractLoadInfo h true interpPath
      if nested.isSome then Front.of (status (-einval)) else pure ()

/-- The error for a directory. -/
def directoryError : Stop → Stop
  | .status z => if z = -eisdir then .status (-eacces) else .status z
  | stop => stop

/-- The verdict on an `execve` of a path, which has been read from the tracee; a notification that a
loader is done is let through. -/
def translateExecveEnter (getcwd : Getcwd) (loadDone : Bool) (sysarg : Except Stop Path) :
    Except Stop Unit := do
  if loadDone then pure ()
  else do
    let userPath ← sysarg
    if h.allocates .rawPath = false then status (-enomem)
    else do
      let (_, hostPath, _) ←
        ((expandShebang h userPath).result h.link getcwd).mapError directoryError
      (extractLoadInfos h hostPath).result h.link getcwd

/-! ## The paths that are translated -/

/-- The paths that are translated on behalf of an `execve`, if the tracer is in the root
directory. -/
def execvePaths (loadDone : Bool) (sysarg : Except Stop Path) : List Path :=
  if loadDone then []
  else
    match sysarg with
    | .error _ => []
    | .ok userPath =>
      if h.allocates .rawPath = false then []
      else
        (expandShebang h userPath).paths h.link ++
          match (expandShebang h userPath).result h.link (.ok [slash]) with
          | .error _ => []
          | .ok (_, hostPath, _) => (extractLoadInfos h hostPath).paths h.link

variable {h} {loadDone : Bool} {userPath : Path} {sysarg : Except Stop Path}

/-- Where there is memory no allocation fails. -/
theorem not_allocates_false (hmemory : ∀ allocation, h.allocates allocation = true)
    (allocation : Allocation) : ¬h.allocates allocation = false := by
  rw [hmemory allocation]
  exact Bool.noConfusion

/-- What is done with a path that was read from the tracee. -/
theorem translateExecveEnter_path (hraw : h.allocates .rawPath = true) (getcwd : Getcwd) :
    translateExecveEnter h getcwd false (.ok userPath) =
      (((expandShebang h userPath).result h.link getcwd).mapError directoryError).bind
        fun found => (extractLoadInfos h found.2.1).result h.link getcwd := by
  have hmemory : ¬h.allocates .rawPath = false := Bool.not_eq_false _ ▸ hraw
  rw [translateExecveEnter, if_neg Bool.false_ne_true]
  change (ite _ _ _ : Except Stop Unit) = _
  rw [if_neg hmemory]
  rfl

/-- A relative path in place of a script shows the error of `getcwd`. -/
theorem translateExecveEnter_error (hraw : h.allocates .rawPath = true) {errno : ℤ}
    (hrelative : ∃ path ∈ (expandShebang h userPath).paths h.link, ¬Absolute path) :
    translateExecveEnter h (.error errno) false (.ok userPath) =
      .error (directoryError (.status (-errno))) := by
  rw [translateExecveEnter_path hraw, Front.result_error hrelative]
  rfl

/-- Without such a path the same executable is found from everywhere. -/
theorem expandShebang_found
    (habsolute : ∀ path ∈ (expandShebang h userPath).paths h.link, Absolute path)
    (getcwd : Getcwd) :
    (expandShebang h userPath).result h.link getcwd =
      (expandShebang h userPath).result h.link (.ok [slash]) :=
  Front.result_constant_iff.mpr habsolute _ _

/-- The verdict on a path. -/
theorem translateExecveEnter_path_constant_iff (hraw : h.allocates .rawPath = true) :
    (∀ getcwd getcwd', translateExecveEnter h getcwd false (.ok userPath) =
        translateExecveEnter h getcwd' false (.ok userPath)) ↔
      ∀ path ∈ execvePaths h false (.ok userPath), Absolute path := by
  have hmemory : ¬h.allocates .rawPath = false := Bool.not_eq_false _ ▸ hraw
  have hpaths : execvePaths h false (.ok userPath) =
      (expandShebang h userPath).paths h.link ++
        match (expandShebang h userPath).result h.link (.ok [slash]) with
        | .error _ => []
        | .ok (_, hostPath, _) => (extractLoadInfos h hostPath).paths h.link := if_neg hmemory
  rw [hpaths, List.forall_mem_append]
  by_cases habsolute : ∀ path ∈ (expandShebang h userPath).paths h.link, Absolute path
  · -- The executable is the same, and its headers are read.
    have hfound := expandShebang_found habsolute
    rw [and_iff_right habsolute]
    cases hresult : (expandShebang h userPath).result h.link (.ok [slash]) with
    | error stop =>
      refine iff_of_true (fun getcwd getcwd' => ?_) fun _ hpath => nomatch hpath
      rw [translateExecveEnter_path hraw, translateExecveEnter_path hraw, hfound getcwd,
        hfound getcwd', hresult]
      rfl
    | ok found =>
      have hverdict : ∀ getcwd, translateExecveEnter h getcwd false (.ok userPath) =
          (extractLoadInfos h found.2.1).result h.link getcwd := by
        intro getcwd
        rw [translateExecveEnter_path hraw, hfound getcwd, hresult]
        rfl
      simp only [hverdict]
      exact Front.result_constant_iff
  · -- Two errors of `getcwd` are told apart.
    refine iff_of_false (fun hconstant => ?_) fun hall => habsolute hall.1
    have hrelative : ∃ path ∈ (expandShebang h userPath).paths h.link, ¬Absolute path := by
      simpa using habsolute
    have hverdict := hconstant (.error enoent) (.error erange)
    rw [translateExecveEnter_error hraw hrelative,
      translateExecveEnter_error hraw hrelative] at hverdict
    exact absurd hverdict (by decide)

/-- The verdict does not depend on the working directory of the tracer exactly if all paths that are
translated are absolute. -/
theorem translateExecveEnter_constant_iff :
    (∀ getcwd getcwd', translateExecveEnter h getcwd loadDone sysarg =
        translateExecveEnter h getcwd' loadDone sysarg) ↔
      ∀ path ∈ execvePaths h loadDone sysarg, Absolute path := by
  cases loadDone with
  | true => exact iff_of_true (fun _ _ => rfl) fun _ hpath => nomatch hpath
  | false =>
    cases sysarg with
    | error stop => exact iff_of_true (fun _ _ => rfl) fun _ hpath => nomatch hpath
    | ok userPath =>
      cases hraw : h.allocates .rawPath with
      | true => exact translateExecveEnter_path_constant_iff hraw
      | false =>
        have hverdict : ∀ getcwd, translateExecveEnter h getcwd false (.ok userPath) =
            status (-enomem) := fun _ => if_pos hraw
        have hpaths : execvePaths h false (.ok userPath) = [] := if_pos hraw
        rw [hpaths]
        refine iff_of_true (fun getcwd getcwd' => ?_) fun _ hpath => nomatch hpath
        rw [hverdict getcwd, hverdict getcwd']

end Headers

/-! ## The whole front end -/

/-- The paths are resolved by the tracee only: nothing depends on the working directory of the tracer,
and a relative path is joined to that of the tracee. -/
def ResolvesByTracee (h : Host) (traceeCwd userPath : Path) (loadDone : Bool)
    (sysarg : Except Stop Path) : Prop :=
  ((∀ getcwd getcwd', translatePath h.link getcwd atFdcwd userPath =
      translatePath h.link getcwd' atFdcwd userPath) ∧
    (¬Absolute userPath → ∀ getcwd, translatePath h.link getcwd atFdcwd userPath =
      joinPaths [traceeCwd, userPath])) ∧
  (∀ getcwd getcwd', (translateAndCheckExec h userPath).result h.link getcwd =
    (translateAndCheckExec h userPath).result h.link getcwd') ∧
  (∀ getcwd getcwd', (expandShebang h userPath).result h.link getcwd =
    (expandShebang h userPath).result h.link getcwd') ∧
  (∀ getcwd getcwd', translateExecveEnter h getcwd loadDone sysarg =
    translateExecveEnter h getcwd' loadDone sysarg)

/-- The paths are resolved by the tracee only exactly if all of them are absolute. -/
theorem resolvesByTracee_iff (h : Host) (traceeCwd userPath : Path) (loadDone : Bool)
    (sysarg : Except Stop Path) :
    ResolvesByTracee h traceeCwd userPath loadDone sysarg ↔
      Absolute userPath ∧
      (∀ path ∈ (expandShebang h userPath).paths h.link, Absolute path) ∧
      ∀ path ∈ execvePaths h loadDone sysarg, Absolute path := by
  unfold ResolvesByTracee
  rw [translatePath_byTracee_iff, translateAndCheckExec_constant_iff, Front.result_constant_iff,
    translateExecveEnter_constant_iff]
  exact ⟨fun hall => ⟨hall.1, hall.2.2⟩, fun hall => ⟨hall.1, Or.inr hall.1, hall.2⟩⟩

/-- The only executable is `/b/x`. -/
def oneExecutable : Host where
  cpu := .arm64
  link _ := none
  accessible path := path = [47, 98, 47, 120]
  executable _ := true
  statable _ := true
  openFile _ := .error enoent
  allocates _ := true
  errno := 0
  maxSymlinks := 8
  binprmBufSize := 256

/-- A tracee in `/b` executes `x`, which is only found if the tracer is in `/b`, too. -/
theorem relativePath_notResolved :
    ¬ResolvesByTracee oneExecutable [47, 98] [120] false (.ok [120]) := by
  rintro ⟨-, hcheck, -, -⟩
  have hmissing : (translateAndCheckExec oneExecutable [120]).result oneExecutable.link
      (.ok [47, 97]) = status (-enoent) := by rfl
  have hfound : (translateAndCheckExec oneExecutable [120]).result oneExecutable.link
      (.ok [47, 98]) = .ok [47, 98, 47, 120] := by rfl
  have hsame := hcheck (.ok [47, 97]) (.ok [47, 98])
  rw [hmissing, hfound] at hsame
  cases hsame

end Abyss.Execve
