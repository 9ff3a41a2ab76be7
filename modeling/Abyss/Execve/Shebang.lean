import Abyss.Execve.Path

/-!
# Scripts

The path of an executable is translated and the file is checked. If it is a script its interpreter
takes its place, over and over again up to the limit for symbolic links.
-/

namespace Abyss.Execve

open Bytes

/-- `ENOEXEC`. -/
def enoexec : ℤ := 8

/-- `ELOOP`. -/
def eloop : ℤ := 40

/-- What memory is allocated for. -/
inductive Allocation where
  | rawPath
  | oldUserPath (level : ℕ)
  | loadInfo
  | hostPath
  | userPath
  | noMappings (ofInterp : Bool)
  | mapping (ofInterp : Bool) (header : ℕ)
  | interp (ofInterp : Bool)
  | interpPaths (ofInterp : Bool)

/-- A file that is open for reading: what `pread` of a size returns at an offset, and the offset that
`lseek` returns. -/
structure File where
  pread : ℕ → ℕ → Except ℤ (List Byte)
  lseek : ℕ → Except ℤ ℕ

/-- What the tracer finds: the paths of the descriptors of the tracee, the files, the memory it gets,
and what is left in `errno` while nothing fails. -/
structure Host where
  cpu : Cpu
  link : ℤ → Option Path
  accessible : Path → Bool
  executable : Path → Bool
  statable : Path → Bool
  openFile : Path → Except ℤ File
  allocates : Allocation → Bool
  errno : ℤ
  maxSymlinks : ℕ
  binprmBufSize : ℕ

section Scripts

variable (h : Host)

/-- Translate a path and check that its file can be executed. -/
def translateAndCheckExec (userPath : Path) : Front Path := do
  if userPath = [] then Front.of (status (-enoexec))
  else do
    let hostPath ← Inquiry.question userPath
    if h.accessible hostPath = false then Front.of (status (-enoent))
    else if h.executable hostPath = false then Front.of (status (-eacces))
    else if h.statable hostPath = false then Front.of (status (-eperm))
    else pure hostPath

end Scripts

/-- Read the next character, unless the file ends. -/
def readChar (file : File) (length : ℕ) : Except Stop (Option Byte) :=
  match file.pread length 1 with
  | .error errno => status (-errno)
  | .ok bytes => .ok bytes.head?

/-- A space or a tabulator. -/
def isBlank (c : Byte) : Bool := c = 32 ∨ c = 9

/-- The end of a line. -/
def isNewline (c : Byte) : Bool := c = 10 ∨ c = 13

/-- Read the characters up to the first that is no blank, or up to the limit; `left` is the number of
characters that may be read behind the next one, and `length` of those before it. -/
def skipBlanks (file : File) : ℕ → ℕ → Except Stop (Byte × ℕ)
  | left, length => do
    match ← readChar file length with
    | none => status (-enoexec)
    | some c =>
      match left with
      | 0 => pure (c, length + 1)
      | left + 1 => if isBlank c then skipBlanks file left (length + 1) else pure (c, length + 1)

/-- Read the argument of the interpreter, which is not used. -/
def slurpArgument (file : File) : ℕ → ℕ → Byte → Except Stop Unit
  | 0, _, _ => pure ()
  | left + 1, length, tmp => do
    if isNewline tmp then pure ()
    else
      match ← readChar file length with
      | none => pure ()
      | some c => slurpArgument file left (length + 1) c

/-- Read the path of the interpreter, of which `userPath` has been stored already; `left` is the number
of characters up to the limit, counted from the current one. -/
def slurpPath (file : File) : ℕ → ℕ → Byte → List Byte → Except Stop (List Byte)
  | 0, _, _, userPath => pure userPath
  | left + 1, length, tmp, userPath => do
    if isNewline tmp then pure userPath
    else if !isBlank tmp && decide (userPath.length > 1) && userPath.getLast? = some 0 then do
      slurpArgument file (left + 1) length tmp
      pure userPath
    else
      match ← readChar file length with
      -- The terminator takes the place of the last character.
      | none => pure userPath
      | some c =>
        slurpPath file left (length + 1) c (userPath ++ [if isBlank tmp then 0 else tmp])

section Scripts

variable (h : Host)

/-- The path of the interpreter, if the file is a script. -/
def extractShebang (hostPath : Path) : Except Stop (Option Path) := do
  if h.binprmBufSize ≥ pathMax then .error .assertion
  else
    match h.openFile hostPath with
    | .error errno => status (-errno)
    | .ok file =>
      match file.pread 0 2 with
      | .error errno => status (-errno)
      | .ok bytes =>
        if bytes.length < 2 then pure none
        else if bytes ≠ [35, 33] then pure none
        else do
          let (tmp, length) ← skipBlanks file (h.binprmBufSize - 3) 2
          let userPath ← slurpPath file (h.binprmBufSize - length) length tmp []
          pure (some (userPath.takeWhile (· ≠ 0)))

/-- Replace a script by its interpreter, from a level on. -/
def expandShebangFrom : ℕ → ℕ → Path → Bool → Front (Bool × Path × Path)
  | 0, _, _, _ => Front.of (status (-eloop))
  | levels + 1, i, userPath, hasShebang => do
    let hostPath ← translateAndCheckExec h userPath
    if h.allocates (.oldUserPath i) = false then Front.of (status (-enomem))
    else
      match ← Front.of (extractShebang h hostPath) with
      | none => pure (hasShebang, hostPath, userPath)
      | some interp => do
        let _ ← translateAndCheckExec h interp
        expandShebangFrom levels (i + 1) interp true

/-- Whether there is an interpreter, and the paths of what is to be executed for the host and as they
are. -/
def expandShebang (userPath : Path) : Front (Bool × Path × Path) :=
  expandShebangFrom h h.maxSymlinks 0 userPath false

/-- Only the path that is given is translated, and no empty one. -/
theorem translateAndCheckExec_asked (translate : Path → Except Stop Path) (userPath : Path) :
    (translateAndCheckExec h userPath).asked translate =
      if userPath = [] then [] else [userPath] := by
  unfold translateAndCheckExec
  by_cases hempty : userPath = []
  · rw [if_pos hempty, if_pos hempty]
    rfl
  · rw [if_neg hempty, if_neg hempty, Inquiry.asked_bind, Inquiry.asked_question]
    refine congrArg (userPath :: ·) ?_
    cases (Inquiry.question userPath : Front Path).run translate with
    | error stop => rfl
    | ok hostPath =>
      change Inquiry.asked _ (ite _ _ _) = []
      split_ifs <;> rfl

/-- Only the path itself is translated, unless it is empty. -/
theorem translateAndCheckExec_paths (userPath : Path) :
    (translateAndCheckExec h userPath).paths h.link =
      if userPath = [] then [] else [userPath] :=
  translateAndCheckExec_asked h _ userPath

/-- The check does not depend on the working directory of the tracer exactly for an absolute path and
for an empty one. -/
theorem translateAndCheckExec_constant_iff (userPath : Path) :
    (∀ getcwd getcwd', (translateAndCheckExec h userPath).result h.link getcwd =
        (translateAndCheckExec h userPath).result h.link getcwd') ↔
      userPath = [] ∨ Absolute userPath := by
  rw [Front.result_constant_iff, translateAndCheckExec_paths]
  by_cases hempty : userPath = []
  · rw [if_pos hempty]
    exact iff_of_true (fun _ hpath => nomatch hpath) (Or.inl hempty)
  · rw [if_neg hempty, List.forall_mem_singleton, or_iff_right hempty]

end Scripts

end Abyss.Execve
