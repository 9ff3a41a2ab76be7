import Abyss.Execve.Mapping

/-!
# The loader

The loader interprets a script that the tracer left on the stack: it opens the program and maps its
segments, does the same for the interpreter, adjusts the auxiliary vectors, and starts the program.
A statement is an action and its fields, all of them words. The loader gives up when a syscall
fails. What it does is kept as a list of actions, in order; the content of the pages that are mapped
is not followed.
-/

namespace Abyss.Loader

open Machine Bytes

/-! ## Actions -/

/-- What the loader does: a syscall, or clearing the memory between two addresses. -/
inductive Action (cpu : Cpu) where
  | syscall (number : ℕ) (args : List cpu.Word)
  | clear (start bound : cpu.Word)
deriving DecidableEq

/-- The memory that the loader reads, and what it did. -/
structure LoaderState (cpu : Cpu) where
  mem : ℕ → Byte
  actions : List (Action cpu)

/-- How the loader ends: it exits, or the program is started. -/
inductive Ending (cpu : Cpu) where
  | exited
  | branch (stackPointer entryPoint : cpu.Word)
  | outOfFuel

/-- A program of the loader. -/
abbrev LoaderProg (cpu : Cpu) (α : Type) := Machine (LoaderState cpu) (Ending cpu) α

/-- What the kernel answers to the last of some actions. -/
abbrev System (cpu : Cpu) := List (Action cpu) → cpu.Word

/-- The numbers of the syscalls. -/
structure SyscallNumbers where
  close : ℕ
  mmap : ℕ
  execve : ℕ
  exit : ℕ
  prctl : ℕ
  mprotect : ℕ

/-- The numbers of the syscalls of a processor. -/
def syscallNumbers : Cpu → SyscallNumbers
  | .armEabi => ⟨6, 192, 11, 1, 172, 125⟩
  | .arm64 => ⟨57, 222, 221, 93, 167, 226⟩

section Programs

variable {cpu : Cpu} (sys : System cpu)

/-- A word of an array of words. -/
def wordAt (cpu : Cpu) (mem : ℕ → Byte) (cursor i : ℕ) : cpu.Word :=
  wordOf cpu.wordBits (fun j => mem (cursor + cpu.wordBytes * i + j)) cpu.wordBytes

/-- Do something. -/
def act (action : Action cpu) : LoaderProg cpu Unit :=
  modify fun s => { s with actions := s.actions ++ [action] }

/-- `SYSCALL`. -/
def syscall (number : ℕ) (args : List cpu.Word) : LoaderProg cpu cpu.Word := do
  act (.syscall number args)
  let s ← read
  pure (sys s.actions)

/-- `FATAL`. -/
def fatal {α : Type} : LoaderProg cpu α := do
  let _ ← syscall sys (syscallNumbers cpu).exit [182]
  fault .exited

/-- A result is negative as an `int`. -/
def isNegative (result : cpu.Word) : Bool := (result.setWidth 32).msb

/-! ## Statements -/

/-- The variables of `_start`. -/
structure Locals (cpu : Cpu) where
  resetAtBase : Bool
  atBase : cpu.Word
  fd : cpu.Word

/-- The variables at the beginning. -/
def Locals.initial : Locals cpu := ⟨true, 0, -1⟩

/-- Close the file that is open. -/
def closeFile (l : Locals cpu) : LoaderProg cpu Unit := do
  let status ← syscall sys (syscallNumbers cpu).close [l.fd]
  if isNegative status then fatal sys else pure ()

/-- `LOAD_ACTION_OPEN`: `O_RDONLY` is zero, and `AT_FDCWD` is -100. -/
def openFile (l : Locals cpu) (stringAddress : cpu.Word) : LoaderProg cpu (Locals cpu) := do
  let fd ←
    match cpu with
    | .armEabi => syscall sys 5 [stringAddress, 0, 0]
    | .arm64 => syscall sys 56 [-100, stringAddress, 0, 0]
  if isNegative fd then fatal sys else pure { l with fd, resetAtBase := true }

/-- `LOAD_ACTION_MMAP_FILE`. -/
def mmapFile (l : Locals cpu) (addr length prot offset clearLength : cpu.Word) :
    LoaderProg cpu (Locals cpu) := do
  let flags := BitVec.ofNat _ (Execve.mapPrivate ||| Execve.mapFixed)
  let status ← syscall sys (syscallNumbers cpu).mmap
    [addr, length, prot, flags, l.fd, offset >>> Execve.mmapOffsetShift cpu]
  if status ≠ addr then fatal sys
  else do
    when (clearLength ≠ 0) (act (.clear (addr + length - clearLength) (addr + length)))
    pure (if l.resetAtBase then { l with atBase := addr, resetAtBase := false } else l)

/-- `LOAD_ACTION_MMAP_ANON`. -/
def mmapAnon (addr length prot : cpu.Word) : LoaderProg cpu Unit := do
  let flags := BitVec.ofNat _ (Execve.mapPrivate ||| Execve.mapFixed ||| Execve.mapAnonymous)
  let status ← syscall sys (syscallNumbers cpu).mmap [addr, length, prot, flags, -1, 0]
  if status ≠ addr then fatal sys else pure ()

/-- `PROT_READ | PROT_WRITE | PROT_EXEC | PROT_GROWSDOWN`. -/
def protStack : ℕ := 0x01000007

/-- `LOAD_ACTION_MAKE_STACK_EXEC`, whose result does not matter. -/
def makeStackExec (start : cpu.Word) : LoaderProg cpu Unit := do
  let _ ← syscall sys (syscallNumbers cpu).mprotect [start, 1, BitVec.ofNat _ protStack]
  pure ()

/-! ## The start of the program -/

/-- The fields of `LOAD_ACTION_START`. -/
structure StartStatement (cpu : Cpu) where
  stackPointer : cpu.Word
  entryPoint : cpu.Word
  atPhdr : cpu.Word
  atPhent : cpu.Word
  atPhnum : cpu.Word
  atEntry : cpu.Word
  atExecfn : cpu.Word

/-- `do cursor2++; while (cursor2[0] != 0); cursor2++`. -/
def skipEnvp (mem : ℕ → Byte) : ℕ → ℕ → LoaderProg cpu ℕ
  | 0, _ => fault .outOfFuel
  | fuel + 1, cursor =>
    if wordAt cpu mem cursor 1 ≠ 0 then skipEnvp mem fuel (cursor + cpu.wordBytes)
    else pure (cursor + 2 * cpu.wordBytes)

/-- The new value of a vector, for the types that are adjusted. -/
def auxValue (stmt : StartStatement cpu) (atBase atExecfn type : cpu.Word) : Option cpu.Word :=
  match type.toNat with
  | 3 => some stmt.atPhdr
  | 4 => some stmt.atPhent
  | 5 => some stmt.atPhnum
  | 9 => some stmt.atEntry
  | 7 => some atBase
  | 31 => some atExecfn
  | _ => none

/-- Set the value of a vector. -/
def adjustVector (value : cpu.Word → Option cpu.Word) (cursor : ℕ) (s : LoaderState cpu) :
    LoaderState cpu :=
  match value (wordAt cpu s.mem cursor 0) with
  | some v => { s with mem := splice s.mem (cursor + cpu.wordBytes) (bytesOf v cpu.wordBytes) }
  | none => s

/-- Adjust the vectors up to `AT_NULL`. -/
def adjustAuxv (value : cpu.Word → Option cpu.Word) : ℕ → ℕ → LoaderProg cpu Unit
  | 0, _ => fault .outOfFuel
  | fuel + 1, cursor => do
    modify (adjustVector value cursor)
    let s ← read
    if wordAt cpu s.mem cursor 2 ≠ 0 then adjustAuxv value fuel (cursor + 2 * cpu.wordBytes)
    else pure ()

/-- The end of a string. -/
def stringEnd (mem : ℕ → Byte) : ℕ → ℕ → LoaderProg cpu ℕ
  | 0, _ => fault .outOfFuel
  | fuel + 1, cursor =>
    if mem cursor ≠ 0 then stringEnd mem fuel (cursor + 1) else pure cursor

/-- Go back to the last slash, at most to the start of the string. -/
def lastSlash (mem : ℕ → Byte) (string : ℕ) : ℕ → ℕ
  | 0 => string
  | n + 1 => if mem (string + (n + 1)) = 47 then string + (n + 1) else lastSlash mem string n

/-- `basename`. -/
def basename (mem : ℕ → Byte) (fuel string : ℕ) : LoaderProg cpu ℕ := do
  let cursor ← stringEnd mem fuel string
  let cursor := lastSlash mem string (cursor - string)
  pure (if cursor ≠ string then cursor + 1 else cursor)

/-- `PR_SET_NAME`. -/
def prSetName : ℕ := 15

/-- `LOAD_ACTION_START` and `LOAD_ACTION_START_TRACED`. -/
def start (fuel : ℕ) (l : Locals cpu) (traced : Bool) (stmt : StartStatement cpu) :
    LoaderProg cpu Unit := do
  let s ← read
  let cursor2 := stmt.stackPointer.toNat
  let argc := wordAt cpu s.mem cursor2 0
  let atExecfn := wordAt cpu s.mem cursor2 1
  closeFile sys l
  let cursor2 ← skipEnvp s.mem fuel (cursor2 + cpu.wordBytes * (argc.toNat + 1))
  adjustAuxv (auxValue stmt l.atBase atExecfn) fuel cursor2
  let s ← read
  let name ← basename s.mem fuel stmt.atExecfn.toNat
  let _ ← syscall sys (syscallNumbers cpu).prctl [BitVec.ofNat _ prSetName, BitVec.ofNat _ name, 0]
  if traced then do
    let _ ← syscall sys (syscallNumbers cpu).execve
      [1, stmt.stackPointer, stmt.entryPoint, 2, 3, 4]
    fatal sys
  else fault (.branch stmt.stackPointer stmt.entryPoint)

/-- The loop of `_start`. -/
def startFrom : ℕ → ℕ → Locals cpu → LoaderProg cpu Unit
  | 0, _, _ => fault .outOfFuel
  | fuel + 1, cursor, l => do
    let s ← read
    let field := wordAt cpu s.mem cursor
    let stmt := ⟨field 1, field 2, field 3, field 4, field 5, field 6, field 7⟩
    match (field 0).toNat with
    | 0 => do
      closeFile sys l
      let l ← openFile sys l (field 1)
      startFrom fuel (cursor + 2 * cpu.wordBytes) l
    | 1 => do
      let l ← openFile sys l (field 1)
      startFrom fuel (cursor + 2 * cpu.wordBytes) l
    | 2 => do
      let l ← mmapFile sys l (field 1) (field 2) (field 3) (field 4) (field 5)
      startFrom fuel (cursor + 6 * cpu.wordBytes) l
    | 3 => do
      mmapAnon sys (field 1) (field 2) (field 3)
      startFrom fuel (cursor + 6 * cpu.wordBytes) l
    | 4 => do
      makeStackExec sys (field 1)
      startFrom fuel (cursor + 2 * cpu.wordBytes) l
    | 5 => start sys fuel l true stmt
    | 6 => start sys fuel l false stmt
    | _ => fatal sys

/-- `_start`. -/
def loaderStart (fuel cursor : ℕ) : LoaderProg cpu Unit := startFrom sys fuel cursor .initial

end Programs

end Abyss.Loader
