import Abyss.Library.ClassicBpf
import Abyss.Library.Outcome
import Abyss.Syscall.Target

/-!
# Generating the seccomp filter

The translation of `seccomp.c`: a filter is one section for each audit architecture,
followed by a final kill. A first pass over the listed syscalls counts the statements of a
section, so that its opening statements can jump over them, and a second pass emits them.

Allocation is the only thing the builder asks of its host: `realloc n` tells whether an array
of `n` elements could be had. An array of statements ends with the first `PR_void`.
-/

namespace Abyss

open ClassicBpf

/-- `ENOMEM`. -/
def enomem : ℤ := 12

/-- `ERANGE`. -/
def erange : ℤ := 34

/-- A syscall to be filtered, and how it is reported. -/
structure FilteredSysnum where
  value : Sysnum
  flags : ℕ
deriving DecidableEq

/-- `FILTER_SYSEXIT`: the exit stage has to be hit as well. -/
def filterSysexit : ℕ := 1

/-- The `SECCOMP_RET_*` actions. -/
def seccompRetKill : BitVec 32 := 0x00000000

/-- `SECCOMP_RET_TRACE`. -/
def seccompRetTrace : BitVec 32 := 0x7ff00000

/-- `SECCOMP_RET_ALLOW`. -/
def seccompRetAllow : BitVec 32 := 0x7fff0000

/-- `struct seccomp_data`; no filter of the tracer reads the syscall arguments. -/
structure SeccompData where
  nr : BitVec 32
  arch : BitVec 32
  instructionPointer : BitVec 64
  args : BitVec 32 → BitVec 32

/-- The 32-bit words of the data, by their offset on a little-endian machine. -/
def SeccompData.load (data : SeccompData) (offset : BitVec 32) : BitVec 32 :=
  if offset = 0 then data.nr
  else if offset = 4 then data.arch
  else if offset = 8 then data.instructionPointer.truncate 32
  else if offset = 12 then (data.instructionPointer >>> 32).truncate 32
  else data.args offset

/-- `struct sock_fprog`, whose length has 16 bits. -/
structure SockFprog where
  len : BitVec 16
  filter : List Statement

/-- The global configuration of the builder. -/
structure SeccompConfig where
  excludeLibc : Bool
  libcStart : BitVec 64
  libcEnd : BitVec 64

section Builder

variable (realloc : ℕ → Bool)

/-- Allocate an empty filter. -/
def newProgramFilter : Except ℤ SockFprog :=
  if realloc 0 then .ok ⟨0, []⟩ else .error (-enomem)

/-- Append statements to the filter. -/
def addStatements (program : SockFprog) (statements : List Statement) : Except ℤ SockFprog :=
  if realloc (program.filter.length + statements.length) then
    .ok { program with filter := program.filter ++ statements }
  else .error (-enomem)

/-- Append the statements that notify the tracer about `syscall`. -/
def addTraceSyscall (program : SockFprog) (syscall : ℕ) (flag : ℕ) : Except ℤ SockFprog :=
  if syscall > 2 ^ 32 - 1 then .error (-erange)
  else
    addStatements realloc program
      [.jump .eq (BitVec.ofNat 32 syscall) 0 1, .ret (seccompRetTrace + BitVec.ofNat 32 flag)]

/-- `LENGTH_TRACE_SYSCALL`. -/
def lengthTraceSyscall : ℕ := 2

/-- `LENGTH_END_SECTION`. -/
def lengthEndSection : ℕ := 1

/-- Append the statement that allows anything unfiltered, and check the section's length. -/
def endArchSection (program : SockFprog) (nbTracedSyscalls : ℕ) : Except ℤ SockFprog := do
  let program ← addStatements realloc program [.ret seccompRetAllow]
  if program.filter.length - program.len.toNat ≠
      lengthEndSection + nbTracedSyscalls * lengthTraceSyscall then .error (-erange)
  else .ok program

/-- The opening statements of a section of `sectionLength` statements for `arch`. -/
def startStatements (config : SeccompConfig) (arch : BitVec 32) (sectionLength : ℕ) :
    List Statement :=
  if config.excludeLibc then
    [.load 4,
     .jump .eq arch 1 0,
     .ja 4,
     .load 8,
     .jump .gt (config.libcEnd.truncate 32) 0 1,
     .ja 2,
     .jump .ge (config.libcStart.truncate 32) 0 1,
     .ja (BitVec.ofNat 32 sectionLength),
     .load 0]
  else
    [.load 4,
     .jump .eq arch 1 0,
     .ja (BitVec.ofNat 32 (sectionLength + 1)),
     .load 0]

/-- Append the statements that check the architecture, and remember the length so far. -/
def startArchSection (config : SeccompConfig) (program : SockFprog) (arch : BitVec 32)
    (nbTracedSyscalls : ℕ) : Except ℤ SockFprog :=
  let sectionLength := lengthEndSection + nbTracedSyscalls * lengthTraceSyscall
  if sectionLength > 2 ^ 32 - 1 - 1 then .error (-erange)
  else do
    let program ← addStatements realloc program (startStatements config arch sectionLength)
    .ok { program with len := BitVec.ofNat 16 program.filter.length }

/-- Append the statement that forbids anything unhandled, and set the final length. -/
def finalizeProgramFilter (program : SockFprog) : Except ℤ SockFprog := do
  let program ← addStatements realloc program [.ret seccompRetKill]
  .ok { program with len := BitVec.ofNat 16 program.filter.length }

variable (t : Target)

/-- The entries before the `PR_void` that ends the array. -/
def untilVoid (sysnums : List FilteredSysnum) : List FilteredSysnum :=
  sysnums.takeWhile (·.value ≠ .void)

/-- The first pass: the number of traced syscalls of the ABIs. -/
def nbTracedSyscalls (abis : List Abi) (sysnums : List FilteredSysnum) : ℕ :=
  (abis.map fun abi => (untilVoid sysnums).countP fun entry =>
    detranslateSysnum t abi entry.value ≠ t.syscallAvoider).sum

/-- The second pass: trace every listed syscall that the ABIs have. -/
def addTraceSyscalls (abis : List Abi) (sysnums : List FilteredSysnum) (program : SockFprog) :
    Except ℤ SockFprog :=
  abis.foldlM (fun program abi =>
    (untilVoid sysnums).foldlM (fun program entry =>
      let syscall := detranslateSysnum t abi entry.value
      if syscall = t.syscallAvoider then .ok program
      else addTraceSyscall realloc program syscall entry.flags) program) program

/-- The section of one architecture. -/
def addArchSection (config : SeccompConfig) (sysnums : List FilteredSysnum)
    (program : SockFprog) (arch : SeccompArch) : Except ℤ SockFprog := do
  let nb := nbTracedSyscalls t arch.abis sysnums
  let program ← startArchSection realloc config program arch.value nb
  let program ← addTraceSyscalls realloc t arch.abis sysnums program
  endArchSection realloc program nb

/-- The program that `set_seccomp_filters` builds before it installs it. -/
def seccompProgram (config : SeccompConfig) (sysnums : List FilteredSysnum) :
    Except ℤ SockFprog := do
  let program ← newProgramFilter realloc
  let program ← t.seccompArchs.foldlM (addArchSection realloc t config sysnums) program
  finalizeProgramFilter realloc program

/-- Build the filter and install it by the two `prctl` calls. -/
def setSeccompFilters (setNoNewPrivs : Except ℤ Unit) (setSeccomp : SockFprog → Except ℤ Unit)
    (config : SeccompConfig) (sysnums : List FilteredSysnum) : Except ℤ Unit := do
  let program ← seccompProgram realloc t config sysnums
  setNoNewPrivs
  setSeccomp program

end Builder

end Abyss
