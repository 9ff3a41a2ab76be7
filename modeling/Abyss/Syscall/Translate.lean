import Abyss.Ptrace.Ptrace
import Abyss.Syscall.Seccomp

/-!
# The two stages of a syscall

The translation of `syscall.c`, `enter.c`, `exit.c`, `chain.c` and of the parts of `execve/`
that decide how an `execve` goes on. The stage is chosen by the status that the previous stage
left behind: the enter stage saves the registers, calls the user and translates the arguments,
the exit stage calls the user and translates the results.
-/

namespace Abyss

open Machine

/-- `EISDIR`. -/
def eisdir : ℤ := 21

/-- `EACCES`. -/
def eacces : ℤ := 13

/-- `AT_FDCWD`. -/
def atFdcwd : ℤ := -100

/-- `PR_SET_DUMPABLE`. -/
def prSetDumpable : ℕ := 4

section Translate

variable (s : Setup)

/-! ## execve -/

/-- `IS_NOTIFICATION_PTRACED_LOAD_DONE`. -/
def isNotificationPtracedLoadDone (r : Ref) : Prog Bool := do
  let t ← tracee r
  let arg := peekReg (t.mode s.target) t.regs .original
  pure (t.asPtracee.ptracer.isSome && arg .sysarg1 = 1 && arg .sysarg4 = 2 &&
    arg .sysarg5 = 3 && arg .sysarg6 = 4)

/-- Extract what is needed of an executable and of its interpreter; each reply tells whether
there is an interpreter by bit 1 and whether the ELF header is a 32-bit one by bit 0. -/
def extractLoadInfos (r : Ref) : Prog ℤ := do
  let reply ← ask s .extractLoadInfo
  update r fun t => { t with loadInfo := some ⟨reply.value.testBit 0⟩ }
  if reply.status < 0 then pure reply.status
  else if reply.value.testBit 1 then
    askOrReturn s .extractLoadInfo fun interp =>
      pure (if interp.value.testBit 1 then -einval else 0)
  else pure 0

/-- `get_sysarg_path`: the size of the path that an argument points to, which the host copies from
the process, or an error. -/
def sysargPath (r : Ref) (reg : Reg) : Prog ℤ := do
  let address ← peek s r .current reg
  let t ← tracee r
  let path ← (if address = 0 then pure {} else ask s (.readPath t.pid address))
  pure path.status

/-- Translate the arguments of `execve`. -/
def translateExecveEnter (r : Ref) : Prog ℤ := do
  if ← isNotificationPtracedLoadDone s r then do
    update r fun t => { t with asPtracee := { t.asPtracee with ignoreLoaderSyscalls := false } }
    pokeSysnum s r .void
    pure 0
  else do
    let path ← sysargPath s r .sysarg1
    if path < 0 then pure path
    else do
      let rawPath ← ask s .alloc
      if rawPath.status < 0 then pure (-enomem)
      else do
        let shebang ← ask s .expandShebang
        if shebang.status < 0 then
          pure (if shebang.status = -eisdir then -eacces else shebang.status)
        else do
          update r fun t => { t with loadInfo := none }
          let info ← ask s .alloc
          if info.status < 0 then pure (-enomem)
          else do
            update r fun t => { t with loadInfo := some {} }
            let hostPath ← ask s .alloc
            if hostPath.status < 0 then pure (-enomem)
            else do
              let userPath ← ask s .alloc
              if userPath.status < 0 then pure (-enomem) else extractLoadInfos s r

/-- What an `execve` leaves to do at its exit. -/
def translateExecveExit (r : Ref) : Prog Unit := do
  if ← isNotificationPtracedLoadDone s r then do
    poke s r .sysargResult 0
    pokeSysnum s r .execve
    poke s r .stackPointer (← peek s r .original .sysarg2)
    poke s r .instrPointer (← peek s r .original .sysarg3)
    poke s r .rtldFini 0
    poke s r .stateFlags 0
    update r fun t => { t with regs := { saveOriginalRegs t.regs with wereChanged := true } }
    let t ← tracee r
    let _ ← ask s (.readData t.pid 0)
    when (t.asPtracee.options &&& ptraceOExec = 0) do
      let _ ← ask s (.kill t.pid sigtrap)
  else
    match s.target.cpu with
    | .armEabi => pure ()
    | .arm64 => do
      let t ← tracee r
      match t.loadInfo with
      | none => fault .nullPointer
      | some info => update r fun t => { t with isAarch32 := info.isClass32 }

/-! ## The enter stage -/

/-- Translate the arguments of `execveat`, which becomes an `execve` of the same file. -/
def translateExecveatEnter (r : Ref) : Prog ℤ := do
  if toInt (← peek s r .current .sysarg1) = atFdcwd then do
    pokeSysnum s r .execve
    poke s r .sysarg1 (← peek s r .current .sysarg2)
    poke s r .sysarg2 (← peek s r .current .sysarg3)
    poke s r .sysarg3 (← peek s r .current .sysarg4)
    translateExecveEnter s r
  else pure (-enosys)

/-- Translate the ptrace syscall into a void one, since it cannot be nested. -/
def translatePtraceEnter (r : Ref) : Prog ℤ := do
  pokeSysnum s r .void
  pure 0

/-- Look at the path of `openat`, which is not translated; without it the syscall fails. -/
def translateOpenatEnter (r : Ref) : Prog ℤ := sysargPath s r .sysarg2

/-- Prevent tracees from setting the dumpable flag, which could break the access to their memory. -/
def translatePrctlEnter (r : Ref) : Prog ℤ := do
  when ((← peek s r .current .sysarg1) = prSetDumpable) (pokeSysnum s r .void)
  pure 0

/-- Translate the arguments of the current syscall. -/
def translateSyscallEnter (r : Ref) : Prog ℤ := do
  match ← sysnumOf s r .original with
  | .execve => translateExecveEnter s r
  | .execveat => translateExecveatEnter s r
  | .ptrace => translatePtraceEnter s r
  | .wait4 => translateWaitEnter s r
  | .waitpid => translateWaitEnter s r
  | .openat => translateOpenatEnter s r
  | .prctl => translatePrctlEnter s r
  | _ => pure 0

/-- The pid that the callbacks are told: that of the parent, if it is known. -/
def callbackPid (r : Ref) : Prog ℤ := do
  let w ← read
  let t := w.heap r
  pure (match t.parent with
    | some parent => (w.heap parent).pid
    | none => t.pid)

/-- Let the user's callback change the current registers. -/
def applyPokes (r : Ref) (pokes : List (Reg × ℕ)) : Prog Unit :=
  forEach (fun p => poke s r p.1 p.2) pokes

/-- Call the user at the entry of a syscall, and keep the context it stores. -/
def callOnSysenter (r : Ref) : Prog Unit :=
  when s.hasOnSysenter do
    let sysnum ← sysnumOf s r .current
    let pid ← callbackPid r
    let reply ← ask s (.onSysenter r pid sysnum)
    applyPokes s r reply.pokes
    update r fun t => { t with userContextData := reply.value }
    mark (.contextStored r sysnum reply.value)

/-- Save the registers, call the user and translate the arguments. -/
def translateRequestedEnter (r : Ref) : Prog ℤ := do
  update r fun t => { t with regs := saveOriginalRegs t.regs }
  callOnSysenter s r
  let status ← translateSyscallEnter s r
  update r fun t => { t with regs := saveModifiedRegs t.regs }
  pure status

/-- Remember how the enter stage ended, and cancel the syscall on an error. -/
def finishEnter (r : Ref) (status : ℤ) : Prog Unit := do
  (if status < 0 then do
    pokeSysnum s r .void
    poke s r .sysargResult (toWord s.target status)
    update r fun t => { t with status := status }
  else update r fun t => { t with status := 1 })
  let t ← tracee r
  -- Without an exit stage the stack pointer is restored now.
  when (t.restartHow = .cont) do
    update r fun t => { t with status := 0 }
    poke s r .stackPointer (← peek s r .original .stackPointer)

/-- The enter stage. -/
def enterStage (r : Ref) : Prog Unit := do
  mark (.enterStage r)
  update r fun t => { t with regs := { t.regs with restoreOriginal := false } }
  let t ← tracee r
  let status ←
    (if t.chain.syscalls = .null then translateRequestedEnter s r
    else do
      update r fun t => { t with restartHow := .syscall }
      pure 0)
  finishEnter s r status

/-! ## The exit stage -/

/-- Translate the result of a wait, if it was not let through to the kernel. -/
def translateEmulatedWait (handle : Ref → ℤ → Prog ℤ) (r : Ref) : Prog Unit := do
  let t ← tracee r
  when (t.asPtracer.waitsIn = .waitsInProot) do
    let (status, setResult) ← translateWaitExit s handle r
    when setResult (poke s r .sysargResult (toWord s.target status))

/-- Translate the results of the current syscall. -/
def translateSyscallExit (handle : Ref → ℤ → Prog ℤ) (r : Ref) : Prog Unit := do
  let t ← tracee r
  if t.status < 0 then poke s r .sysargResult (toWord s.target t.status)
  else do
    match ← sysnumOf s r .original with
    | .execve => translateExecveExit s r
    | .ptrace => do
      let status ← translatePtraceExit s handle r
      poke s r .sysargResult (toWord s.target status)
    | .wait4 => translateEmulatedWait s handle r
    | .waitpid => translateEmulatedWait s handle r
    | _ => pure ()

/-- Call the user at the exit of a syscall with the context stored at its entry. -/
def callOnSysexit (r : Ref) : Prog Unit :=
  when s.hasOnSysexit do
    let sysnum ← sysnumOf s r .current
    let pid ← callbackPid r
    let t ← tracee r
    let reply ← ask s (.onSysexit r pid sysnum t.userContextData)
    applyPokes s r reply.pokes

/-- Forge the next chained syscall, or force the final result after the last one. -/
def chainNextSyscall (r : Ref) : Prog Unit := do
  let t ← tracee r
  match t.chain.syscalls with
  | .null => fault .assertion
  | .freed => fault .useAfterFree
  | .queue [] => do
    update r fun t => { t with chain := { t.chain with syscalls := .freed } }
    when t.chain.forceFinalResult (poke s r .sysargResult t.chain.finalResult)
    update r fun t =>
      { t with chain := { t.chain with forceFinalResult := false, finalResult := 0 } }
  | .queue (next :: rest) => do
    update r fun t =>
      { t with regs := { t.regs with restoreOriginal := false }
               chain := { t.chain with syscalls := .queue rest } }
    poke s r .sysarg1 (next.sysargs.getD 0 0)
    poke s r .sysarg2 (next.sysargs.getD 1 0)
    poke s r .sysarg3 (next.sysargs.getD 2 0)
    poke s r .sysarg4 (next.sysargs.getD 3 0)
    poke s r .sysarg5 (next.sysargs.getD 4 0)
    poke s r .sysarg6 (next.sysargs.getD 5 0)
    pokeSysnum s r next.sysnum
    update r fun t =>
      { t with regs := rewindInstrPointer s.target (t.mode s.target) t.regs }

/-- The exit stage. -/
def exitStage (handle : Ref → ℤ → Prog ℤ) (r : Ref) : Prog Unit := do
  mark (.exitStage r)
  update r fun t => { t with regs := { t.regs with restoreOriginal := true } }
  callOnSysexit s r
  let t ← tracee r
  when (t.chain.syscalls = .null) (translateSyscallExit s handle r)
  update r fun t => { t with status := 0 }
  let t ← tracee r
  when (t.chain.syscalls ≠ .null) (chainNextSyscall s r)

/-- Translate the current syscall of a tracee, at its entry or at its exit. -/
def translateSyscall (handle : Ref → ℤ → Prog ℤ) (r : Ref) : Prog Unit := do
  let t ← tracee r
  let fetched ← fetchRegs s r
  if fetched < 0 then mark (.unreadable r)
  else do
    (if t.isInSysenter then enterStage s r else exitStage s handle r)
    let _ ← pushRegs s r

end Translate

end Abyss
