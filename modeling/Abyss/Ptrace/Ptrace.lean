import Abyss.Ptrace.Wait

/-!
# Emulating ptrace requests

The translation of `ptrace.c`. A request either declares or attaches a ptracee, or acts on a
stopped one; the latter requests are those that only look at or change the process, which are
passed to the host with a copy from or to the memory of the ptracer, and those that resume it.
-/

namespace Abyss

open Machine

/-- `ENOMEM`, `ENOTSUP` and `ENOSYS` are shared by the translations of several syscalls. -/
def enotsup : ℤ := 95

/-- `ENOSYS`. -/
def enosys : ℤ := 38

/-! ## Requests by number -/

/-- `PTRACE_TRACEME`. -/
def ptraceTraceme : ℕ := 0

/-- `PTRACE_PEEKTEXT`. -/
def ptracePeektext : ℕ := 1

/-- `PTRACE_PEEKDATA`. -/
def ptracePeekdata : ℕ := 2

/-- `PTRACE_PEEKUSER`. -/
def ptracePeekuser : ℕ := 3

/-- `PTRACE_POKETEXT`. -/
def ptracePoketext : ℕ := 4

/-- `PTRACE_POKEDATA`. -/
def ptracePokedata : ℕ := 5

/-- `PTRACE_POKEUSER`. -/
def ptracePokeuser : ℕ := 6

/-- `PTRACE_CONT`. -/
def ptraceCont : ℕ := 7

/-- `PTRACE_KILL`. -/
def ptraceKill : ℕ := 8

/-- `PTRACE_SINGLESTEP`. -/
def ptraceSinglestep : ℕ := 9

/-- `PTRACE_GETREGS`. -/
def ptraceGetregs : ℕ := 12

/-- `PTRACE_SETREGS`. -/
def ptraceSetregs : ℕ := 13

/-- `PTRACE_GETFPREGS`. -/
def ptraceGetfpregs : ℕ := 14

/-- `PTRACE_SETFPREGS`. -/
def ptraceSetfpregs : ℕ := 15

/-- `PTRACE_ATTACH`. -/
def ptraceAttach : ℕ := 16

/-- `PTRACE_DETACH`. -/
def ptraceDetach : ℕ := 17

/-- `PTRACE_SET_SYSCALL`. -/
def ptraceSetSyscall : ℕ := 23

/-- `PTRACE_SYSCALL`. -/
def ptraceSyscall : ℕ := 24

/-- `PTRACE_SINGLEBLOCK`. -/
def ptraceSingleblock : ℕ := 33

/-- `PTRACE_SETOPTIONS`. -/
def ptraceSetoptions : ℕ := 0x4200

/-- `PTRACE_GETEVENTMSG`. -/
def ptraceGeteventmsg : ℕ := 0x4201

/-- `PTRACE_GETSIGINFO`. -/
def ptraceGetsiginfo : ℕ := 0x4202

/-- `PTRACE_SETSIGINFO`. -/
def ptraceSetsiginfo : ℕ := 0x4203

/-- `PTRACE_GETREGSET`. -/
def ptraceGetregset : ℕ := 0x4204

/-- `PTRACE_SETREGSET`. -/
def ptraceSetregset : ℕ := 0x4205

section Requests

variable (s : Setup)

/-- Ask the host and give its error back, or go on with its reply. -/
def askOrReturn (c : Call) (next : Reply → Prog ℤ) : Prog ℤ := do
  let reply ← ask s c
  if reply.status < 0 then pure reply.status else next reply

/-- Ask the host and give -1 back on errors, as a few requests do. -/
def askOrFail (c : Call) (next : Reply → Prog ℤ) : Prog ℤ := do
  let reply ← ask s c
  if reply.status < 0 then pure (-1) else next reply

/-- `convert_user_offset` and its kin are not supported by the processors of this library. -/
def convertUser (m : Mode) : Prog Unit := assert !m.is32on64

/-- `sizeof_word`. -/
def sizeofWord (s : Setup) (m : Mode) : ℕ :=
  if m.is32on64 then s.target.wordBits / 16 else s.target.wordBits / 8

/-- The requests that leave the ptracee stopped, except for `PTRACE_SETOPTIONS`. -/
def passiveRequest (ptracer : Ref) (request : ℕ) (pid : ℤ) (address data : ℕ) : Prog ℤ := do
  let p ← tracee ptracer
  let m := p.mode s.target
  let forward : Call := .ptrace request pid address data
  let done : Reply → Prog ℤ := fun _ => pure 0
  if request = ptraceGeteventmsg then
    askOrReturn s forward fun reply => askOrReturn s (.pokeWord p.pid data reply.value) done
  else if request = ptracePeekuser then do
    convertUser m
    askOrReturn s forward fun reply => askOrReturn s (.pokeWord p.pid data reply.value) done
  else if request = ptracePeektext ∨ request = ptracePeekdata then
    askOrReturn s forward fun reply => askOrReturn s (.pokeWord p.pid data reply.value) done
  else if request = ptracePokeuser then do
    convertUser m
    askOrReturn s forward done
  else if request = ptracePoketext ∨ request = ptracePokedata then
    if m.is32on64 then
      askOrReturn s (.ptrace ptracePeekdata pid address 0) fun reply =>
        askOrReturn s (.ptrace request pid address
          (data ||| (reply.value / 2 ^ 32 * 2 ^ 32))) done
    else askOrReturn s forward done
  else if request = ptraceGetsiginfo then
    askOrReturn s forward fun _ => askOrReturn s (.writeData p.pid data) done
  else if request = ptraceSetsiginfo then
    askOrReturn s (.readData p.pid data) fun _ => askOrReturn s forward done
  else if request = ptraceGetregs then
    askOrReturn s forward fun _ => do
      convertUser m
      askOrReturn s (.writeData p.pid data) done
  else if request = ptraceSetregs then
    askOrReturn s (.readData p.pid data) fun _ => do
      convertUser m
      askOrReturn s forward done
  else if request = ptraceGetfpregs then
    askOrReturn s forward fun _ => askOrReturn s (.writeData p.pid data) done
  else if request = ptraceSetfpregs then
    askOrReturn s (.readData p.pid data) fun _ =>
      if m.is32on64 then pure (-enotsup) else askOrReturn s forward done
  else if request = ptraceGetregset then
    askOrReturn s (.peekWord p.pid data) fun base =>
      askOrReturn s (.peekWord p.pid (data + sizeofWord s m)) fun length =>
        askOrReturn s .alloc fun _ =>
          askOrFail s (.ptrace request pid address length.value) fun _ =>
            askOrReturn s (.writeData p.pid base.value) fun _ =>
              askOrReturn s (.pokeWord p.pid (data + sizeofWord s m) length.value) done
  else if request = ptraceSetregset then
    askOrReturn s (.peekWord p.pid data) fun base =>
      askOrReturn s (.peekWord p.pid (data + sizeofWord s m)) fun length =>
        askOrReturn s .alloc fun _ =>
          askOrReturn s (.readData p.pid base.value) fun _ =>
            askOrFail s (.ptrace request pid address length.value) done
  else if request = ptraceSetSyscall then askOrReturn s forward done
  else pure (-enotsup)

/-- Declare the caller a ptracee of its parent. -/
def tracemeRequest (r : Ref) : Prog ℤ := do
  let t ← tracee r
  let parent := t.parent
  if t.asPtracee.ptracer ≠ none ∨ parent = some r then pure (-eperm)
  else do
    attachToPtracer r parent
    let ptracer ← deref parent
    let p ← tracee ptracer
    -- The ptracer may have gone to wait before this request.
    when (p.asPtracer.waitsIn = .waitsInKernel) do
      let reply ← ask s (.kill p.pid Abyss.sigstop)
      when (0 ≤ reply.status) do
        update ptracer fun t =>
          { t with sigstop := .ignored
                   asPtracer := { t.asPtracer with waitsIn := .waitsInProot } }
    update r fun t => { t with seccomp := if t.seccomp = .enabled then .disabling else t.seccomp }
    pure 0

/-- Attach to a process. -/
def attachRequest (ptracer : Ref) (pid : ℤ) : Prog ℤ := do
  match ← getTracee s (some ptracer) pid false with
  | none => pure (-esrch)
  | some ptracee => do
    let t ← tracee ptracee
    if t.asPtracee.ptracer ≠ none ∨ ptracee = ptracer then pure (-eperm)
    else do
      attachToPtracer ptracee (some ptracer)
      let _ ← ask s (.kill pid Abyss.sigstop)
      pure 0

/-- Handle the initial event of a ptracee and restart it; a signal forced by the ptracer
overrides the one computed from the event. -/
def resumePtracee (handle : Ref → ℤ → Prog ℤ) (ptracee : Ref) (forcedSignal status : ℤ) :
    Prog ℤ := do
  let t ← tracee ptracee
  let signal ←
    (if t.asPtracee.proot.pending then handle ptracee t.asPtracee.proot.value
    else pure t.asPtracee.proot.value)
  let _ ← restartTracee s ptracee (if forcedSignal ≠ -1 then forcedSignal else signal)
  pure status

/-- A request about a stopped ptracee. -/
def ptraceeRequest (handle : Ref → ℤ → Prog ℤ) (ptracer ptracee : Ref) (request : ℕ) (pid : ℤ)
    (address data : ℕ) : Prog ℤ :=
  if request = ptraceSyscall then do
    update ptracee fun t => { t with asPtracee := { t.asPtracee with ignoreSyscalls := false } }
    resumePtracee s handle ptracee (toInt data) 0
  else if request = ptraceCont then do
    update ptracee fun t => { t with asPtracee := { t.asPtracee with ignoreSyscalls := true } }
    resumePtracee s handle ptracee (toInt data) 0
  else if request = ptraceSinglestep then do
    update ptracee fun t => { t with restartHow := .singlestep }
    resumePtracee s handle ptracee (toInt data) 0
  else if request = ptraceSingleblock then do
    update ptracee fun t => { t with restartHow := .singleblock }
    resumePtracee s handle ptracee (toInt data) 0
  else if request = ptraceDetach then do
    detachFromPtracer ptracee
    resumePtracee s handle ptracee (-1) 0
  else if request = ptraceKill then do
    let reply ← ask s (.ptrace request pid 0 0)
    resumePtracee s handle ptracee (-1) (if reply.status < 0 then -1 else reply.status)
  else if request = ptraceSetoptions then
    if data &&& ptraceOSeccomp ≠ 0 then pure (-einval)
    else do
      update ptracee fun t => { t with asPtracee := { t.asPtracee with options := data } }
      pure 0
  else passiveRequest s ptracer request pid address data

/-- Emulate the ptrace syscall of a tracee. -/
def translatePtraceExit (handle : Ref → ℤ → Prog ℤ) (r : Ref) : Prog ℤ := do
  let request ← peek s r .original .sysarg1
  let pidWord ← peek s r .original .sysarg2
  let address ← peek s r .original .sysarg3
  let data ← peek s r .original .sysarg4
  let t ← tracee r
  -- The special value keeps its sign in a 32-bit process.
  let pidWord :=
    if (t.mode s.target).is32on64 ∧ pidWord = 0xFFFFFFFF then s.target.syscallAvoider else pidWord
  let pid := toInt pidWord
  if request = ptraceTraceme then tracemeRequest s r
  else if request = ptraceAttach then attachRequest s r pid
  else do
    let w ← read
    match getStoppedPtracee w r pid false (2 ^ 30) with
    | none => pure (-esrch)
    | some ptracee =>
      let e := (w.heap ptracee).asPtracee
      if e.isZombie ∨ e.ptracer ≠ some r ∨ pidWord = s.target.syscallAvoider then pure (-esrch)
      else ptraceeRequest s handle r ptracee request pid address data

end Requests

end Abyss
