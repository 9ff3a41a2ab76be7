import Abyss.Library.Machine
import Abyss.Tracee.Reg
import Abyss.Tracee.Status

/-!
# Tracees and the tracer's world

The tracer keeps one record for each process it traces. Records are linked by pointers, so a
record is named by a reference into a heap, and a null pointer is no reference. Everything the
tracer asks from its host is a call whose reply may depend on all calls so far, so a host is a
function of the history. Besides the calls the history keeps marks, which the source does not
have and which only record what the tracer was doing.
-/

namespace Abyss

open Machine

/-- A pointer to a tracee. -/
abbrev Ref := ℕ

/-- Where a ptracer waits. -/
inductive WaitsIn where
  | doesntWait
  | waitsInKernel
  | waitsInProot
deriving DecidableEq

/-- The state of the special handling of `SIGSTOP`. -/
inductive SigstopState where
  | ignored
  | allowed
  | pending
deriving DecidableEq

/-- The state of the seccomp acceleration. -/
inductive Seccomp where
  | disabled
  | disabling
  | enabled
deriving DecidableEq

/-- An event and whether it still has to be dealt with. -/
structure Event where
  value : ℤ := 0
  pending : Bool := false
deriving DecidableEq

/-- Support for ptrace emulation, on the side of the tracer. -/
structure AsPtracer where
  nbPtracees : ℕ := 0
  zombies : List Ref := []
  waitPid : ℤ := 0
  waitOptions : ℕ := 0
  waitsIn : WaitsIn := .doesntWait
deriving DecidableEq

/-- Support for ptrace emulation, on the side of the tracee; `proot` and `event` are the two
records of `event4`. -/
structure AsPtracee where
  ptracer : Option Ref := none
  proot : Event := {}
  event : Event := {}
  tracingStarted : Bool := false
  ignoreLoaderSyscalls : Bool := false
  ignoreSyscalls : Bool := false
  options : ℕ := 0
  isZombie : Bool := false
deriving DecidableEq

/-- A syscall inserted after an actual one. -/
structure ChainedSyscall where
  sysnum : Sysnum
  sysargs : List ℕ
deriving DecidableEq

/-- The list of chained syscalls: none, a queue, or a queue that was freed. -/
inductive ChainedSyscalls where
  | null
  | queue (items : List ChainedSyscall)
  | freed
deriving DecidableEq

/-- The chained syscalls of a tracee and the result forced at their end. -/
structure Chain where
  syscalls : ChainedSyscalls := .null
  forceFinalResult : Bool := false
  finalResult : ℕ := 0
deriving DecidableEq

/-- What `load_info` keeps of an executable for the exit of its `execve`. -/
structure LoadInfo where
  isClass32 : Bool := false
deriving DecidableEq

/-- A zeroed register bank. -/
def zeroBank : Bank := fun _ => 0

/-- The information related to a tracee process. -/
structure Tracee where
  pid : ℤ := 0
  vpid : ℕ := 0
  running : Bool := false
  terminated : Bool := false
  killallOnExit : Bool := false
  parent : Option Ref := none
  clone : Bool := false
  asPtracer : AsPtracer := {}
  asPtracee : AsPtracee := {}
  status : ℤ := 0
  restartHow : Restart := .none
  regs : Regs := ⟨zeroBank, zeroBank, zeroBank, false, false⟩
  sigstop : SigstopState := .ignored
  chain : Chain := {}
  loadInfo : Option LoadInfo := none
  isAarch32 : Bool := false
  userContextData : ℕ := 0
  seccomp : Seccomp := .disabled
  sysexitPending : Bool := false
  glue : Option ℕ := none
  isZombie : Bool := false
  isRoot : Bool := false
  deliverSigtrap : Bool := false
  seccompDetected : Bool := false
  seccompEnabled : Bool := false

/-- `IS_IN_SYSENTER`. -/
def Tracee.isInSysenter (tracee : Tracee) : Bool := tracee.status = 0

/-- What the tracer asks from its host, and the marks kept beside it. -/
inductive Call where
  | restart (how : Restart) (pid signal : ℤ)
  | attach (pid : ℤ)
  | setOptions (pid : ℤ) (options : ℕ)
  | getEventMsg (pid : ℤ)
  | getRegs (pid : ℤ)
  | setSyscall (pid : ℤ) (number : ℕ)
  | setRegs (pid : ℤ) (bank : Bank)
  | ptrace (request : ℕ) (pid : ℤ) (address data : ℕ)
  | kill (pid signal : ℤ)
  | alloc
  | readPath (pid : ℤ) (address : ℕ)
  | expandShebang
  | extractLoadInfo
  | peekWord (pid : ℤ) (address : ℕ)
  | pokeWord (pid : ℤ) (address value : ℕ)
  | pokeInt32 (pid : ℤ) (address : ℕ) (value : ℤ)
  | readData (pid : ℤ) (address : ℕ)
  | writeData (pid : ℤ) (address : ℕ)
  | onSysenter (tracee : Ref) (traceePid : ℤ) (sysnum : Sysnum)
  | onSysexit (tracee : Ref) (traceePid : ℤ) (sysnum : Sysnum) (userContextData : ℕ)
  | stopped (tracee : Ref) (status : ℤ)
  | handled (tracee : Ref) (status : ℤ)
  | enterStage (tracee : Ref)
  | exitStage (tracee : Ref)
  | waking (ptracer ptracee : Ref) (handledFirst : Bool)
  | restarted (tracee : Ref) (how : Restart)
  | created (tracee : Ref)
  | contextStored (tracee : Ref) (sysnum : Sysnum) (userContextData : ℕ)
  | unreadable (tracee : Ref)
  | waitRestarted (ptracer ptracee : Ref)
  | freed (tracee : Ref)

/-- A host's reply: a status that is negative on errors, and what the call reads. -/
structure Reply where
  status : ℤ := 0
  value : ℕ := 0
  bank : Bank := zeroBank
  pokes : List (Reg × ℕ) := []

/-- A host answers the newest call from the history of calls. -/
abbrev Host := List Call → Reply

/-- The build and its environment; the callbacks may be unset. -/
structure Setup where
  target : Target
  host : Host
  hasOnSysenter : Bool
  hasOnSysexit : Bool

/-- The global state of the tracer. -/
structure World where
  heap : Ref → Tracee
  next : Ref
  tracees : List Ref
  nextVpid : ℕ
  lastExitStatus : ℤ
  snewAttachPid : ℤ
  calls : List Call

/-- How a run of the tracer is cut short; the assertion on the number of ptracees is told apart
from the others. -/
inductive Fault where
  | nullPointer
  | useAfterFree
  | assertion
  | noPtracees
  | exit
  | outOfFuel
deriving DecidableEq

/-- A program of the tracer. -/
abbrev Prog (α : Type) := Machine World Fault α

/-- The world before the first event. -/
def World.initial : World where
  heap := fun _ => {}
  next := 0
  tracees := []
  nextVpid := 1
  lastExitStatus := -1
  snewAttachPid := -1
  calls := []

/-- Change one record. -/
def World.update (w : World) (r : Ref) (f : Tracee → Tracee) : World :=
  { w with heap := Function.update w.heap r (f (w.heap r)) }

/-- Remember a call or a mark. -/
def World.log (w : World) (c : Call) : World := { w with calls := c :: w.calls }

/-- The records after one of them was changed. -/
@[simp] theorem World.update_heap (w : World) (r q : Ref) (f : Tracee → Tracee) :
    (w.update r f).heap q = if q = r then f (w.heap r) else w.heap q := by
  by_cases h : q = r
  · subst h
    simp [World.update]
  · simp [World.update, h]

/-- A change of a record leaves the list of tracees alone. -/
@[simp] theorem World.update_tracees (w : World) (r : Ref) (f : Tracee → Tracee) :
    (w.update r f).tracees = w.tracees := rfl

/-- It leaves the history of calls alone. -/
@[simp] theorem World.update_calls (w : World) (r : Ref) (f : Tracee → Tracee) :
    (w.update r f).calls = w.calls := rfl

/-- It adds no record. -/
@[simp] theorem World.update_next (w : World) (r : Ref) (f : Tracee → Tracee) :
    (w.update r f).next = w.next := rfl

/-- A call changes no record. -/
@[simp] theorem World.log_heap (w : World) (c : Call) : (w.log c).heap = w.heap := rfl

/-- It leaves the list of tracees alone. -/
@[simp] theorem World.log_tracees (w : World) (c : Call) : (w.log c).tracees = w.tracees := rfl

/-- It adds no record. -/
@[simp] theorem World.log_next (w : World) (c : Call) : (w.log c).next = w.next := rfl

/-- It is the newest one of the history. -/
@[simp] theorem World.log_calls (w : World) (c : Call) : (w.log c).calls = c :: w.calls := rfl

/-- Two changes of a record are one. -/
theorem World.update_update (w : World) (r : Ref) (f g : Tracee → Tracee) :
    (w.update r f).update r g = w.update r fun t => g (f t) := by
  simp [World.update]

/-- A call and a change may be exchanged. -/
theorem World.log_update (w : World) (r : Ref) (f : Tracee → Tracee) (c : Call) :
    (w.log c).update r f = (w.update r f).log c := rfl

/-- The record that was changed. -/
theorem World.update_self (w : World) (r : Ref) (f : Tracee → Tracee) :
    (w.update r f).heap r = f (w.heap r) := by
  simp

/-! ## Primitive programs -/

/-- Read a record. -/
def tracee (r : Ref) : Prog Tracee := do
  let w ← read
  pure (w.heap r)

/-- Change a record. -/
def update (r : Ref) (f : Tracee → Tracee) : Prog Unit := modify fun w => w.update r f

/-- Leave a mark. -/
def mark (c : Call) : Prog Unit := modify fun w => w.log c

/-- Ask the host. -/
def ask (s : Setup) (c : Call) : Prog Reply := do
  mark c
  let w ← read
  pure (s.host w.calls)

/-- Follow a pointer. -/
def deref : Option Ref → Prog Ref
  | none => fault .nullPointer
  | some r => pure r

/-- `assert`. -/
def assert (c : Bool) : Prog Unit := if c then pure () else fault .assertion

/-- The mode of a tracee. -/
def Tracee.mode (t : Target) (tracee : Tracee) : Mode := ⟨t.cpu, tracee.isAarch32⟩

section Registers

variable (s : Setup)

/-- The cached value of a register of a tracee. -/
def peek (r : Ref) (version : RegVersion) (reg : Reg) : Prog ℕ := do
  let t ← tracee r
  pure (peekReg (t.mode s.target) t.regs version reg)

/-- Set the cached value of a register of a tracee. -/
def poke (r : Ref) (reg : Reg) (value : ℕ) : Prog Unit :=
  update r fun t => { t with regs := pokeReg (t.mode s.target) t.regs reg value }

/-- The neutral value of a tracee's syscall number. -/
def sysnumOf (r : Ref) (version : RegVersion) : Prog Sysnum := do
  let t ← tracee r
  pure (getSysnum s.target (t.mode s.target) t.regs version)

/-- Overwrite a tracee's syscall number. -/
def pokeSysnum (r : Ref) (sysnum : Sysnum) : Prog Unit :=
  update r fun t => { t with regs := setSysnum s.target (t.mode s.target) t.regs sysnum }

/-- Copy the registers of a tracee into its cache. -/
def fetchRegs (r : Ref) : Prog ℤ := do
  let t ← tracee r
  let reply ← ask s (.getRegs t.pid)
  if reply.status < 0 then pure reply.status
  else do
    update r fun t => { t with regs := { t.regs with current := reply.bank } }
    pure 0

/-- Copy the cached registers of a tracee back, if they were changed. -/
def pushRegs (r : Ref) : Prog ℤ := do
  let t ← tracee r
  if t.regs.wereChanged then do
    update r fun t => { t with regs := restoreOriginalRegs (t.mode s.target) t.regs }
    let t ← tracee r
    let m := t.mode s.target
    let currentSysnum := m.word t.regs.current .sysargNum
    if currentSysnum ≠ m.word t.regs.original .sysargNum then do
      let _ ← ask s (.setSyscall t.pid currentSysnum)
      let reply ← ask s (.setRegs t.pid t.regs.current)
      pure (if reply.status < 0 then reply.status else 0)
    else do
      let reply ← ask s (.setRegs t.pid t.regs.current)
      pure (if reply.status < 0 then reply.status else 0)
  else pure 0

end Registers

/-- To read a record does not change the world. -/
theorem tracee_apply (r : Ref) (w : World) : tracee r w = (.ok (w.heap r), w) := rfl

/-- A change of a record always returns. -/
theorem update_apply (r : Ref) (f : Tracee → Tracee) (w : World) :
    update r f w = (.ok (), w.update r f) := rfl

/-- So does a mark. -/
theorem mark_apply (c : Call) (w : World) : mark c w = (.ok (), w.log c) := rfl

/-- To read a register does not change the world. -/
theorem peek_apply (s : Setup) (r : Ref) (version : RegVersion) (reg : Reg) (w : World) :
    peek s r version reg w =
      (.ok (peekReg ((w.heap r).mode s.target) (w.heap r).regs version reg), w) := rfl

/-! ## The lists of tracees -/

/-- `EXPECTED_WAIT_CLONE`: `__WALL` is bit 30 and `__WCLONE` is bit 31. -/
def expectedWaitClone (waitOptions : ℕ) (tracee : Tracee) : Bool :=
  waitOptions.testBit 30 || (waitOptions.testBit 31 == tracee.clone)

/-- Allocate a zeroed record that is in no list. -/
def newDummyTracee (s : Setup) : Prog (Option Ref) := do
  let reply ← ask s .alloc
  if reply.status < 0 then pure none
  else do
    let w ← read
    modify fun w =>
      { w with heap := Function.update w.heap w.next {}, next := w.next + 1 }
    mark (.created w.next)
    pure (some w.next)

/-- Allocate a record for the tracee `pid` and add it to the list of tracees. -/
def newTracee (s : Setup) (pid : ℤ) : Prog (Option Ref) := do
  match ← newDummyTracee s with
  | none => pure none
  | some r => do
    let w ← read
    update r fun t => { t with pid := pid, vpid := w.nextVpid }
    modify fun w => { w with tracees := r :: w.tracees, nextVpid := w.nextVpid + 1 }
    pure (some r)

/-- The entry of the tracee `pid`, which is created on demand. -/
def getTracee (s : Setup) (current : Option Ref) (pid : ℤ) (create : Bool) :
    Prog (Option Ref) := do
  let w ← read
  match current.filter fun r => (w.heap r).pid = pid with
  | some r => pure (some r)
  | none =>
    match w.tracees.find? fun r => (w.heap r).pid = pid with
    | some r => pure (some r)
    | none => if create then newTracee s pid else pure none

/-- The search of `get_ptracee` among the tracees, from the head of the list on. -/
def findPtracee (w : World) (ptracer : Ref) (pid : ℤ) (onlyStopped onlyWithPevent : Bool)
    (waitOptions : ℕ) : List Ref → Option Ref
  | [] => none
  | r :: rest =>
      let ptracee := w.heap r
      if ptracee.asPtracee.ptracer ≠ some ptracer then
        findPtracee w ptracer pid onlyStopped onlyWithPevent waitOptions rest
      else if pid ≠ ptracee.pid ∧ pid ≠ -1 then
        findPtracee w ptracer pid onlyStopped onlyWithPevent waitOptions rest
      else if !expectedWaitClone waitOptions ptracee then
        findPtracee w ptracer pid onlyStopped onlyWithPevent waitOptions rest
      else if !onlyStopped then some r
      else if ptracee.running then
        findPtracee w ptracer pid onlyStopped onlyWithPevent waitOptions rest
      else if ptracee.asPtracee.event.pending || !onlyWithPevent then some r
      else if pid = ptracee.pid then none
      else findPtracee w ptracer pid onlyStopped onlyWithPevent waitOptions rest

/-- The first ptracee of `ptracer` that matches, zombies first. -/
def getPtracee (w : World) (ptracer : Ref) (pid : ℤ) (onlyStopped onlyWithPevent : Bool)
    (waitOptions : ℕ) : Option Ref :=
  match (w.heap ptracer).asPtracer.zombies.find? fun z =>
      (pid = (w.heap z).pid || pid = -1) && expectedWaitClone waitOptions (w.heap z) with
  | some z => some z
  | none => findPtracee w ptracer pid onlyStopped onlyWithPevent waitOptions w.tracees

/-- Only a stopped ptracee. -/
def getStoppedPtracee (w : World) (ptracer : Ref) (pid : ℤ) (onlyWithPevent : Bool)
    (waitOptions : ℕ) : Option Ref :=
  getPtracee w ptracer pid true onlyWithPevent waitOptions

/-- Whether there is a ptracee that matches at all. -/
def hasPtracees (w : World) (ptracer : Ref) (pid : ℤ) (waitOptions : ℕ) : Bool :=
  (getPtracee w ptracer pid false false waitOptions).isSome

/-- Send the `KILL` signal to all tracees. -/
def killAllTracees (s : Setup) : Prog Unit := do
  let w ← read
  forEach (fun r => do let _ ← ask s (.kill (w.heap r).pid sigkill)) w.tracees

/-- Mark a tracee as terminated. -/
def terminateTracee (s : Setup) (r : Ref) : Prog Unit := do
  update r fun t => { t with terminated := true }
  let t ← tracee r
  when t.killallOnExit (killAllTracees s)

/-- Restart a tracee with a signal, unless it waits for a ptracee. -/
def restartTracee (s : Setup) (r : Ref) (signal : ℤ) : Prog Bool := do
  let t ← tracee r
  if t.asPtracer.waitPid ≠ 0 ∨ signal = -1 then pure false
  else do
    let reply ← ask s (.restart t.restartHow t.pid signal)
    if reply.status < 0 then pure false
    else do
      mark (.restarted r t.restartHow)
      update r fun t => { t with restartHow := .none, running := true }
      pure true

/-- The host answers from the history of calls. -/
theorem ask_apply (s : Setup) (c : Call) (w : World) :
    ask s c w = (.ok (s.host (c :: w.calls)), w.log c) := rfl

/-- The world after a record was restarted. -/
def World.restart (w : World) (r : Ref) : World :=
  (w.log (.restarted r (w.heap r).restartHow)).update r fun t =>
    { t with restartHow := .none, running := true }

/-- Restarting a tracee either does nothing, or asks the host and does what it allows. -/
theorem restartTracee_cases (s : Setup) (r : Ref) (signal : ℤ) (w : World) :
    let c : Call := .restart (w.heap r).restartHow (w.heap r).pid signal
    ((w.heap r).asPtracer.waitPid ≠ 0 ∨ signal = -1) ∧ restartTracee s r signal w = (.ok false, w) ∨
      ((w.heap r).asPtracer.waitPid = 0 ∧ signal ≠ -1) ∧ (s.host (c :: w.calls)).status < 0 ∧
        restartTracee s r signal w = (.ok false, w.log c) ∨
      ((w.heap r).asPtracer.waitPid = 0 ∧ signal ≠ -1) ∧ 0 ≤ (s.host (c :: w.calls)).status ∧
        restartTracee s r signal w = (.ok true, (w.log c).restart r) := by
  intro c
  unfold restartTracee
  rw [bind_apply_ok (tracee_apply r w)]
  by_cases h : (w.heap r).asPtracer.waitPid ≠ 0 ∨ signal = -1
  · exact Or.inl ⟨h, congrFun (if_pos h) w⟩
  · have hwait : (w.heap r).asPtracer.waitPid = 0 ∧ signal ≠ -1 := by
      push Not at h
      exact h
    rw [if_neg h, bind_apply_ok (ask_apply s _ w)]
    by_cases hfail : (s.host (c :: w.calls)).status < 0
    · exact Or.inr (Or.inl ⟨hwait, hfail, congrFun (if_pos hfail) _⟩)
    · exact Or.inr (Or.inr ⟨hwait, by omega, congrFun (if_neg hfail) _⟩)

/-- The world after a zeroed record was allocated. -/
def World.allocate (w : World) : World :=
  ({ w with heap := Function.update w.heap w.next {}, next := w.next + 1 }).log (.created w.next)

/-- An allocation either fails, or gives the next record. -/
theorem newDummyTracee_cases (s : Setup) (w : World) :
    newDummyTracee s w = (.ok none, w.log .alloc) ∨
      newDummyTracee s w = (.ok (some w.next), (w.log .alloc).allocate) := by
  unfold newDummyTracee
  rw [bind_apply_ok (ask_apply s _ w)]
  by_cases hfail : (s.host (.alloc :: w.calls)).status < 0
  · exact Or.inl (congrFun (if_pos hfail) _)
  · exact Or.inr (congrFun (if_neg hfail) _)

end Abyss
