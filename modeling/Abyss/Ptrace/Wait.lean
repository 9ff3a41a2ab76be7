import Abyss.Tracee.Tracee

/-!
# Waiting for emulated ptracees

The translation of `wait.c`, with the functions of `tracee.c` and `ptrace.c` that it shares
with the rest of the emulation. Several of these functions handle an event of another tracee;
what they call then is the parameter `handle`, so that the recursion is tied once, where the
event handler itself is defined.
-/

namespace Abyss

open Machine

/-- `ESRCH`. -/
def esrch : ℤ := 3

/-- `EPERM`. -/
def eperm : ℤ := 1

/-- `ECHILD`. -/
def echild : ℤ := 10

/-- `EINVAL`. -/
def einval : ℤ := 22

/-- Set the tracer of a ptracee, and count it. -/
def attachToPtracer (ptracee : Ref) (ptracer : Option Ref) : Prog Unit := do
  update ptracee fun t => { t with asPtracee := { ptracer := ptracer } }
  let ptracer ← deref ptracer
  update ptracer fun t =>
    { t with asPtracer := { t.asPtracer with nbPtracees := t.asPtracer.nbPtracees + 1 } }

/-- Unset the tracer of a ptracee, and do not count it any more. -/
def detachFromPtracer (ptracee : Ref) : Prog Unit := do
  let t ← tracee ptracee
  update ptracee fun t => { t with asPtracee := { t.asPtracee with ptracer := none } }
  let ptracer ← deref t.asPtracee.ptracer
  let t ← tracee ptracer
  when (t.asPtracer.nbPtracees = 0) (fault .noPtracees)
  update ptracer fun t =>
    { t with asPtracer := { t.asPtracer with nbPtracees := t.asPtracer.nbPtracees - 1 } }

section Recursive

variable (s : Setup) (handle : Ref → ℤ → Prog ℤ)

/-- Handle what is left of the event of a ptracee whose ptracer is dead, and restart it. -/
def releaseEvent (ptracee : Ref) : Prog Unit := do
  let t ← tracee ptracee
  if t.asPtracee.proot.pending then do
    let event ← handle ptracee t.asPtracee.proot.value
    let _ ← restartTracee s ptracee event
  else
    when t.asPtracee.event.pending do
      let _ ← restartTracee s ptracee t.asPtracee.proot.value

/-- Orphan the children of a dead tracee, and release a ptracee of it. -/
def releaseRelative (dead relative : Ref) : Prog Unit := do
  update relative fun t => { t with parent := if t.parent = some dead then none else t.parent }
  let t ← tracee relative
  when (t.asPtracee.ptracer = some dead) do
    update relative fun t => { t with asPtracee := { t.asPtracee with ptracer := none } }
    releaseEvent s handle relative
    update relative fun t => { t with asPtracee := {} }

/-- Wake a ptracer that has nothing else to wait for. -/
def wakeLonePtracer (ptracer : Ref) : Prog Unit := do
  let t ← tracee ptracer
  when (t.asPtracer.nbPtracees = 0 ∧ t.asPtracer.waitPid ≠ 0) do
    poke s ptracer .sysargResult (toWord s.target (-echild))
    let _ ← pushRegs s ptracer
    update ptracer fun t => { t with asPtracer := { t.asPtracer with waitPid := 0 } }
    let _ ← restartTracee s ptracer 0

/-- Keep a zombie for a dead ptracee, until its ptracer is notified about its death. -/
def zombify (dead ptracer zombie : Ref) : Prog Unit := do
  let t ← tracee dead
  update ptracer fun t =>
    { t with asPtracer := { t.asPtracer with zombies := zombie :: t.asPtracer.zombies } }
  update zombie fun z =>
    { z with isZombie := true, parent := t.parent, clone := t.clone, pid := t.pid }
  detachFromPtracer dead
  attachToPtracer zombie (some ptracer)
  update zombie fun z =>
    { z with asPtracee :=
      { z.asPtracee with event := ⟨t.asPtracee.event.value, true⟩, isZombie := true } }

/-- Tell the ptracer of a dead ptracee about it, by a zombie if there is an end to report. -/
def leavePtracer (dead ptracer : Ref) : Prog Unit := do
  let t ← tracee dead
  let event := t.asPtracee.event.value
  let zombie ←
    (if t.asPtracee.event.pending && (wifexited event || wifsignaled event) then newDummyTracee s
    else pure none)
  match zombie with
  | some zombie => zombify dead ptracer zombie
  | none => do
    detachFromPtracer dead
    wakeLonePtracer s ptracer

/-- Remove a tracee from the list of tracees, and update its relatives and its ptracer. -/
def removeTracee (dead : Ref) : Prog Unit := do
  modify fun w => { w with tracees := w.tracees.erase dead }
  let w ← read
  forEach (releaseRelative s handle dead) w.tracees
  let t ← tracee dead
  match t.asPtracee.ptracer with
  | none => pure ()
  | some ptracer => leavePtracer s dead ptracer

/-- Remove a zombie from the list it is in. -/
def removeZombie (zombie : Ref) : Prog Unit :=
  modify fun w =>
    { w with heap := fun r =>
      { w.heap r with asPtracer :=
        { (w.heap r).asPtracer with
          zombies := (w.heap r).asPtracer.zombies.erase zombie } } }

/-- What stands in for the destructor of a tracee. -/
def beforeTraceeFree (r : Ref) : Prog Unit := do
  let t ← tracee r
  (if t.isZombie then removeZombie r else removeTracee s handle r)
  mark (.freed r)

/-- Free all tracees marked as terminated. -/
def freeTerminatedTracees : Prog Unit := do
  let w ← read
  forEach (fun r => do
    let t ← tracee r
    when t.terminated (beforeTraceeFree s handle r)) w.tracees

/-- Whether the search for a ptracee finds one of this ptracer. -/
def expectsPtracee (w : World) (ptracer : Ref) (pid : ℤ) (options : ℕ) : Bool :=
  (getPtracee w ptracer pid false true options).any fun r =>
    (w.heap r).asPtracee.ptracer = some ptracer

/-- Cancel a wait syscall, in order to handle it at its exit. -/
def emulateWait (ptracer : Ref) : Prog ℤ := do
  pokeSysnum s ptracer .void
  update ptracer fun t => { t with asPtracer := { t.asPtracer with waitsIn := .waitsInProot } }
  pure 0

/-- Translate a wait syscall into a void one if a ptracee is expected. -/
def translateWaitEnter (ptracer : Ref) : Prog ℤ := do
  update ptracer fun t => { t with asPtracer := { t.asPtracer with waitsIn := .waitsInKernel } }
  let t ← tracee ptracer
  if t.asPtracer.nbPtracees = 0 then pure 0
  else do
    let pid := toInt (← peek s ptracer .original .sysarg1)
    let options ← peek s ptracer .original .sysarg3
    let w ← read
    if pid ≠ -1 ∧ !expectsPtracee w ptracer pid options then pure 0 else emulateWait s ptracer

/-- Whether an event is the end of a ptracee whose parent is its ptracer. -/
def Tracee.endsForParent (ptracee : Tracee) : Bool :=
  let value := ptracee.asPtracee.event.value
  ptracee.asPtracee.ptracer = ptracee.parent && (wifexited value || wifsignaled value)

/-- Leave the end of a ptracee to the kernel: restart the ptracer's wait without the ptracee. -/
def restartWait (ptracer ptracee : Ref) : Prog Unit := do
  mark (.waitRestarted ptracer ptracee)
  update ptracer fun t =>
    { t with regs := restartOriginalSyscall s.target (t.mode s.target) t.regs }
  detachFromPtracer ptracee

/-- Zombies can rest in peace once the ptracer is notified. -/
def freeNotified (ptracee : Ref) : Prog Unit := do
  let t ← tracee ptracee
  when t.asPtracee.isZombie (beforeTraceeFree s handle ptracee)

/-- Update the status of a ptracer's wait for a ptracee: its pid, 0 if the wait is restarted,
or an error. -/
def updateWaitStatus (ptracer ptracee : Ref) : Prog ℤ := do
  let t ← tracee ptracee
  let value := t.asPtracee.event.value
  if t.endsForParent then do
    restartWait s ptracer ptracee
    freeNotified s handle ptracee
    pure 0
  else do
    let address ← peek s ptracer .original .sysarg2
    let p ← tracee ptracer
    let reply ← (if address ≠ 0 then ask s (.pokeInt32 p.pid address value) else pure {})
    if address ≠ 0 ∧ reply.status < 0 then pure reply.status
    else do
      update ptracee fun t =>
        { t with asPtracee := { t.asPtracee with event := { t.asPtracee.event with pending := false } } }
      let t ← tracee ptracee
      when t.asPtracee.isZombie do
        detachFromPtracer ptracee
        beforeTraceeFree s handle ptracee
      pure t.pid

/-- Emulate the wait syscall of a ptracer; the flag tells whether there is a result to set. -/
def translateWaitExit (ptracer : Ref) : Prog (ℤ × Bool) := do
  let t ← tracee ptracer
  assert (t.asPtracer.waitsIn = .waitsInProot)
  update ptracer fun t => { t with asPtracer := { t.asPtracer with waitsIn := .doesntWait } }
  let pid := toInt (← peek s ptracer .original .sysarg1)
  let options ← peek s ptracer .original .sysarg3
  let w ← read
  match getStoppedPtracee w ptracer pid true options with
  | none =>
    if t.asPtracer.nbPtracees = 0 then pure (-echild, true)
    else if options.testBit 0 then
      pure (if hasPtracees w ptracer pid options then 0 else -echild, true)
    else do
      update ptracer fun t =>
        { t with asPtracer := { t.asPtracer with waitPid := pid, waitOptions := options } }
      pure (0, true)
  | some ptracee => do
    let status ← updateWaitStatus s handle ptracer ptracee
    pure (status, status ≠ 0)

/-- Whether an event is passed on at all, and how: nothing if it is not expected for this
ptracee, otherwise the event as the ptracer sees it, and whether it is handled first. -/
def filterEvent (ptracee : Tracee) (event : ℤ) : Option (ℤ × Bool) :=
  match stopKind (stopSignal event) with
  | .syscall =>
    if ptracee.asPtracee.ignoreSyscalls || ptracee.asPtracee.ignoreLoaderSyscalls then none
    else
      some (if ptracee.asPtracee.options &&& ptraceOSysgood = 0 then clearSysgood event else event,
        !ptracee.isInSysenter)
  | .seccomp => none
  | kind =>
    match kind.option with
    | some option =>
      if ptracee.asPtracee.options &&& option = 0 then none else some (event, true)
    | none => some (event, false)

/-- Notify a ptracer about an event, and wake it if it waits for it. -/
def notifyPtracer (ptracer ptracee : Ref) (handledFirst keepStopped : Bool) : Prog Bool := do
  let p ← tracee ptracer
  let _ ← ask s (.kill p.pid sigchld)
  let t ← tracee ptracee
  if (p.asPtracer.waitPid = -1 ∨ p.asPtracer.waitPid = t.pid) ∧
      expectedWaitClone p.asPtracer.waitOptions t then do
    let status ← updateWaitStatus s handle ptracer ptracee
    when (status ≠ 0) (poke s ptracer .sysargResult (toWord s.target status))
    let _ ← pushRegs s ptracer
    update ptracer fun t => { t with asPtracer := { t.asPtracer with waitPid := 0 } }
    mark (.waking ptracer ptracee handledFirst)
    let restarted ← restartTracee s ptracer 0
    pure (keepStopped && restarted)
  else pure keepStopped

/-- Handle an event before the ptracer knows it; the computed signal is expected to be 0. -/
def handleFirst (ptracee : Ref) (event : ℤ) : Prog Unit := do
  let signal ← handle ptracee event
  update ptracee fun t =>
    { t with asPtracee := { t.asPtracee with
      proot := { t.asPtracee.proot with value := signal } } }
  assert (signal = 0)

/-- Pass an event of a ptracee to its ptracer; tells whether the ptracee is kept stopped. -/
def handlePtraceeEvent (ptracee : Ref) (event : ℤ) : Prog Bool := do
  let t ← tracee ptracee
  match t.asPtracee.ptracer with
  | none => fault .assertion
  | some ptracer => do
    update ptracee fun t => { t with asPtracee := { t.asPtracee with proot := ⟨event, true⟩ } }
    match if wifstopped event then filterEvent t event else some (event, false) with
    | none => pure false
    | some (passed, handledFirst) => do
      -- A syscall stop does not start the tracing, any other event does.
      let starts := !wifstopped event || stopKind (stopSignal event) ≠ .syscall
      update ptracee fun t =>
        { t with asPtracee :=
          { t.asPtracee with tracingStarted := t.asPtracee.tracingStarted || starts } }
      if !(t.asPtracee.tracingStarted || starts) then pure false
      else do
        when handledFirst (handleFirst handle ptracee event)
        update ptracee fun t =>
          { t with asPtracee := { t.asPtracee with event := ⟨passed, true⟩ } }
        notifyPtracer s handle ptracer ptracee handledFirst (wifstopped event)

end Recursive

end Abyss
