import Abyss.Syscall.Translate

/-!
# The event loop

The translation of `event.c` and of `new_child`. The loop handles one wait status after the
other; handling a status may handle a deferred status of an emulated ptracee on the way, which
is where the recursion of the modules below is tied. The fuel bounds the depth of that
recursion, not the length of a run.
-/

namespace Abyss

open Machine

/-- `CLONE_PTRACE`. -/
def clonePtrace : ℕ := 0x2000

/-- `CLONE_VFORK`. -/
def cloneVfork : ℕ := 0x4000

/-- `CLONE_PARENT`. -/
def cloneParent : ℕ := 0x8000

/-- `CLONE_THREAD`. -/
def cloneThread : ℕ := 0x10000

/-- The option by which a ptracer asks for the children made with these flags. -/
def childOption (cloneFlags : ℕ) : ℕ :=
  if cloneFlags = 0 then ptraceOFork
  else if (cloneFlags &&& 0xff : ℕ) = sigchld then ptraceOFork
  else if cloneFlags &&& cloneVfork ≠ 0 then ptraceOVfork
  else ptraceOClone

/-- What a child takes over from its parent, whatever its own record says. -/
def inherit (cpu : Cpu) (parent : Ref) (p : Tracee) (cloneFlags : ℕ) (child : Tracee) : Tracee :=
  { child with
    seccomp := p.seccomp
    sysexitPending := p.sysexitPending
    restartHow := p.restartHow
    isAarch32 := if cpu = .arm64 then p.isAarch32 else child.isAarch32
    parent := if cloneFlags &&& cloneParent ≠ 0 then p.parent else some parent
    clone := cloneFlags &&& cloneThread ≠ 0
    glue := p.glue }

section EventLoop

variable (s : Setup)

/-! ## New children -/

/-- Attach a new child to the ptracer of its parent, if that ptracer asked for it. -/
def inheritPtracer (child : Ref) (p : Tracee) (cloneFlags : ℕ) : Prog Unit :=
  match p.asPtracee.ptracer with
  | none => pure ()
  | some ptracer =>
    when (childOption cloneFlags &&& p.asPtracee.options ≠ 0 ∨ cloneFlags &&& clonePtrace ≠ 0) do
      attachToPtracer child (some ptracer)
      update child fun t =>
        { t with asPtracee := { t.asPtracee with
          options := t.asPtracee.options ||| (p.asPtracee.options &&& 0x7f) } }

/-- Notify the ptracer of a new child that is ready to be traced. -/
def notifyPendingChild (handle : Ref → ℤ → Prog ℤ) (child : Ref) : Prog Bool := do
  let t ← tracee child
  if t.asPtracee.ptracer = none then pure false
  else do
    assert !t.asPtracee.tracingStarted
    let keepStopped ← handlePtraceeEvent s handle child (wStopcode Abyss.sigstop)
    update child fun t => { t with asPtracee := { t.asPtracee with proot := {} } }
    pure keepStopped

/-- Restart a new child that was kept stopped until its parent's event. -/
def releasePendingChild (handle : Ref → ℤ → Prog ℤ) (child : Ref) : Prog Unit := do
  let t ← tracee child
  when (t.sigstop = .pending) do
    update child fun t => { t with sigstop := .allowed }
    let keepStopped ← notifyPendingChild s handle child
    when (!keepStopped) do
      let _ ← restartTracee s child 0

/-- The flags a child was made with, where the registers of its parent tell them. -/
def actualCloneFlags (parent : Ref) (cloneFlags : ℕ) : Prog ℕ := do
  let status ← fetchRegs s parent
  if status < 0 then pure cloneFlags
  else do
    let sysnum ← sysnumOf s parent .current
    if sysnum = .clone then peek s parent .current .sysarg1 else pure cloneFlags

/-- Make the new child of a tracee inherit from it. -/
def newChild (handle : Ref → ℤ → Prog ℤ) (parent : Ref) (cloneFlags : ℕ) : Prog ℤ := do
  let cloneFlags ← actualCloneFlags s parent cloneFlags
  let p ← tracee parent
  let reply ← ask s (.getEventMsg p.pid)
  if reply.status < 0 ∨ reply.value = 0 then pure reply.status
  else do
    match ← getTracee s (some parent) (toInt reply.value) true with
    | none => pure (-enomem)
    | some child => do
      let c ← tracee child
      assert (c.glue = none && c.parent = none && c.asPtracee.ptracer = none)
      let p ← tracee parent
      update child (inherit s.target.cpu parent p cloneFlags)
      inheritPtracer child p cloneFlags
      releasePendingChild s handle child
      pure 0

/-! ## Handling an event -/

/-- Choose how a tracee is restarted, unless that was set before. -/
def chooseRestart (t : Tracee) : Tracee :=
  if t.restartHow ≠ .none then t
  else
    { t with restartHow := if t.seccomp = .enabled ∧ !t.sysexitPending then .cont else .syscall }

/-- Set the options of the root of a process tree, with seccomp if the host supports it. -/
def setRootOptions (r : Ref) : Prog Unit := do
  update r fun t => { t with deliverSigtrap := true }
  let t ← tracee r
  let reply ← ask s (.setOptions t.pid (defaultPtraceOptions ||| ptraceOSeccomp))
  if reply.status < 0 then do
    update r fun t => { t with seccompEnabled := false }
    let reply ← ask s (.setOptions t.pid defaultPtraceOptions)
    when (reply.status < 0) (fault .exit)
  else update r fun t => { t with seccompEnabled := true }

/-- Enable the acceleration once it is known to be supported. -/
def detectSeccomp (t : Tracee) : Tracee :=
  if !t.seccompDetected && t.seccompEnabled then
    { t with seccomp := .enabled, seccompDetected := true }
  else t

/-- Make sure that the exit of a syscall is hit under seccomp, and its entry afterwards. -/
def expectSysexit (t : Tracee) : Tracee :=
  if t.seccomp ≠ .enabled then t
  else if t.isInSysenter then { t with restartHow := .syscall, sysexitPending := true }
  else { t with restartHow := .cont, sysexitPending := false }

/-- Handle the stop at a syscall. -/
def handleSyscallStop (handle : Ref → ℤ → Prog ℤ) (r : Ref) : Prog Unit := do
  let t ← tracee r
  if t.seccomp = .disabling then
    update r fun t => { t with seccomp := .disabled, status := if t.isInSysenter then 1 else t.status }
  else do
    update r expectSysexit
    translateSyscall s handle r
    update r fun t =>
      if t.seccomp = .disabling then { t with restartHow := .syscall, seccomp := .disabled } else t

/-- Handle the stop at a syscall that the filter asks to be traced. -/
def handleSeccompStop (handle : Ref → ℤ → Prog ℤ) (r : Ref) : Prog Unit := do
  update r detectSeccomp
  let t ← tracee r
  if t.seccomp ≠ .enabled then pure ()
  else do
    let reply ← ask s (.getEventMsg t.pid)
    if reply.status < 0 then mark (.unreadable r)
    else if reply.value &&& filterSysexit = 0 then do
      update r fun t => { t with restartHow := .cont }
      translateSyscall s handle r
      update r fun t => if t.seccomp = .disabling then { t with restartHow := .syscall } else t
    else handleSyscallStop s handle r

/-- Handle a stop; gives the signal to restart the tracee with. -/
def handleStop (handle : Ref → ℤ → Prog ℤ) (r : Ref) (signal : ℤ) : Prog ℤ :=
  match stopKind signal with
  | .trap => do
    let t ← tracee r
    if !t.isRoot || t.deliverSigtrap then pure signal
    else do
      setRootOptions s r
      update r detectSeccomp
      handleSyscallStop s handle r
      pure 0
  | .seccomp => do
    handleSeccompStop s handle r
    pure 0
  | .syscall => do
    handleSyscallStop s handle r
    pure 0
  | .vfork => do
    let _ ← newChild s handle r cloneVfork
    pure 0
  | .fork | .clone => do
    let _ ← newChild s handle r 0
    pure 0
  | .vforkDone | .exec | .exit => pure 0
  | .stop => do
    let t ← tracee r
    if t.sigstop = .ignored then do
      update r fun t => { t with sigstop := .allowed }
      pure 0
    else pure signal
  | .signal => pure signal

/-- The first stop of the root is handled in one go, and no signal is left of it. -/
theorem firstTrap_bind (handle : Ref → ℤ → Prog ℤ) (r : Ref) : (do
    setRootOptions s r
    update r detectSeccomp
    handleSyscallStop s handle r
    pure 0 : Prog ℤ) = (do
    setRootOptions s r
    update r detectSeccomp
    handleSyscallStop s handle r) >>= fun _ => pure 0 := by
  simp only [bind_assoc]

/-- Handle the end of a tracee, or a stop. -/
def handleStatus (handle : Ref → ℤ → Prog ℤ) (r : Ref) (status : ℤ) : Prog ℤ := do
  if wifexited status then do
    modify fun w => { w with lastExitStatus := wexitstatus status }
    terminateTracee s r
    pure 0
  else if wifsignaled status then do
    terminateTracee s r
    pure 0
  else handleStop s handle r (stopSignal status)

/-- A stop is handled as one. -/
theorem handleStatus_stopped {status : ℤ} (h : wifstopped status = true)
    (handle : Ref → ℤ → Prog ℤ) (r : Ref) :
    handleStatus s handle r status = handleStop s handle r (stopSignal status) := by
  have hkilled : ¬wifsignaled status = true := by simp [wifsignaled, h]
  rw [handleStatus, if_neg (by simp [wifexited_of_stopped h]), if_neg hkilled]

/-- Handle a wait status of a tracee; gives the signal to restart it with. -/
def handleTraceeEvent : ℕ → Ref → ℤ → Prog ℤ
  | 0, _, _ => fault .outOfFuel
  | fuel + 1, r, status => do
    mark (.handled r status)
    update r chooseRestart
    let signal ← handleStatus s (handleTraceeEvent fuel) r status
    update r fun t =>
      { t with asPtracee := { t.asPtracee with
        proot := { t.asPtracee.proot with pending := false } } }
    pure signal

/-! ## The loop -/

/-- What happens between two rounds of the loop: the next wait status, or another thread that
asks for a process to be traced. -/
inductive Input where
  | stop (pid status : ℤ)
  | traceNewPid (pid : ℤ)

/-- Attach to the process that another thread asked for. -/
def attachNewRoot : Prog Unit := do
  let w ← read
  let reply ← ask s (.attach w.snewAttachPid)
  if reply.status < 0 then pure ()
  else do
    match ← getTracee s none 0 true with
    | none => pure ()
    | some r => do
      update r fun t =>
        { t with pid := w.snewAttachPid, isRoot := true, deliverSigtrap := false }
      modify fun w => { w with snewAttachPid := -1 }

/-- Deal with the status of a tracee, and restart it unless it is kept stopped. -/
def dispatch (fuel : ℕ) (r : Ref) (status : ℤ) : Prog Unit := do
  update r fun t => { t with running := false }
  mark (.stopped r status)
  let t ← tracee r
  let keepStopped ←
    (if t.asPtracee.ptracer = none then pure false
    else handlePtraceeEvent s (handleTraceeEvent s fuel) r status)
  when (!keepStopped) do
    let signal ← handleTraceeEvent s fuel r status
    let _ ← restartTracee s r signal

/-- One round of the loop. -/
def eventLoop (fuel : ℕ) : Input → Prog Unit
  | .traceNewPid pid => modify fun w => { w with snewAttachPid := pid }
  | .stop pid status => do
    freeTerminatedTracees s (handleTraceeEvent s fuel)
    let w ← read
    let known ← getTracee s none pid false
    if w.snewAttachPid ≠ -1 ∧ wifexited status ∧ wexitstatus status = 255 ∧ known = none then
      attachNewRoot s
    else do
      let r ← getTracee s none pid true
      match r with
      | none => fault .assertion
      | some r => dispatch s fuel r status

end EventLoop

/-! ## Scripted hosts -/

/-- What a host reads out: registers, event messages and contexts in the order they are asked
for, and the restarts that fail, by their position. -/
structure Script where
  banks : List Bank := []
  messages : List ℕ := []
  contexts : List ℕ := []
  failingRestarts : List ℕ := []
  callbacks : Bool := false

/-- The registers at a syscall of the 64-bit processor. -/
def syscallBank (number arg1 arg2 arg3 arg4 : ℕ) : Bank :=
  [(Reg.sysargNum, number), (.sysarg1, arg1), (.sysarg2, arg2), (.sysarg3, arg3),
    (.sysarg4, arg4)].foldl (fun bank p => (Mode.mk .arm64 false).setWord bank p.1 p.2) zeroBank

/-- The calls that a script answers, by their kind. -/
inductive Scripted where
  | bank | message | context | restart
deriving DecidableEq

/-- The kind of a scripted call. -/
def Call.scripted : Call → Option Scripted
  | .getRegs _ => some .bank
  | .getEventMsg _ => some .message
  | .onSysenter .. => some .context
  | .restart .. => some .restart
  | _ => none

/-- The host that plays a script; nothing else fails. -/
def Script.host (script : Script) : Host
  | [] => {}
  | call :: past =>
    let seen := past.countP fun c => c.scripted = call.scripted
    match call.scripted with
    | some .bank => { bank := script.banks.getD seen zeroBank }
    | some .message => { value := script.messages.getD seen 0 }
    | some .context => { value := script.contexts.getD seen 0 }
    | some .restart => { status := if script.failingRestarts.contains seen then -esrch else 0 }
    | none => {}

/-- A 64-bit build whose host plays a script, with both callbacks or none. -/
def Script.setup (script : Script) : Setup :=
  ⟨arm64 fun _ => .void, script.host, script.callbacks, script.callbacks⟩

/-- The outcome of a script for a list of inputs. -/
def Script.play (script : Script) (inputs : List Input) : Except Fault Unit × World :=
  forEach (eventLoop script.setup 3) inputs World.initial

/-- The host whose user sets the same registers at the entry of each syscall. -/
def Setup.poking (s : Setup) (pokes : List (Reg × ℕ)) : Setup :=
  { s with host := fun calls =>
      match calls with
      | .onSysenter .. :: _ => { s.host calls with pokes := pokes }
      | _ => s.host calls }

/-- The outcome of a list of inputs. -/
def Setup.play (s : Setup) (inputs : List Input) : Except Fault Unit × World :=
  forEach (eventLoop s 3) inputs World.initial

/-- A list of inputs that is dealt with to its end is a run. -/
theorem Setup.play_run {s : Setup} {inputs : List Input} (h : (s.play inputs).1.isOk = true) :
    Run (eventLoop s 3) (fun _ _ => True) World.initial (s.play inputs).2 := by
  have hok : s.play inputs = (.ok (), (s.play inputs).2) := by
    refine Prod.ext ?_ rfl
    cases hplay : (s.play inputs).1 with
    | ok => rfl
    | error =>
      rw [hplay] at h
      cases h
  exact Run.start.forEach (fun _ _ => trivial) hok

/-- A script that plays to its end is a run. -/
theorem Script.play_run {script : Script} {inputs : List Input}
    (h : (script.play inputs).1.isOk = true) :
    Run (eventLoop script.setup 3) (fun _ _ => True) World.initial (script.play inputs).2 :=
  Setup.play_run h

/-- A record from a list, or else from a heap. -/
def recordAt (records : List Tracee) (heap : Ref → Tracee) (r : Ref) : Tracee :=
  records.getD r (heap r)

/-- The same world with its records in a list, which is what an evaluation should look into. -/
def World.tidy (w : World) : World :=
  { w with heap := recordAt ((List.range w.next).map w.heap) w.heap }

/-- A tidy world is the same world. -/
theorem World.tidy_eq (w : World) : w.tidy = w := by
  have hheap : recordAt ((List.range w.next).map w.heap) w.heap = w.heap := by
    funext r
    unfold recordAt
    by_cases hr : r < w.next
    · simp [List.getD, hr]
    · simp [List.getD, hr]
  unfold World.tidy
  rw [hheap]

end Abyss
