import Abyss.Tracee.Event

/-!
# The registers of a process during a syscall

The tracer only sees and sets the registers of a stopped process through its host. The register
file of a process is what was last reported or set, and the cache agrees with it whenever a
stage of a syscall is over.
-/

namespace Abyss

open Machine

/-! ## Stages that only touch one record -/

section Stage

variable (s : Setup)

/-- A poke changes the cached registers of its tracee. -/
theorem poke_apply (r : Ref) (reg : Reg) (value : ℕ) (w : World) :
    poke s r reg value w =
      (.ok (), w.update r fun t => { t with regs := pokeReg (t.mode s.target) t.regs reg value }) :=
  rfl

/-- So does a change of the number. -/
theorem pokeSysnum_apply (r : Ref) (sysnum : Sysnum) (w : World) :
    pokeSysnum s r sysnum w =
      (.ok (), w.update r fun t =>
        { t with regs := setSysnum s.target (t.mode s.target) t.regs sysnum }) := rfl

/-- The pokes of a callback are set one after the other. -/
theorem applyPokes_apply (r : Ref) (pokes : List (Reg × ℕ)) (w : World) :
    applyPokes s r pokes w =
      (.ok (), w.update r fun t => { t with regs := pokeAll (t.mode s.target) t.regs pokes }) := by
  induction pokes generalizing w with
  | nil => simp [applyPokes, forEach, pokeAll, World.update]
  | cons p rest ih =>
    rw [applyPokes, forEach, bind_apply_ok (poke_apply ..)]
    exact (ih _).trans (by rw [World.update_update]; rfl)

/-- The world in which the registers of a tracee were fetched. -/
def World.fetched (w : World) (r : Ref) (bank : Bank) : World :=
  (w.log (.getRegs (w.heap r).pid)).update r fun t =>
    { t with regs := { t.regs with current := bank } }

/-- The reply of the host to the request for the registers of a tracee. -/
def fetchReply (r : Ref) (w : World) : Reply := s.host (.getRegs (w.heap r).pid :: w.calls)

/-- The registers are read from the process. -/
theorem fetchRegs_apply {r : Ref} {w : World} (h : 0 ≤ (fetchReply s r w).status) :
    fetchRegs s r w = (.ok 0, w.fetched r (fetchReply s r w).bank) := by
  unfold fetchRegs
  rw [bind_apply_ok (tracee_apply ..), bind_apply_ok (ask_apply ..)]
  exact congrFun (if_neg (by exact not_lt.mpr h)) _

/-- Where this fails nothing is changed. -/
theorem fetchRegs_failed {r : Ref} {w : World} (h : (fetchReply s r w).status < 0) :
    fetchRegs s r w = (.ok (fetchReply s r w).status, w.log (.getRegs (w.heap r).pid)) := by
  unfold fetchRegs
  rw [bind_apply_ok (tracee_apply ..), bind_apply_ok (ask_apply ..)]
  exact congrFun (if_pos h) _

/-! ## The register file -/

/-- The registers of a process as last reported by the host or sent to it. -/
def registerFile (pid : ℤ) : List Call → Bank
  | [] => zeroBank
  | .setRegs p bank :: past => if p = pid then bank else registerFile pid past
  | .getRegs p :: past =>
      if p = pid then (s.host (.getRegs p :: past)).bank else registerFile pid past
  | _ :: past => registerFile pid past

/-- Unless registers were changed, the cache of a tracee is its register file. -/
def Synced (r : Ref) (w : World) : Prop :=
  (w.heap r).regs.wereChanged = false →
    registerFile s (w.heap r).pid w.calls = (w.heap r).regs.current

/-- What the registers of a tracee become when they are pushed. -/
def pushedRegs (t : Tracee) : Regs :=
  if t.regs.wereChanged then restoreOriginalRegs (t.mode s.target) t.regs else t.regs

/-- After a push the cache is the register file, whatever the host answers. -/
theorem pushRegs_registerFile {r : Ref} {w : World} (h : Synced s r w) :
    registerFile s (w.heap r).pid (pushRegs s r w).2.calls = (pushedRegs s (w.heap r)).current := by
  unfold pushRegs
  rw [bind_apply_ok (tracee_apply ..)]
  by_cases hchanged : (w.heap r).regs.wereChanged = true
  · rw [if_pos hchanged, bind_apply_ok (update_apply ..), bind_apply_ok (tracee_apply ..),
      World.update_self, pushedRegs, if_pos hchanged]
    split
    · simp [bind_apply, ask_apply, registerFile]
    · simp [bind_apply, ask_apply, registerFile]
  · rw [if_neg hchanged, pushedRegs, if_neg hchanged]
    exact h (by simpa using hchanged)

/-- A push leaves the record of a tracee with the registers that it has pushed. -/
theorem pushRegs_heap {r : Ref} (w : World) :
    (pushRegs s r w).2.heap r = { w.heap r with regs := pushedRegs s (w.heap r) } := by
  unfold pushRegs pushedRegs
  rw [bind_apply_ok (tracee_apply ..)]
  split
  · rw [bind_apply_ok (update_apply ..), bind_apply_ok (tracee_apply ..)]
    dsimp only
    split
    · simp [bind_apply, ask_apply]
    · simp [bind_apply, ask_apply]
  · rfl

end Stage

/-! ## The exit stage -/

section ExitStage
variable (s : Setup)

/-- The pid that the callbacks are told about a tracee. -/
def callbackPidOf (r : Ref) (w : World) : ℤ :=
  match (w.heap r).parent with
  | some parent => (w.heap parent).pid
  | none => (w.heap r).pid

/-- The pid for the callbacks does not depend on the host. -/
theorem callbackPid_apply (r : Ref) (w : World) :
    callbackPid r w = (.ok (callbackPidOf r w), w) := rfl

/-- The call of the user at the exit of a syscall. -/
def sysexitCall (r : Ref) (w : World) : Call :=
  .onSysexit r (callbackPidOf r w)
    (getSysnum s.target ((w.heap r).mode s.target) (w.heap r).regs .current)
    (w.heap r).userContextData

/-- What the user sets at the exit of a syscall. -/
def sysexitPokes (r : Ref) (w : World) : List (Reg × ℕ) :=
  if s.hasOnSysexit then (s.host (sysexitCall s r w :: w.calls)).pokes else []

/-- The world after the user was called at the exit of a syscall. -/
def afterSysexit (r : Ref) (w : World) : World :=
  if s.hasOnSysexit then
    (w.log (sysexitCall s r w)).update r fun t =>
      { t with regs := pokeAll (t.mode s.target) t.regs (sysexitPokes s r w) }
  else w

/-- The user is called at the exit. -/
theorem callOnSysexit_apply (r : Ref) (w : World) :
    callOnSysexit s r w = (.ok (), afterSysexit s r w) := by
  unfold callOnSysexit afterSysexit when
  by_cases h : s.hasOnSysexit
  · rw [if_pos h, if_pos h]
    rw [bind_apply_ok (show sysnumOf s r .current w = (.ok _, w) from rfl),
      bind_apply_ok (callbackPid_apply r w), bind_apply_ok (tracee_apply ..),
      bind_apply_ok (ask_apply ..), applyPokes_apply]
    simp only [sysexitPokes, if_pos h]
    rfl
  · rw [if_neg h, if_neg h]
    rfl

/-- The user only pokes registers of the tracee. -/
theorem afterSysexit_heap (r : Ref) (w : World) :
    (afterSysexit s r w).heap r =
      { w.heap r with
        regs := pokeAll ((w.heap r).mode s.target) (w.heap r).regs (sysexitPokes s r w) } := by
  unfold afterSysexit
  by_cases h : s.hasOnSysexit
  · rw [if_pos h, World.update_self]
    rfl
  · rw [if_neg h, sysexitPokes, if_neg h]
    rfl

/-- The process does not see them yet. -/
theorem afterSysexit_registerFile (r : Ref) (w : World) (pid : ℤ) :
    registerFile s pid (afterSysexit s r w).calls = registerFile s pid w.calls := by
  unfold afterSysexit
  split <;> rfl

/-- The world in which the exit stage calls the user. -/
def enteredExit (r : Ref) (w : World) : World :=
  ((w.fetched r (fetchReply s r w).bank).log (.exitStage r)).update r fun t =>
    { t with regs := { t.regs with restoreOriginal := true } }

/-- The cached registers of a tracee once the user was called at the exit of a syscall. -/
def exitRegs (r : Ref) (w : World) : Regs :=
  pokeAll ((w.heap r).mode s.target)
    { (w.heap r).regs with current := (fetchReply s r w).bank, restoreOriginal := true }
    (sysexitPokes s r (enteredExit s r w))

/-- The exit starts with the registers of the process. -/
theorem enteredExit_heap (r : Ref) (w : World) :
    (enteredExit s r w).heap r =
      { w.heap r with regs :=
        { (w.heap r).regs with current := (fetchReply s r w).bank, restoreOriginal := true } } := by
  simp [enteredExit, World.fetched]

/-- The process still has them. -/
theorem enteredExit_registerFile (r : Ref) (w : World) :
    registerFile s (w.heap r).pid (enteredExit s r w).calls = (fetchReply s r w).bank := by
  simp [enteredExit, World.fetched, registerFile, fetchReply]

/-- The exit stage once the user was called. -/
def finishExit (handle : Ref → ℤ → Prog ℤ) (r : Ref) : Prog Unit := do
  let t ← tracee r
  when (t.chain.syscalls = .null) (translateSyscallExit s handle r)
  update r fun t => { t with status := 0 }
  let t ← tracee r
  when (t.chain.syscalls ≠ .null) (chainNextSyscall s r)

/-- The exit calls the user and translates the result. -/
theorem exitStage_apply (handle : Ref → ℤ → Prog ℤ) (r : Ref) (w : World) :
    exitStage s handle r (w.fetched r (fetchReply s r w).bank) =
      finishExit s handle r (afterSysexit s r (enteredExit s r w)) := by
  unfold exitStage
  rw [bind_apply_ok (mark_apply ..), bind_apply_ok (update_apply ..)]
  exact bind_apply_ok (callOnSysexit_apply s r (enteredExit s r w))

/-- A stage at the exit of a syscall, between the registers it fetches and those it pushes. -/
theorem translateSyscall_exit {handle : Ref → ℤ → Prog ℤ} {r : Ref} {w w' : World}
    (hfetched : 0 ≤ (fetchReply s r w).status) (hentered : (w.heap r).status ≠ 0)
    (h : finishExit s handle r (afterSysexit s r (enteredExit s r w)) = (.ok (), w')) :
    (translateSyscall s handle r w).2 = (pushRegs s r w').2 := by
  have hexit : ¬(w.heap r).isInSysenter = true := by
    simpa [Tracee.isInSysenter] using hentered
  unfold translateSyscall
  rw [bind_apply_ok (tracee_apply ..), bind_apply_ok (fetchRegs_apply s hfetched),
    if_neg (by decide), if_neg hexit]
  rw [bind_apply_ok ((exitStage_apply s handle r w).trans h), bind_apply]
  rcases pushRegs s r w' with ⟨_ | _, w''⟩ <;> rfl

end ExitStage
end Abyss
