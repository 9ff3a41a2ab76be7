import Abyss.Syscall.EnterRegisters
import Abyss.Tracee.Mem
import Mathlib

/-!
# Cancelled syscalls

A syscall whose arguments cannot be translated is cancelled: its number is replaced by one that the
kernel skips, and the error is put where the result is expected. If the syscall is stopped at its
exit, the error is put there again after the registers of the entry were restored.

If it is not, only the stack pointer is restored, at the entry. The arguments that the user has
replaced, or that were moved for another syscall, stay as they are.
-/

namespace Abyss

open Machine

/-! ## A translation that fails -/

section Failed

variable (s : Setup) (r : Ref)

/-- The call of the user at the entry of a syscall. -/
def sysenterCall (w : World) : Call :=
  .onSysenter r (callbackPidOf r w)
    (getSysnum s.target ((w.heap r).mode s.target) (w.heap r).regs .current)

/-- What the user sets at the entry of a syscall. -/
def sysenterPokes (w : World) : List (Reg × ℕ) :=
  if s.hasOnSysenter then (s.host (sysenterCall s r w :: w.calls)).pokes else []

/-- The arguments of an `execveat` at the places of those of an `execve`. -/
def movedArguments (t : Target) (m : Mode) (regs : Regs) : Regs :=
  let regs := setSysnum t m regs .execve
  let regs := pokeReg m regs .sysarg1 (peekReg m regs .current .sysarg2)
  let regs := pokeReg m regs .sysarg2 (peekReg m regs .current .sysarg3)
  pokeReg m regs .sysarg3 (peekReg m regs .current .sysarg4)

/-- The registers that a failed translation leaves. -/
def failedRegs (t : Target) (m : Mode) (regs : Regs) : Regs :=
  if getSysnum t m regs .original = .execveat ∧ toInt (peekReg m regs .current .sysarg1) = atFdcwd
  then movedArguments t m regs
  else regs

variable {s r}

/-- The user only pokes registers. -/
theorem callOnSysenter_regs (w : World) :
    ∃ w', callOnSysenter s r w = (.ok (), w') ∧
      (w'.heap r).mode s.target = (w.heap r).mode s.target ∧
      (w'.heap r).regs =
        pokeAll ((w.heap r).mode s.target) (w.heap r).regs (sysenterPokes s r w) := by
  unfold callOnSysenter when sysenterPokes
  by_cases h : s.hasOnSysenter
  · rw [if_pos h, if_pos h, bind_apply_ok (show sysnumOf s r .current w = (.ok _, w) from rfl),
      bind_apply_ok (callbackPid_apply r w), bind_apply_ok (ask_apply ..),
      bind_apply_ok (applyPokes_apply ..), bind_apply_ok (update_apply ..)]
    refine ⟨_, mark_apply .., ?_, ?_⟩
    · simp [Tracee.mode]
    · rw [World.log_heap, World.update_self, World.update_self]
      rfl
  · rw [if_neg h, if_neg h]
    exact ⟨w, rfl, rfl, rfl⟩

/-- The path of an argument is the empty one, or the host is asked for it. -/
theorem sysargPath_cases (s : Setup) (r : Ref) (reg : Reg) (w : World) :
    let address := peekReg ((w.heap r).mode s.target) (w.heap r).regs .current reg
    let c : Call := .readPath (w.heap r).pid address
    address = 0 ∧ sysargPath s r reg w = (.ok 0, w) ∨
      address ≠ 0 ∧ sysargPath s r reg w = (.ok (s.host (c :: w.calls)).status, w.log c) := by
  intro address c
  unfold sysargPath
  rw [bind_apply_ok (peek_apply ..), bind_apply_ok (tracee_apply ..)]
  by_cases haddress : address = 0
  · rw [if_pos haddress]
    exact Or.inl ⟨haddress, rfl⟩
  · rw [if_neg haddress]
    exact Or.inr ⟨haddress, rfl⟩

/-- Looking at a path leaves the registers alone. -/
theorem sysargPath_regs (regs : Regs) (reg : Reg) :
    Keeps (fun w => (w.heap r).regs = regs) (fun _ _ => True) (sysargPath s r reg) := by
  intro w hw
  rcases sysargPath_cases s r reg w with ⟨-, hrun⟩ | ⟨-, hrun⟩
  · exact Triple.of_ok hrun hw
  · exact Triple.of_ok hrun hw

/-- A failed `execve` leaves the registers alone. -/
theorem translateExecveEnter_failed (regs : Regs) :
    Triple (fun w => (w.heap r).regs = regs) (translateExecveEnter s r)
      (fun status w => status < 0 → (w.heap r).regs = regs) fun _ _ => True := by
  have hask : ∀ c, Keeps (fun w => (w.heap r).regs = regs) (fun _ _ => True) (ask s c) :=
    fun c w hw => Triple.of_ok (ask_apply s c w) hw
  have hother : ∀ {f : Tracee → Tracee}, (∀ t, (f t).regs = t.regs) →
      Keeps (fun w => (w.heap r).regs = regs) (fun _ _ => True) (update r f) := fun hf =>
    update_keeps fun w hw => by rw [World.update_self, hf, hw]
  have hnotified : Keeps (fun w => (w.heap r).regs = regs) (fun _ _ => True)
      (isNotificationPtracedLoadDone s r) :=
    Keeps.bind (tracee_keeps r) fun _ => Keeps.pure _
  refine Triple.bind hnotified fun _ => Triple.ite (fun _ => ?_) fun _ => ?_
  · refine Triple.bind (M := fun _ _ => True) (Triple.modify fun _ _ => trivial) fun _ => ?_
    refine Triple.bind (M := fun _ _ => True) (Triple.modify fun _ _ => trivial) fun _ => ?_
    exact Triple.pure fun _ _ habsurd => absurd habsurd (lt_irrefl 0)
  · refine Triple.conseq (P := fun w => (w.heap r).regs = regs)
      (Q := fun _ w => (w.heap r).regs = regs) ?_ (fun _ h => h) (fun _ _ h _ => h) fun _ _ h => h
    refine Keeps.bind (sysargPath_regs regs _) fun _ => ?_
    refine Keeps.ite (fun _ => Keeps.pure _) fun _ => Keeps.bind (hask _) fun _ => ?_
    refine Keeps.ite (fun _ => Keeps.pure _) fun _ => Keeps.bind (hask _) fun _ => ?_
    refine Keeps.ite (fun _ => Keeps.pure _) fun _ => Keeps.bind (hother fun _ => rfl) fun _ => ?_
    refine Keeps.bind (hask _) fun _ => Keeps.ite (fun _ => Keeps.pure _) fun _ => ?_
    refine Keeps.bind (hother fun _ => rfl) fun _ => Keeps.bind (hask _) fun _ => ?_
    refine Keeps.ite (fun _ => Keeps.pure _) fun _ => Keeps.bind (hask _) fun _ => ?_
    refine Keeps.ite (fun _ => Keeps.pure _) fun _ => Keeps.bind (hask _) fun _ => ?_
    refine Keeps.bind (hother fun _ => rfl) fun _ => Keeps.ite (fun _ => Keeps.pure _) fun _ => ?_
    refine Keeps.ite (fun _ => Keeps.bind (hask _) fun _ => ?_) fun _ => Keeps.pure _
    exact Keeps.ite (fun _ => Keeps.pure _) fun _ => Keeps.pure _

/-- An `execveat` from the working directory becomes an `execve` with its arguments moved. -/
theorem translateExecveatEnter_apply (w : World) :
    translateExecveatEnter s r w =
      if toInt (peekReg ((w.heap r).mode s.target) (w.heap r).regs .current .sysarg1) = atFdcwd then
        translateExecveEnter s r (w.update r fun t =>
          { t with regs := movedArguments s.target (t.mode s.target) t.regs })
      else (.ok (-enosys), w) := by
  unfold translateExecveatEnter
  rw [bind_apply_ok (peek_apply ..)]
  by_cases hcwd :
    toInt (peekReg ((w.heap r).mode s.target) (w.heap r).regs .current .sysarg1) = atFdcwd
  · rw [if_pos hcwd, if_pos hcwd, bind_apply_ok (pokeSysnum_apply ..),
      bind_apply_ok (peek_apply ..), bind_apply_ok (poke_apply ..), bind_apply_ok (peek_apply ..),
      bind_apply_ok (poke_apply ..), bind_apply_ok (peek_apply ..), bind_apply_ok (poke_apply ..)]
    simp only [World.update_update, World.update_self]
    rfl
  · rw [if_neg hcwd, if_neg hcwd]
    rfl

/-- A `prctl` never fails at the entry. -/
theorem translatePrctlEnter_status (w : World) {e : ℤ} {w' : World}
    (h : translatePrctlEnter s r w = (.ok e, w')) : e = 0 := by
  unfold translatePrctlEnter at h
  rw [bind_apply_ok (peek_apply ..)] at h
  obtain ⟨_, _, -, hdone⟩ := bind_ok_iff.mp h
  exact (Except.ok.inj (Prod.mk.inj hdone).1).symm

/-- The wait syscalls and the nested ptrace never fail at the entry. -/
theorem translateWaitEnter_status (w : World) {e : ℤ} {w' : World}
    (h : translateWaitEnter s r w = (.ok e, w')) : e = 0 := by
  have hwait : Triple (fun _ => True) (translateWaitEnter s r) (fun status _ => status = 0)
      fun _ _ => True := by
    have hkeeps : ∀ {α : Type} {x : Prog α}, Keeps (fun _ : World => True) (fun _ _ => True) x :=
      fun _ _ => ⟨fun _ _ _ => trivial, fun _ _ _ => trivial⟩
    refine Triple.bind hkeeps fun _ => Triple.bind hkeeps fun _ => ?_
    refine Triple.ite (fun _ => Triple.pure fun _ _ => rfl) fun _ => ?_
    refine Triple.bind hkeeps fun _ => Triple.bind hkeeps fun _ => Triple.bind hkeeps fun _ => ?_
    refine Triple.ite (fun _ => Triple.pure fun _ _ => rfl) fun _ => ?_
    refine Triple.bind hkeeps fun _ => Triple.bind hkeeps fun _ => ?_
    exact Triple.pure fun _ _ => rfl
  exact (hwait w trivial).1 e w' h

/-- Only a syscall that is known fails, and its registers are then as far as they were moved. -/
theorem translateSyscallEnter_failed {w w' : World} {e : ℤ}
    (h : translateSyscallEnter s r w = (.ok e, w')) (he : e < 0) :
    enteredSysnum s (w.heap r) ≠ .void ∧
      (w'.heap r).regs = failedRegs s.target ((w.heap r).mode s.target) (w.heap r).regs := by
  have hsysnum : sysnumOf s r .original w = (.ok (enteredSysnum s (w.heap r)), w) := rfl
  have hnumber : getSysnum s.target ((w.heap r).mode s.target) (w.heap r).regs .original =
    enteredSysnum s (w.heap r) := rfl
  unfold translateSyscallEnter at h
  rw [bind_apply_ok hsysnum] at h
  unfold failedRegs
  rw [hnumber]
  generalize enteredSysnum s (w.heap r) = number at h ⊢
  split at h
  · rw [if_neg fun hexecveat => nomatch hexecveat.1]
    exact ⟨nofun, (translateExecveEnter_failed _ w rfl).1 _ _ h he⟩
  · rw [translateExecveatEnter_apply] at h
    refine ⟨nofun, ?_⟩
    by_cases hcwd :
      toInt (peekReg ((w.heap r).mode s.target) (w.heap r).regs .current .sysarg1) = atFdcwd
    · rw [if_pos hcwd] at h
      rw [if_pos ⟨rfl, hcwd⟩]
      exact (translateExecveEnter_failed _ _ (congrArg Tracee.regs (World.update_self ..))).1 _ _ h he
    · rw [if_neg hcwd] at h
      rw [if_neg fun hmoved => hcwd hmoved.2, ← (Prod.mk.inj h).2]
  · obtain ⟨_, _, -, hdone⟩ := bind_ok_iff.mp h
    rw [← Except.ok.inj (Prod.mk.inj hdone).1] at he
    exact absurd he (lt_irrefl 0)
  · rw [translateWaitEnter_status w h] at he
    exact absurd he (lt_irrefl 0)
  · rw [translateWaitEnter_status w h] at he
    exact absurd he (lt_irrefl 0)
  · rw [if_neg fun hexecveat => nomatch hexecveat.1]
    exact ⟨nofun, (sysargPath_regs _ _ w rfl).1 _ _ h⟩
  · rw [translatePrctlEnter_status w h] at he
    exact absurd he (lt_irrefl 0)
  · rw [← Except.ok.inj (Prod.mk.inj h).1] at he
    exact absurd he (lt_irrefl 0)

/-- The world in which the user is called at the entry of a syscall. -/
def savedEnter (s : Setup) (r : Ref) (w : World) : World :=
  (begunEnter s r w).update r fun t => { t with regs := saveOriginalRegs t.regs }

/-- The registers that the user is given there. -/
def savedRegs (s : Setup) (r : Ref) (w : World) : Regs :=
  saveOriginalRegs
    { (w.heap r).regs with current := (fetchReply s r w).bank, restoreOriginal := false }

/-- The registers of the entry as the user has left them. -/
def enteredRegs (s : Setup) (r : Ref) (w : World) : Regs :=
  pokeAll ((w.heap r).mode s.target) (savedRegs s r w) (sysenterPokes s r (savedEnter s r w))

/-- The user cannot poke the registers at the entry. -/
theorem enteredRegs_original {w : World} :
    (enteredRegs s r w).original = (fetchReply s r w).bank := (pokeAll_frame ..).1

/-- What a failed entry leaves, before the syscall is cancelled. -/
theorem translateRequestedEnter_failed {w u : World} {e : ℤ}
    (h : translateRequestedEnter s r (begunEnter s r w) = (.ok e, u)) (he : e < 0) :
    translateSysnum s.target ((w.heap r).mode s.target).abi
        (registerIn ((w.heap r).mode s.target) (fetchReply s r w).bank .sysargNum) ≠ .void ∧
      (u.heap r).regs = saveModifiedRegs
        (failedRegs s.target ((w.heap r).mode s.target) (enteredRegs s r w)) := by
  have hsaved : (savedEnter s r w).heap r = { w.heap r with regs := savedRegs s r w } := by
    simp [savedEnter, begunEnter, World.fetched, savedRegs]
  have hm : ((savedEnter s r w).heap r).mode s.target = (w.heap r).mode s.target := by
    rw [hsaved]
    rfl
  unfold translateRequestedEnter at h
  rw [bind_apply_ok (update_apply ..)] at h
  change (do
    callOnSysenter s r
    let status ← translateSyscallEnter s r
    update r fun t => { t with regs := saveModifiedRegs t.regs }
    pure status : Prog ℤ) (savedEnter s r w) = _ at h
  obtain ⟨v, hcall, hmode, hregs⟩ := callOnSysenter_regs (s := s) (r := r) (savedEnter s r w)
  rw [bind_apply_ok hcall] at h
  obtain ⟨status, v', hstatus, hdone⟩ := bind_ok_iff.mp h
  rw [bind_apply_ok (update_apply ..)] at hdone
  obtain ⟨hok, rfl⟩ := Prod.mk.inj hdone
  obtain rfl : status = e := Except.ok.inj hok
  obtain ⟨hvoid, hfailed⟩ := translateSyscallEnter_failed hstatus he
  rw [hmode, hm] at hfailed
  rw [hm, hsaved] at hregs
  have hentered : (v.heap r).regs = enteredRegs s r w := hregs
  constructor
  · rw [enteredSysnum, getSysnum, hmode, hm, hentered] at hvoid
    rwa [registerIn_original enteredRegs_original] at hvoid
  · rw [World.update_self, hfailed, hentered]

end Failed

/-! ## What the process observes -/

/-- The registers of the arguments, except for the one that holds the result. -/
def argumentRegs (m : Mode) : List Reg :=
  [Reg.sysarg1, .sysarg2, .sysarg3, .sysarg4, .sysarg5, .sysarg6].filter fun reg =>
    m.slot reg ≠ m.slot .sysargResult

/-- A process finds an error as its result, and the stack pointer and the arguments of the entry. -/
structure ObservesError (m : Mode) (entry file : Bank) (error : ℕ) : Prop where
  result : registerIn m file .sysargResult = error % 2 ^ m.bits
  stackPointer : registerIn m file .stackPointer = registerIn m entry .stackPointer
  arguments : ∀ reg ∈ argumentRegs m, registerIn m file reg = registerIn m entry reg

/-- A tracee is stopped at its exit: its record is as the entry has left it, and if no register was
set the kernel reports all but the result as they were. -/
structure LeftAt (s : Setup) (r : Ref) (after w : World) : Prop where
  fetched : 0 ≤ (fetchReply s r w).status
  pid : (w.heap r).pid = (after.heap r).pid
  isAarch32 : (w.heap r).isAarch32 = (after.heap r).isAarch32
  chain : (w.heap r).chain = (after.heap r).chain
  status : (w.heap r).status = (after.heap r).status
  regs : (w.heap r).regs = (after.heap r).regs
  untouched : (after.heap r).regs.wereChanged = false →
    ∀ reg ∈ Reg.stackPointer :: argumentRegs ((w.heap r).mode s.target),
      registerIn ((w.heap r).mode s.target) (fetchReply s r w).bank reg =
        registerIn ((w.heap r).mode s.target) (after.heap r).regs.current reg

section Cancelled

variable (s : Setup) (handle : Ref → ℤ → Prog ℤ) (r : Ref)

/-- A syscall whose entry has failed is cancelled: the kernel is given a number that it skips, and the
process observes the error, where the syscall has no exit and otherwise at its exit. -/
structure CancelsSyscall (w : World) (e : ℤ) : Prop where
  skipped : toInt (syscallNumber s ((w.heap r).mode s.target) (w.heap r).pid
    (translateSyscall s handle r w).2.calls) < 0
  atEntry : (w.heap r).restartHow = .cont →
    ObservesError ((w.heap r).mode s.target) (fetchReply s r w).bank
      (registerFile s (w.heap r).pid (translateSyscall s handle r w).2.calls) (toWord s.target e)
  atExit : (w.heap r).restartHow ≠ .cont →
    ∀ w', LeftAt s r (translateSyscall s handle r w).2 w' →
      ObservesError ((w.heap r).mode s.target) (fetchReply s r w).bank
        (registerFile s (w.heap r).pid (translateSyscall s handle r w').2.calls) (toWord s.target e)

/-- What the user has set and what was moved at the entry leaves the arguments as they were. -/
def KeepsArguments (w : World) : Prop :=
  ∀ reg ∈ argumentRegs ((w.heap r).mode s.target),
    peekReg ((w.heap r).mode s.target)
        (failedRegs s.target ((w.heap r).mode s.target) (enteredRegs s r w)) .current reg =
      registerIn ((w.heap r).mode s.target) (fetchReply s r w).bank reg

variable {s handle r}

/-- The void syscall has the number of the avoider. -/
theorem detranslateSysnum_void (t : Target) (abi : Abi) :
    detranslateSysnum t abi .void = t.syscallAvoider := if_pos rfl

/-- The registers that are apart from each other during a cancelled syscall. -/
theorem cancelled_apart (m : Mode) :
    m.Apart .sysargResult .sysargNum ∧ ∀ reg ∈ argumentRegs m,
      m.Apart .sysargNum reg ∧ m.Apart .sysargResult reg ∧ m.Apart .stackPointer reg := by
  rcases m with ⟨_ | _, _ | _⟩ <;> decide

/-- The number with all bits set is negative for the kernel. -/
theorem toInt_syscallAvoider {t : Target} {isAarch32 : Bool} {regs : Regs}
    (h : peekReg ⟨t.cpu, isAarch32⟩ regs .current .sysargNum =
      t.syscallAvoider % 2 ^ (Mode.mk t.cpu isAarch32).bits) :
    toInt ((Mode.mk t.cpu isAarch32).word regs.current .sysargNum) < 0 := by
  have hlow : ∀ n : ℕ, n % 2 ^ 32 = 2 ^ 32 - 1 → toInt n < 0 := by
    intro n hn
    have hall : BitVec.ofNat 32 n = BitVec.ofNat 32 (2 ^ 32 - 1) := by
      apply BitVec.eq_of_toNat_eq
      rw [BitVec.toNat_ofNat, BitVec.toNat_ofNat, hn]
      rfl
    rw [toInt, hall]
    decide
  refine hlow _ ?_
  unfold Target.syscallAvoider Target.wordBits at h
  cases hcpu : t.cpu with
  | armEabi =>
    rw [hcpu] at h
    simp [peekReg, Mode.is32on64, Mode.bits, Cpu.wordBits, Regs.bank] at h
    omega
  | arm64 =>
    rw [hcpu] at h
    cases isAarch32
    · simp [peekReg, Mode.is32on64, Mode.bits, Cpu.wordBits, Regs.bank] at h
      omega
    · simp [peekReg, Mode.is32on64, Mode.bits, Cpu.wordBits, Regs.bank] at h
      omega

/-- The registers of a cancelled syscall, one by one. -/
theorem cancelledRegs_peekReg {t : Tracee} {e : ℤ} (he : e < 0) :
    peekReg (t.mode s.target) (cancelledRegs s e t) .current .sysargNum =
        s.target.syscallAvoider % 2 ^ (t.mode s.target).bits ∧
      peekReg (t.mode s.target) (cancelledRegs s e t) .current .sysargResult =
        toWord s.target e % 2 ^ (t.mode s.target).bits ∧
      ∀ reg ∈ argumentRegs (t.mode s.target),
        peekReg (t.mode s.target) (cancelledRegs s e t) .current reg =
          peekReg (t.mode s.target) t.regs .current reg := by
  obtain ⟨hnumber, harguments⟩ := cancelled_apart (t.mode s.target)
  rw [cancelledRegs, if_pos he, setSysnum, detranslateSysnum_void]
  refine ⟨?_, peekReg_pokeReg_mod .., fun reg hreg => ?_⟩
  · rw [peekReg_pokeReg_other _ _ hnumber, peekReg_pokeReg_mod]
  · rw [peekReg_pokeReg_other _ _ (harguments reg hreg).2.1,
      peekReg_pokeReg_other _ _ (harguments reg hreg).1]

/-- At the end of the entry they are the same, except for the stack pointer. -/
theorem finishedEnter_peekReg {t : Tracee} {e : ℤ} {reg : Reg} (h : reg ≠ .stackPointer) :
    peekReg (t.mode s.target) (finishedEnter s e t).regs .current reg =
      peekReg (t.mode s.target) (cancelledRegs s e t) .current reg := by
  unfold finishedEnter
  split
  · exact peekReg_pokeReg_other _ _ (stackPointer_apart _ h).symm
  · rfl

/-- An entry that has failed, with the world after the translation. -/
structure FailsAtEntry (s : Setup) (r : Ref) (w u : World) (e : ℤ) : Prop where
  entry : AtEntry s r w
  failed : translateRequestedEnter s r (begunEnter s r w) = (.ok e, u)
  negative : e < 0

section AtEntry

variable {w u : World} {e : ℤ}

/-- A syscall that fails is still being entered. -/
theorem FailsAtEntry.entering (h : FailsAtEntry s r w u e) :
    Entering s r (w.heap r) (fetchReply s r w).bank u :=
  (translateRequestedEnter_entering _ rfl).1 _ _ h.failed

/-- It ends with the registers of a cancelled one. -/
theorem FailsAtEntry.pushes (h : FailsAtEntry s r w u e) :
    (translateSyscall s handle r w).2 = (pushRegs s r (u.update r (finishedEnter s e))).2 := by
  refine translateSyscall_enter h.entry ?_
  rw [enterStage_apply h.entry, bind_apply_ok h.failed, finishEnter_apply]

/-- The registers that are pushed at the entry, except for the stack pointer. -/
theorem FailsAtEntry.leaves (h : FailsAtEntry s r w u e) :
    peekReg ((w.heap r).mode s.target) (finishedEnter s e (u.heap r)).regs .current .sysargNum =
        s.target.syscallAvoider % 2 ^ ((w.heap r).mode s.target).bits ∧
      peekReg ((w.heap r).mode s.target) (finishedEnter s e (u.heap r)).regs .current
          .sysargResult = toWord s.target e % 2 ^ ((w.heap r).mode s.target).bits ∧
      ∀ reg ∈ argumentRegs ((w.heap r).mode s.target),
        peekReg ((w.heap r).mode s.target) (finishedEnter s e (u.heap r)).regs .current reg =
          peekReg ((w.heap r).mode s.target)
            (failedRegs s.target ((w.heap r).mode s.target) (enteredRegs s r w)) .current reg := by
  have hfailed := (translateRequestedEnter_failed h.failed h.negative).2
  obtain ⟨hnumber, hresult, harguments⟩ :=
    cancelledRegs_peekReg (s := s) (t := u.heap r) h.negative
  have hmode := h.entering.mode
  rw [hmode] at hnumber hresult harguments
  have hkept : ∀ reg, reg ≠ .stackPointer →
      peekReg ((w.heap r).mode s.target) (finishedEnter s e (u.heap r)).regs .current reg =
        peekReg ((w.heap r).mode s.target) (cancelledRegs s e (u.heap r)) .current reg := by
    intro reg hreg
    rw [← hmode]
    exact finishedEnter_peekReg hreg
  refine ⟨(hkept .sysargNum nofun).trans hnumber, (hkept .sysargResult nofun).trans hresult,
    fun reg hreg => ?_⟩
  have hreg' : reg ≠ .stackPointer := by
    rintro rfl
    simp [argumentRegs] at hreg
  rw [hkept reg hreg', harguments reg hreg, hfailed]
  rfl

/-- The kernel gets a negative number, and skips the syscall. -/
theorem FailsAtEntry.skipped (h : FailsAtEntry s r w u e) :
    toInt (syscallNumber s ((w.heap r).mode s.target) (w.heap r).pid
      (translateSyscall s handle r w).2.calls) < 0 := by
  rw [h.pushes, (h.entering.finished e).pushedNumber, World.update_self]
  exact toInt_syscallAvoider h.leaves.1

/-- Where the syscall has no exit the arguments stay as they are. -/
theorem FailsAtEntry.observes_iff (h : FailsAtEntry s r w u e)
    (hcont : (w.heap r).restartHow = .cont) :
    ObservesError ((w.heap r).mode s.target) (fetchReply s r w).bank
        (registerFile s (w.heap r).pid (translateSyscall s handle r w).2.calls)
        (toWord s.target e) ↔ KeepsArguments s r w := by
  obtain ⟨-, hresult, harguments⟩ := h.leaves
  have hstack := h.entering.stackPointer hcont e
  rw [h.pushes, (h.entering.finished e).pushed, World.update_self]
  constructor
  · intro hobserves reg hreg
    exact (harguments reg hreg).symm.trans (hobserves.arguments reg hreg)
  · intro hkeeps
    exact ⟨hresult, hstack, fun reg hreg => (harguments reg hreg).trans (hkeeps reg hreg)⟩

variable (handle) in
/-- The record that a failed entry leaves. -/
theorem FailsAtEntry.record (h : FailsAtEntry s r w u e) :
    (translateSyscall s handle r w).2.heap r = finishedEnter s e (u.heap r) := by
  have hentering := h.entering.finished e
  have hkept := hentering.kept
  rw [h.pushes, pushRegs_heap, pushedRegs, hkept, ite_self, World.update_self]

end AtEntry

/-! ## At the exit -/

variable (handle) in
/-- The world after the exit of a syscall whose entry has failed. -/
theorem finishExit_failed {x : World} (hstatus : (x.heap r).status < 0)
    (hchain : (x.heap r).chain.syscalls = .null) :
    finishExit s handle r x = (.ok (), x.update r fun t =>
      { t with
        regs := pokeReg (t.mode s.target) t.regs .sysargResult (toWord s.target t.status)
        status := 0 }) := by
  unfold finishExit when
  rw [bind_apply_ok (tracee_apply ..), if_pos hchain]
  have hexit : translateSyscallExit s handle r x = (.ok (), x.update r fun t =>
      { t with
        regs := pokeReg (t.mode s.target) t.regs .sysargResult
          (toWord s.target (x.heap r).status) }) := by
    unfold translateSyscallExit
    rw [bind_apply_ok (tracee_apply ..), if_pos hstatus]
    rfl
  rw [bind_apply_ok hexit, bind_apply_ok (update_apply ..), bind_apply_ok (tracee_apply ..),
    World.update_update, World.update_self, if_neg (by simpa using hchain)]
  exact congrArg (Prod.mk _) (World.update_congr rfl)

/-- The registers at the exit of a syscall whose entry has failed: those reported, those the user
sets and the error. -/
def failedExitRegs (s : Setup) (r : Ref) (w : World) : Regs :=
  pokeAll ((w.heap r).mode s.target)
    { (w.heap r).regs with current := (fetchReply s r w).bank, restoreOriginal := true }
    (sysexitPokes s r (enteredExit s r w) ++ [(.sysargResult, toWord s.target (w.heap r).status)])

/-- What is pushed there, if anything was changed. -/
theorem translateSyscall_exit_failed {w : World} (hfetched : 0 ≤ (fetchReply s r w).status)
    (hstatus : (w.heap r).status < 0) (hchain : (w.heap r).chain.syscalls = .null) :
    registerFile s (w.heap r).pid (translateSyscall s handle r w).2.calls =
      if (failedExitRegs s r w).wereChanged then
        (restoreOriginalRegs ((w.heap r).mode s.target) (failedExitRegs s r w)).current
      else (failedExitRegs s r w).current := by
  have hexit : (afterSysexit s r (enteredExit s r w)).heap r =
      { w.heap r with regs := exitRegs s r w } := by
    rw [afterSysexit_heap, enteredExit_heap]
    rfl
  have hfinish := finishExit_failed handle (s := s) (x := afterSysexit s r (enteredExit s r w))
    (by rw [hexit]; exact hstatus) (by rw [hexit]; exact hchain)
  generalize hv : (afterSysexit s r (enteredExit s r w)).update r _ = v at hfinish
  have hpid : (v.heap r).pid = (w.heap r).pid := by
    rw [← hv, World.update_self, hexit]
  have hmode : (v.heap r).mode s.target = (w.heap r).mode s.target := by
    rw [← hv, World.update_self, hexit]
    rfl
  have hregs : (v.heap r).regs = failedExitRegs s r w := by
    rw [← hv, World.update_self, hexit, failedExitRegs, pokeAll_append]
    rfl
  have hreported : registerFile s (w.heap r).pid v.calls = (fetchReply s r w).bank := by
    rw [← hv, World.update_calls, afterSysexit_registerFile, enteredExit_registerFile]
  have hsynced : Synced s r v := fun hsame => by
    rw [hregs] at hsame
    rw [hpid, hreported, hregs]
    unfold failedExitRegs at hsame ⊢
    rw [pokeAll_wereChanged hsame]
  have hfile := pushRegs_registerFile s hsynced
  rw [hpid, pushedRegs, hmode, hregs] at hfile
  rw [translateSyscall_exit s hfetched hstatus.ne hfinish, hfile]
  split <;> rfl

/-- The result is the status with which the entry has failed. -/
theorem failedExitRegs_result (w : World) :
    peekReg ((w.heap r).mode s.target) (failedExitRegs s r w) .current .sysargResult =
      toWord s.target (w.heap r).status % 2 ^ ((w.heap r).mode s.target).bits := by
  rw [failedExitRegs, pokeAll_append]
  exact peekReg_pokeReg_mod ..

/-- The registers that are observed are kept at the exit. -/
theorem observed_kept (m : Mode) :
    ∀ reg ∈ Reg.stackPointer :: argumentRegs m, reg ∈ m.keptRegs := by
  rcases m with ⟨_ | _, _ | _⟩ <;> decide

variable (handle) in
/-- What is pushed at the exit is the error, and otherwise the registers that the entry has saved
if those that were reported are the same where nothing was changed. -/
theorem translateSyscall_observes {w : World} {bank : Bank}
    (hfetched : 0 ≤ (fetchReply s r w).status) (hstatus : (w.heap r).status < 0)
    (hchain : (w.heap r).chain.syscalls = .null) (horiginal : (w.heap r).regs.original = bank)
    (huntouched : (w.heap r).regs.wereChanged = false →
      ∀ reg ∈ Reg.stackPointer :: argumentRegs ((w.heap r).mode s.target),
        registerIn ((w.heap r).mode s.target) (fetchReply s r w).bank reg =
          registerIn ((w.heap r).mode s.target) bank reg) :
    ObservesError ((w.heap r).mode s.target) bank
      (registerFile s (w.heap r).pid (translateSyscall s handle r w).2.calls)
      (toWord s.target (w.heap r).status) := by
  have hresult := failedExitRegs_result (s := s) (r := r) w
  rw [translateSyscall_exit_failed hfetched hstatus hchain]
  by_cases hchanged : (failedExitRegs s r w).wereChanged = true
  · rw [if_pos hchanged]
    have hrestores : RestoresEntry ((w.heap r).mode s.target) (w.heap r).regs.original
        (fetchReply s r w).bank (failedExitRegs s r w).current
        (restoreOriginalRegs ((w.heap r).mode s.target) (failedExitRegs s r w)).current :=
      restoreOriginalRegs_restoresEntry
        { (w.heap r).regs with current := (fetchReply s r w).bank, restoreOriginal := true } rfl
    rw [horiginal] at hrestores
    refine ⟨?_, ?_, fun reg hreg => ?_⟩
    · exact (registerIn_congr (hrestores.left .sysargResult List.mem_cons_self)).trans hresult
    · exact registerIn_congr (hrestores.kept _ (observed_kept _ _ List.mem_cons_self))
    · exact registerIn_congr
        (hrestores.kept reg (observed_kept _ reg (List.mem_cons_of_mem _ hreg)))
  · rw [if_neg hchanged]
    have hnone : failedExitRegs s r w = { (w.heap r).regs with
        current := (fetchReply s r w).bank, restoreOriginal := true } := by
      unfold failedExitRegs at hchanged ⊢
      exact pokeAll_wereChanged (by simpa using hchanged)
    have hsame : (w.heap r).regs.wereChanged = false := by
      rw [hnone] at hchanged
      simpa using hchanged
    refine ⟨hresult, ?_, fun reg hreg => ?_⟩
    · rw [hnone]
      exact huntouched hsame _ List.mem_cons_self
    · rw [hnone]
      exact huntouched hsame reg (List.mem_cons_of_mem _ hreg)

/-- At the exit the error is observed, whatever the kernel and the user have made of the
registers. -/
theorem FailsAtEntry.observes {w u w' : World} {e : ℤ} (h : FailsAtEntry s r w u e)
    (hcont : (w.heap r).restartHow ≠ .cont)
    (hleft : LeftAt s r (translateSyscall s handle r w).2 w') :
    ObservesError ((w.heap r).mode s.target) (fetchReply s r w).bank
      (registerFile s (w.heap r).pid (translateSyscall s handle r w').2.calls)
      (toWord s.target e) := by
  have hentering := h.entering.finished e
  have hrecord : (translateSyscall s handle r w).2.heap r =
      (u.update r (finishedEnter s e)).heap r := (h.record handle).trans (World.update_self ..).symm
  obtain ⟨hfetched, hpid, haarch, hchain, hstatus, hregs, huntouched⟩ := hleft
  rw [hrecord] at hpid haarch hchain hstatus hregs huntouched
  have hm : (w'.heap r).mode s.target = (w.heap r).mode s.target := by
    rw [Tracee.mode, haarch, hentering.isAarch32]
    rfl
  have herror : (w'.heap r).status = e := by
    rw [hstatus, World.update_self, finishedEnter, if_neg (by rwa [h.entering.restartHow]),
      if_pos h.negative]
  have hobserves := translateSyscall_observes handle hfetched
    (herror ▸ h.negative) (by rw [hchain, hentering.chain, h.entry.unchained])
    (hregs ▸ hentering.original) fun hsame reg hreg => by
      rw [hregs] at hsame
      rw [← hentering.unchanged hsame]
      exact huntouched hsame reg hreg
  rwa [hm, hpid, hentering.pid, herror] at hobserves

/-- The process observes the error of a syscall whose entry has failed, with the stack pointer and
the arguments of the entry, if and only if the syscall has an exit or nothing has changed the
arguments. -/
theorem cancelsSyscall_iff {w u : World} {e : ℤ} (h : FailsAtEntry s r w u e) :
    CancelsSyscall s handle r w e ↔
      ((w.heap r).restartHow = .cont → KeepsArguments s r w) := by
  constructor
  · intro hcancels hcont
    exact (h.observes_iff hcont).mp (hcancels.atEntry hcont)
  · intro hkeeps
    exact ⟨h.skipped, fun hcont => (h.observes_iff hcont).mpr (hkeeps hcont),
      fun hcont w' hleft => h.observes hcont hleft⟩

end Cancelled

/-! ## An execve that fails -/

/-- A process that the filter has stopped at a syscall without an exit. -/
def filteredWorld : World :=
  { World.initial with heap := fun _ => { pid := 5, restartHow := .cont }, next := 1, tracees := [0] }

/-- It calls `execve` with a path that cannot be read, and the user sets some registers. -/
def unreadableSetup (pokes : List (Reg × ℕ)) : Setup where
  target := arm64 fun _ => .void
  host
    | .getRegs _ :: _ => { bank := syscallBank 221 0x1000 0x2000 0x3000 0 }
    | .onSysenter .. :: _ => { pokes := pokes }
    | .readPath .. :: _ => { status := -(efault : ℤ) }
    | _ => {}
  hasOnSysenter := true
  hasOnSysexit := false

/-- The status of the entry. -/
def unreadableStatus (pokes : List (Reg × ℕ)) : Option ℤ :=
  (translateRequestedEnter (unreadableSetup pokes) 0
    (begunEnter (unreadableSetup pokes) 0 filteredWorld)).1.toOption

/-- An unreadable path fails at the entry. -/
theorem unreadable_failsAtEntry {pokes : List (Reg × ℕ)}
    (h : unreadableStatus pokes = some (-(efault : ℤ))) :
    ∃ u, FailsAtEntry (unreadableSetup pokes) 0 filteredWorld u (-(efault : ℤ)) := by
  have hentry : AtEntry (unreadableSetup pokes) 0 filteredWorld := ⟨le_rfl, rfl, rfl⟩
  unfold unreadableStatus at h
  rcases hrun : translateRequestedEnter (unreadableSetup pokes) 0
    (begunEnter (unreadableSetup pokes) 0 filteredWorld) with ⟨_ | status, u⟩
  · rw [hrun] at h
    cases h
  · rw [hrun] at h
    obtain rfl : status = -(efault : ℤ) := Option.some.inj h
    exact ⟨u, hentry, hrun, by decide⟩

section Unreadable

set_option maxRecDepth 100000

/-- It does so whatever the user pokes. -/
theorem unreadable_status : unreadableStatus [] = some (-(efault : ℤ)) ∧
    unreadableStatus [(.sysarg3, 0x5000)] = some (-(efault : ℤ)) := by
  decide_cbv

/-- What the user has left of an argument at the end of the entry. -/
theorem unreadable_arguments :
    (∀ reg ∈ [Reg.sysarg2, .sysarg3, .sysarg4, .sysarg5, .sysarg6],
      peekReg ⟨.arm64, false⟩ (failedRegs (unreadableSetup []).target ⟨.arm64, false⟩
          (enteredRegs (unreadableSetup []) 0 filteredWorld)) .current reg =
        registerIn ⟨.arm64, false⟩ (fetchReply (unreadableSetup []) 0 filteredWorld).bank reg) ∧
    peekReg ⟨.arm64, false⟩ (failedRegs (unreadableSetup [(.sysarg3, 0x5000)]).target
        ⟨.arm64, false⟩ (enteredRegs (unreadableSetup [(.sysarg3, 0x5000)]) 0 filteredWorld))
        .current .sysarg3 ≠
      registerIn ⟨.arm64, false⟩
        (fetchReply (unreadableSetup [(.sysarg3, 0x5000)]) 0 filteredWorld).bank .sysarg3 := by
  decide_cbv

end Unreadable

/-- Where the user has not touched the arguments the error is observed as it is to be. -/
theorem cancelsSyscall_iff_untouched :
    CancelsSyscall (unreadableSetup []) (fun _ _ => pure 0) 0 filteredWorld (-(efault : ℤ)) := by
  obtain ⟨u, h⟩ := unreadable_failsAtEntry unreadable_status.1
  exact (cancelsSyscall_iff h).mpr fun _ => unreadable_arguments.1

/-- Where the user has replaced the environment, the process finds the replaced pointer. -/
theorem unreadable_keepsReplacement : ∃ u,
    FailsAtEntry (unreadableSetup [(.sysarg3, 0x5000)]) 0 filteredWorld u (-(efault : ℤ)) ∧
      ¬CancelsSyscall (unreadableSetup [(.sysarg3, 0x5000)]) (fun _ _ => pure 0) 0 filteredWorld
        (-(efault : ℤ)) := by
  obtain ⟨u, h⟩ := unreadable_failsAtEntry unreadable_status.2
  refine ⟨u, h, fun hcancels => ?_⟩
  have hkeeps := (h.observes_iff rfl).mp (hcancels.atEntry rfl) .sysarg3 (by decide)
  exact unreadable_arguments.2 hkeeps

end Abyss
