import Abyss.Syscall.RegisterFile
import Mathlib.Data.List.Permutation

/-!
# The registers of a new program image

The kernel gives a new image fresh registers, so the exit of a successful `execve` must leave
them alone. The registers saved at the entry belong to the old image, and they are restored at
every exit at which something is known to have been changed since the entry.
-/

namespace Abyss

open Machine

section NewImage

variable (s : Setup)

/-- Whether the syscall is the notification of a loader, as its registers tell. -/
def loadDone (t : Tracee) : Bool :=
  let arg := peekReg (t.mode s.target) t.regs .original
  t.asPtracee.ptracer.isSome && arg .sysarg1 = 1 && arg .sysarg4 = 2 && arg .sysarg5 = 3 &&
    arg .sysarg6 = 4

/-- The saved registers alone tell a notification. -/
theorem loadDone_regs {t : Tracee} {regs : Regs} (h : regs.original = t.regs.original) :
    loadDone s { t with regs := regs } = loadDone s t := by
  have harg : peekReg (t.mode s.target) regs .original =
      peekReg (t.mode s.target) t.regs .original :=
    funext fun reg => peekReg_original h _ reg
  exact congrArg (fun arg : Reg → ℕ => t.asPtracee.ptracer.isSome && arg .sysarg1 = 1 &&
    arg .sysarg4 = 2 && arg .sysarg5 = 3 && arg .sysarg6 = 4) harg

/-- The syscall that a tracee has entered. -/
def enteredSysnum (t : Tracee) : Sysnum :=
  getSysnum s.target (t.mode s.target) t.regs .original

/-- Whether the image of an `execve` is taken for a 32-bit one on the 64-bit processor; the
class of an image loaded by `execveat` is not looked at. -/
def imageIsAarch32 (t : Tracee) : Bool :=
  match enteredSysnum s t, s.target.cpu with
  | .execve, .arm64 => t.loadInfo.elim t.isAarch32 LoadInfo.isClass32
  | _, _ => t.isAarch32

/-- The mode that is assumed of the image of an `execve`. -/
def imageMode (t : Tracee) : Mode := ⟨s.target.cpu, imageIsAarch32 s t⟩

/-- An `execve` that succeeded is at its exit, be it a translated `execveat`. -/
structure ExecveReturns (r : Ref) (w : World) : Prop where
  fetched : 0 ≤ (fetchReply s r w).status
  entered : 0 < (w.heap r).status
  unchained : (w.heap r).chain.syscalls = .null
  execve : enteredSysnum s (w.heap r) = .execve ∨ enteredSysnum s (w.heap r) = .execveat
  notLoader : loadDone s (w.heap r) = false
  hasLoadInfo : s.target.cpu = .arm64 → (w.heap r).loadInfo ≠ none
  succeeded :
    0 ≤ toInt (peekReg (imageMode s (w.heap r)) (exitRegs s r w) .current .sysargResult)

/-- The exit of an `execve` only takes over the class of the image. -/
theorem translateExecveExit_apply {r : Ref} {w : World}
    (hexecve : enteredSysnum s (w.heap r) = .execve) (hloader : loadDone s (w.heap r) = false)
    (hinfo : s.target.cpu = .arm64 → (w.heap r).loadInfo ≠ none) :
    translateExecveExit s r w =
      (.ok (), w.update r fun _ =>
        { w.heap r with isAarch32 := imageIsAarch32 s (w.heap r) }) := by
  have hnotify : isNotificationPtracedLoadDone s r w = (.ok (loadDone s (w.heap r)), w) := rfl
  unfold translateExecveExit
  rw [bind_apply_ok hnotify, hloader]
  refine (congrFun (if_neg Bool.false_ne_true) w).trans ?_
  cases hcpu : s.target.cpu with
  | armEabi => simp [imageIsAarch32, hexecve, hcpu, World.update]
  | arm64 =>
    dsimp only
    rw [bind_apply_ok (tracee_apply ..)]
    cases hload : (w.heap r).loadInfo with
    | none => exact absurd hload (hinfo hcpu)
    | some info => simp [imageIsAarch32, hexecve, hcpu, hload, update_apply, World.update]

/-- So does the translation of the results of an `execve`, whatever it was entered as. -/
theorem translateSyscallExit_execve {r : Ref} {w : World} (handle : Ref → ℤ → Prog ℤ)
    (hstatus : 0 < (w.heap r).status)
    (hexecve : enteredSysnum s (w.heap r) = .execve ∨ enteredSysnum s (w.heap r) = .execveat)
    (hloader : loadDone s (w.heap r) = false)
    (hinfo : s.target.cpu = .arm64 → (w.heap r).loadInfo ≠ none) :
    translateSyscallExit s handle r w =
      (.ok (), w.update r fun _ =>
        { w.heap r with isAarch32 := imageIsAarch32 s (w.heap r) }) := by
  have hsysnum : sysnumOf s r .original w = (.ok (enteredSysnum s (w.heap r)), w) := rfl
  unfold translateSyscallExit
  rw [bind_apply_ok (tracee_apply ..), if_neg (not_lt.mpr hstatus.le), bind_apply_ok hsysnum]
  rcases hexecve with hexecve | hexecve
  · rw [hexecve]
    exact translateExecveExit_apply s hexecve hloader hinfo
  · rw [hexecve]
    simp [imageIsAarch32, hexecve, World.update]

/-- The cached registers after the exit stage of an `execve`, and the rest of the record. -/
theorem finishExit_execve {r : Ref} {w : World} (h : ExecveReturns s r w)
    (handle : Ref → ℤ → Prog ℤ) :
    ∃ w', finishExit s handle r (afterSysexit s r (enteredExit s r w)) = (.ok (), w') ∧
      w'.calls = (afterSysexit s r (enteredExit s r w)).calls ∧
      w'.heap r = { w.heap r with
        regs := exitRegs s r w, isAarch32 := imageIsAarch32 s (w.heap r), status := 0 } := by
  have hself : (afterSysexit s r (enteredExit s r w)).heap r =
      { w.heap r with regs := exitRegs s r w } := by
    rw [afterSysexit_heap, enteredExit_heap]
    rfl
  generalize afterSysexit s r (enteredExit s r w) = after at hself
  have horiginal : (exitRegs s r w).original = (w.heap r).regs.original := (pokeAll_frame ..).1
  have hentered : enteredSysnum s (after.heap r) = enteredSysnum s (w.heap r) := by
    rw [hself]
    exact congrArg (translateSysnum s.target _) (peekReg_original horiginal _ .sysargNum)
  have hclass : imageIsAarch32 s (after.heap r) = imageIsAarch32 s (w.heap r) := by
    unfold imageIsAarch32
    rw [hentered, hself]
  have htranslate : translateSyscallExit s handle r after =
      (.ok (), after.update r fun _ =>
        { after.heap r with isAarch32 := imageIsAarch32 s (after.heap r) }) := by
    refine translateSyscallExit_execve s handle ?_ ?_ ?_ ?_
    · rw [hself]
      exact h.entered
    · rw [hentered]
      exact h.execve
    · rw [hself, ← h.notLoader]
      exact loadDone_regs s horiginal
    · rw [hself]
      exact h.hasLoadInfo
  have hnull : (after.heap r).chain.syscalls = .null := by
    rw [hself]
    exact h.unchained
  refine ⟨(after.update r fun _ =>
    { after.heap r with isAarch32 := imageIsAarch32 s (after.heap r) }).update r fun t =>
      { t with status := 0 }, ?_, rfl, ?_⟩
  · unfold finishExit
    rw [bind_apply_ok (tracee_apply ..), when, if_pos hnull, bind_apply_ok htranslate,
      bind_apply_ok (update_apply ..), bind_apply_ok (tracee_apply ..)]
    exact congrFun (if_neg (by simp [hnull])) _
  · rw [World.update_self, World.update_self, hclass, hself]

/-- After the exit of an `execve` that succeeded, the process has the registers that the kernel and
the user gave the new image exactly if nothing was changed since the entry, or the saved registers
that are restored are those of the new image. -/
theorem execveReturns_keepsImage_iff {r : Ref} {w : World} (h : ExecveReturns s r w)
    (handle : Ref → ℤ → Prog ℤ) :
    registerFile s (w.heap r).pid (translateSyscall s handle r w).2.calls =
        (exitRegs s r w).current ↔
      (exitRegs s r w).wereChanged = false ∨
        ∀ i ∈ (imageMode s (w.heap r)).restoredSlots,
          (w.heap r).regs.original i = (exitRegs s r w).current i := by
  obtain ⟨w', hexit, hcalls, hself⟩ := finishExit_execve s h handle
  have hframe : (exitRegs s r w).original = (w.heap r).regs.original ∧
      (exitRegs s r w).restoreOriginal = true := pokeAll_frame ..
  have hsynced : Synced s r w' := by
    intro hunchanged
    rw [hself] at hunchanged ⊢
    rw [hcalls, afterSysexit_registerFile, enteredExit_registerFile]
    exact (congrArg Regs.current (pokeAll_wereChanged hunchanged)).symm
  have hpushed := pushRegs_registerFile s hsynced
  rw [hself] at hpushed
  rw [translateSyscall_exit s h.fetched h.entered.ne' hexit, hpushed, pushedRegs]
  by_cases hchanged : (exitRegs s r w).wereChanged = true
  · rw [if_pos hchanged, ← hframe.1, hchanged]
    refine (restoreOriginalRegs_current_eq_iff hframe.2).trans ?_
    simp [imageMode, Tracee.mode]
  · rw [if_neg hchanged]
    simp [Bool.eq_false_iff.mpr hchanged]

end NewImage

/-- The registers at a syscall with a stack pointer. -/
def stackBank (number arg1 stackPointer : ℕ) : Bank :=
  (Mode.mk .arm64 false).setWord (syscallBank number arg1 0 0 0) .stackPointer stackPointer

/-- A tracee at the exit of an `execve` at whose entry nothing was changed. -/
def unchangedExecveWorld : World :=
  { World.initial with heap := fun _ =>
      { pid := 5, status := 1, loadInfo := some {},
        regs := ⟨zeroBank, stackBank 221 0x1000 0x7000, zeroBank, false, false⟩ } }

/-- The host that reports the registers of the new image. -/
def newImageSetup : Setup := Script.setup { banks := [stackBank 0 0 0x9000] }

set_option maxRecDepth 100000 in
/-- The tracee has entered an `execve`. -/
theorem unchangedExecve_entered : enteredSysnum newImageSetup (unchangedExecveWorld.heap 0) =
    .execve := by
  decide_cbv

set_option maxRecDepth 100000 in
/-- It has succeeded. -/
theorem unchangedExecve_result :
    toInt (peekReg (imageMode newImageSetup (unchangedExecveWorld.heap 0))
      (exitRegs newImageSetup 0 unchangedExecveWorld) .current .sysargResult) = 0 := by
  decide_cbv

/-- The new image of that `execve` keeps its registers. -/
theorem execveReturns_keepsImage_unchanged :
    registerFile newImageSetup 5
        (translateSyscall newImageSetup (fun _ _ => pure 0) 0 unchangedExecveWorld).2.calls =
      (exitRegs newImageSetup 0 unchangedExecveWorld).current := by
  have hreturns : ExecveReturns newImageSetup 0 unchangedExecveWorld :=
    ⟨by decide_cbv, by decide, rfl, Or.inl unchangedExecve_entered, by decide_cbv,
      by simp [unchangedExecveWorld], unchangedExecve_result.ge⟩
  exact (execveReturns_keepsImage_iff _ hreturns fun _ _ => pure 0).mpr (Or.inl rfl)

/-! ## An argument that the user replaces -/

/-- A root calls `execve`; the new image starts with another stack pointer. -/
def replacedPathScript : Script where
  banks := [stackBank 221 0x1000 0x7000, stackBank 0 0 0x9000]
  callbacks := true

/-- The user replaces the path that is executed. -/
def replacedPathSetup : Setup := replacedPathScript.setup.poking [(.sysarg1, 0x2000)]

/-- The attachment, the stop it causes, and the entry of the `execve`. -/
def replacedPathInputs : List Input :=
  [.traceNewPid 5, .stop 99 0xff00, .stop 5 0x137f, .stop 5 0x57f]

/-- The first tracee has entered an `execve` that succeeds, and at its exit the stack pointer of
the new image is replaced by the old one. -/
def LosesStackPointer (s : Setup) (outcome : Except Fault Unit × World) : Prop :=
  outcome.1.isOk = true ∧ 0 ≤ (fetchReply s 0 outcome.2).status ∧
    0 < (outcome.2.heap 0).status ∧ (outcome.2.heap 0).chain.syscalls = .null ∧
    enteredSysnum s (outcome.2.heap 0) = .execve ∧ loadDone s (outcome.2.heap 0) = false ∧
    (outcome.2.heap 0).loadInfo.isSome = true ∧
    toInt (peekReg (imageMode s (outcome.2.heap 0)) (exitRegs s 0 outcome.2) .current
      .sysargResult) = 0 ∧
    (exitRegs s 0 outcome.2).current 62 = 0x9000 ∧
    registerFile s 5 (translateSyscall s (handleTraceeEvent s 3) 0 outcome.2).2.calls 62 =
      0x7000 ∧ (outcome.2.heap 0).pid = 5

instance (s : Setup) (outcome : Except Fault Unit × World) :
    Decidable (LosesStackPointer s outcome) :=
  inferInstanceAs (Decidable (_ ∧ _))

set_option maxRecDepth 100000 in
/-- The new image loses its stack pointer. -/
theorem replacedPath_losesStackPointer :
    LosesStackPointer replacedPathSetup (replacedPathSetup.play replacedPathInputs) := by
  decide_cbv

/-- In a run the user has replaced the path of an `execve`, which succeeds, and its exit gives
the new image another register file than the kernel. -/
theorem replacedPath_losesImage :
    ∃ w, Run (eventLoop replacedPathSetup 3) (fun _ _ => True) World.initial w ∧
      ExecveReturns replacedPathSetup 0 w ∧
      registerFile replacedPathSetup (w.heap 0).pid
          (translateSyscall replacedPathSetup (handleTraceeEvent replacedPathSetup 3) 0 w).2.calls ≠
        (exitRegs replacedPathSetup 0 w).current := by
  obtain ⟨hok, hfetched, hentered, hchain, hexecve, hloader, hinfo, hresult, hnew, hold, hpid⟩ :=
    replacedPath_losesStackPointer
  refine ⟨_, Setup.play_run hok, ⟨hfetched, hentered, hchain, Or.inl hexecve, hloader,
    fun _ hnone => ?_, hresult.ge⟩, fun heq => ?_⟩
  · rw [hnone] at hinfo
    cases hinfo
  · have hslot := congrFun heq 62
    rw [hpid, hold, hnew] at hslot
    exact absurd hslot (by decide)

end Abyss
