import Abyss.Tracee.Frame
import Mathlib.Data.List.Permutation

/-!
# The end of a ptracee whose parent is its ptracer

The kernel reports such an end only once, so the tracer hides it from the ptracer and restarts
the ptracer's wait, on the promise that the kernel will answer it. The promise is kept by the
entry of the restarted wait, which decides anew whether the wait is emulated.
-/

namespace Abyss

open Machine

section HiddenExit

variable (s : Setup)

/-- The pid that a wait asks for, in the registers of the given version. -/
def waitPidOf (w : World) (ptracer : Ref) (version : RegVersion) : ℤ :=
  toInt (peekReg ((w.heap ptracer).mode s.target) (w.heap ptracer).regs version .sysarg1)

/-- The options of a wait, in the registers of the given version. -/
def waitOptionsOf (w : World) (ptracer : Ref) (version : RegVersion) : ℕ :=
  peekReg ((w.heap ptracer).mode s.target) (w.heap ptracer).regs version .sysarg3

/-- The state once the ptracer is marked as waiting in the kernel. -/
def waitingInKernel (ptracer : Ref) (w : World) : World :=
  w.update ptracer fun t =>
    { t with asPtracer := { t.asPtracer with waitsIn := .waitsInKernel } }

/-- The wait syscall of a ptracer goes to the kernel as it is. -/
def LetThrough (ptracer : Ref) (w : World) : Prop :=
  translateWaitEnter s ptracer w = (.ok 0, waitingInKernel ptracer w)

/-- The search looks at nothing that marking the ptracer changes. -/
theorem expectsPtracee_core (w : World) (ptracer : Ref) (pid : ℤ) (options : ℕ) :
    expectsPtracee w.core ptracer pid options = expectsPtracee w ptracer pid options := by
  unfold expectsPtracee
  rw [getPtracee_core]
  rfl

/-- Marking the ptracer is the only change before a wait is let through or emulated. -/
theorem translateWaitEnter_apply (ptracer : Ref) (w : World) :
    translateWaitEnter s ptracer w =
      (if (w.heap ptracer).asPtracer.nbPtracees = 0 then pure 0
      else if waitPidOf s w ptracer .original ≠ -1 ∧
        !expectsPtracee w ptracer (waitPidOf s w ptracer .original)
          (waitOptionsOf s w ptracer .original) then pure 0
      else emulateWait s ptracer : Prog ℤ) (waitingInKernel ptracer w) := by
  have hcore : (waitingInKernel ptracer w).core = w.core := w.update_core ptracer fun _ => rfl
  have hself : (waitingInKernel ptracer w).heap ptracer =
      { w.heap ptracer with
        asPtracer := { (w.heap ptracer).asPtracer with waitsIn := .waitsInKernel } } := by
    simp [waitingInKernel]
  have hexpects : ∀ pid options, expectsPtracee (waitingInKernel ptracer w) ptracer pid options =
      expectsPtracee w ptracer pid options := by
    intro pid options
    rw [← expectsPtracee_core, hcore, expectsPtracee_core]
  have hpid : waitPidOf s (waitingInKernel ptracer w) ptracer .original =
      waitPidOf s w ptracer .original := by
    unfold waitPidOf
    rw [hself]
    rfl
  have hoptions : waitOptionsOf s (waitingInKernel ptracer w) ptracer .original =
      waitOptionsOf s w ptracer .original := by
    unfold waitOptionsOf
    rw [hself]
    rfl
  have hnb : ((waitingInKernel ptracer w).heap ptracer).asPtracer.nbPtracees =
      (w.heap ptracer).asPtracer.nbPtracees := by
    rw [hself]
  rw [← hnb, ← hpid, ← hoptions, ← hexpects]
  unfold translateWaitEnter
  rw [bind_apply_ok (update_apply _ _ _), bind_apply_ok (tracee_apply _ _)]
  by_cases h : ((waitingInKernel ptracer w).heap ptracer).asPtracer.nbPtracees = 0
  · rw [if_pos h]
    exact congrFun (if_pos h) _
  · rw [if_neg h]
    exact congrFun (if_neg h) _

/-- Where a wait is let through. -/
theorem letThrough_iff (ptracer : Ref) (w : World) :
    LetThrough s ptracer w ↔
      (w.heap ptracer).asPtracer.nbPtracees = 0 ∨
        waitPidOf s w ptracer .original ≠ -1 ∧
          expectsPtracee w ptracer (waitPidOf s w ptracer .original)
            (waitOptionsOf s w ptracer .original) = false := by
  have hemulated : emulateWait s ptracer (waitingInKernel ptracer w) ≠
      (.ok 0, waitingInKernel ptracer w) := by
    intro h
    have hin := congrArg (fun r => (r.2.heap ptracer).asPtracer.waitsIn) h
    simp [emulateWait, bind_apply, pokeSysnum, update_apply, waitingInKernel] at hin
  rw [LetThrough, translateWaitEnter_apply]
  split
  · rename_i h
    simp [h]
  · rename_i h
    split
    · rename_i hfree
      simpa [h] using hfree
    · rename_i hbound
      simpa [h, hemulated] using hbound

/-- Detaching a ptracee only concerns the emulation. -/
theorem detachFromPtracer_view {β : Type} (view : Tracee → β) {r : Ref}
    (hptracee : ∀ t, view { t with asPtracee := { t.asPtracee with ptracer := none } } = view t)
    (hptracer : ∀ t x, view { t with asPtracer := x } = view t) (q : Ref) {b : β} :
    Keeps (fun w => view (w.heap r) = b) (fun _ _ => True) (detachFromPtracer q) := by
  have hupdate : ∀ {a : Ref} {f : Tracee → Tracee}, (∀ t, view (f t) = view t) →
      Keeps (fun w => view (w.heap r) = b) (fun _ _ => True) (update a f) := by
    intro a f hf
    refine update_keeps fun w hw => ?_
    rw [World.update_heap]
    split
    · subst a
      exact (hf _).trans hw
    · exact hw
  exact detachFromPtracer_keeps (fun _ _ _ => trivial) (hupdate hptracee)
    fun _ f => hupdate fun t => hptracer t (f t.asPtracer)

/-- The cached registers of a ptracer and its mode. -/
def HasRegs (ptracer : Ref) (regs : Regs) (isAarch32 : Bool) (w : World) : Prop :=
  (w.heap ptracer).regs = regs ∧ (w.heap ptracer).isAarch32 = isAarch32

/-- Detaching a ptracee leaves the registers alone. -/
theorem detachFromPtracer_regs (ptracee ptracer : Ref) (regs : Regs) (isAarch32 : Bool) :
    Keeps (HasRegs ptracer regs isAarch32) (fun _ _ => True) (detachFromPtracer ptracee) := by
  rintro w ⟨rfl, rfl⟩
  have hview := detachFromPtracer_view (fun t => (t.regs, t.isAarch32)) (r := ptracer)
    (fun _ => rfl) (fun _ _ => rfl) ptracee w rfl
  exact ⟨fun a v hv => Prod.mk.inj (hview.1 a v hv), fun _ _ _ => trivial⟩

/-- The wait is restarted with the arguments it had at its entry. -/
theorem restartWait_sameArguments {ptracer ptracee : Ref} {w w' : World}
    (h : restartWait s ptracer ptracee w = (.ok (), w')) :
    waitPidOf s w' ptracer .current = waitPidOf s w ptracer .original ∧
      waitOptionsOf s w' ptracer .current = waitOptionsOf s w ptracer .original := by
  unfold restartWait at h
  rw [bind_apply_ok (mark_apply ..), bind_apply_ok (update_apply ..)] at h
  obtain ⟨hregs, hmode⟩ := (detachFromPtracer_regs ptracee ptracer _ _ _ ⟨rfl, rfl⟩).1 _ _ h
  unfold waitPidOf waitOptionsOf Tracee.mode
  rw [hregs, hmode]
  simp [restartOriginalSyscall_peekReg, Tracee.mode]

/-- Where the tracer hides the end of a ptracee from its parent, only the zombie is left to be
freed, and the restarted wait is let through exactly if at its entry the ptracer has no ptracee any
more, or it waits for one pid and no ptracee of it matches. -/
theorem restartedWait_letThrough_iff {ptracer ptracee : Ref} {w restarted entered : World}
    (hends : (w.heap ptracee).endsForParent = true)
    (hrestart : restartWait s ptracer ptracee w = (.ok (), restarted))
    (hpid : waitPidOf s entered ptracer .original = waitPidOf s restarted ptracer .current)
    (hoptions :
      waitOptionsOf s entered ptracer .original = waitOptionsOf s restarted ptracer .current) :
    (∀ handle, updateWaitStatus s handle ptracer ptracee w =
        (do
          freeNotified s handle ptracee
          pure 0) restarted) ∧
      (LetThrough s ptracer entered ↔
        (entered.heap ptracer).asPtracer.nbPtracees = 0 ∨
          waitPidOf s w ptracer .original ≠ -1 ∧
            expectsPtracee entered ptracer (waitPidOf s w ptracer .original)
              (waitOptionsOf s w ptracer .original) = false) := by
  constructor
  · intro handle
    unfold updateWaitStatus
    rw [bind_apply_ok (tracee_apply ..)]
    refine (congrFun (if_pos hends) w).trans ?_
    exact bind_apply_ok hrestart
  · obtain ⟨hpid', hoptions'⟩ := restartWait_sameArguments s hrestart
    rw [letThrough_iff, hpid, hoptions, hpid', hoptions']

end HiddenExit

/-- The state in which a tracee enters a syscall with its current registers. -/
def enterSyscall (r : Ref) (w : World) : World :=
  w.update r fun t => { t with regs := saveOriginalRegs t.regs }

/-- A ptracer with a single ptracee, its child, which has exited. -/
def loneChildWorld : World where
  heap r := if r = 0 then { pid := 5, asPtracer := { nbPtracees := 1, waitPid := -1 } }
    else { pid := 7, parent := some 0, asPtracee := { ptracer := some 0, event := ⟨0, true⟩ } }
  next := 2
  tracees := [1, 0]
  nextVpid := 3
  lastExitStatus := 0
  snewAttachPid := -1
  calls := []

/-- The wait restarted there is let through when it is entered at once. -/
theorem restartedWait_letThrough_loneChild :
    LetThrough ({} : Script).setup 0
      (enterSyscall 0 (restartWait ({} : Script).setup 0 1 loneChildWorld).2) := by
  have hends : (loneChildWorld.heap 1).endsForParent = true := rfl
  have hrestart : restartWait ({} : Script).setup 0 1 loneChildWorld =
      (.ok (), (restartWait ({} : Script).setup 0 1 loneChildWorld).2) := Prod.ext rfl rfl
  have hpid : waitPidOf ({} : Script).setup
        (enterSyscall 0 (restartWait ({} : Script).setup 0 1 loneChildWorld).2) 0 .original =
      waitPidOf ({} : Script).setup
        (restartWait ({} : Script).setup 0 1 loneChildWorld).2 0 .current := rfl
  exact (restartedWait_letThrough_iff _ hends hrestart hpid rfl).2.mpr (Or.inl rfl)

/-! ## A ptracer with another ptracee -/

/-- A process forks the processes 7 and 9, attaches to both and waits for any of them. -/
def twoChildrenScript : Script where
  banks := [syscallBank 1 0 0 0 0, syscallBank 1 0 0 0 0,
    syscallBank 117 16 7 0 0, syscallBank 117 16 7 0 0,
    syscallBank 117 16 9 0 0, syscallBank 117 16 9 0 0,
    syscallBank 260 (2 ^ 64 - 1) 0 0 0, syscallBank 260 (2 ^ 64 - 1) 0 0 0,
    syscallBank 260 (2 ^ 64 - 1) 0 0 0]
  messages := [7, 9]

/-- Its statuses up to the wait, and then the exit of process 7. -/
def twoChildrenInputs : List Input :=
  [.stop 5 0x137f, .stop 5 0x1057f, .stop 5 0x1057f, .stop 5 0x857f, .stop 5 0x857f,
    .stop 5 0x857f, .stop 5 0x857f, .stop 5 0x857f, .stop 5 0x857f, .stop 7 0]

/-- Whether a call records that the wait of a ptracer was restarted. -/
def Call.isWaitRestarted (ptracer ptracee : Ref) : Call → Bool
  | .waitRestarted p q => p = ptracer && q = ptracee
  | _ => false

/-- The state in which the restarted wait of the first tracee is entered. -/
def enteringWait (s : Setup) (restarted : World) : World :=
  enterSyscall 0 (fetchRegs s 0 restarted).2

/-- The end of the second tracee was hidden from the first one, whose restarted wait asks for
the same, while it still has a ptracee and waits for any of them. -/
def EmulatedAgain (s : Setup) (outcome : Except Fault Unit × World) : Prop :=
  outcome.1.isOk = true ∧ outcome.2.calls.any (Call.isWaitRestarted 0 1) = true ∧
    waitPidOf s (enteringWait s outcome.2) 0 .original = waitPidOf s outcome.2 0 .current ∧
    waitOptionsOf s (enteringWait s outcome.2) 0 .original =
      waitOptionsOf s outcome.2 0 .current ∧
    ((enteringWait s outcome.2).heap 0).asPtracer.nbPtracees ≠ 0 ∧
    waitPidOf s (enteringWait s outcome.2) 0 .original = -1

instance (s : Setup) (outcome : Except Fault Unit × World) :
    Decidable (EmulatedAgain s outcome) :=
  inferInstanceAs (Decidable (_ ∧ _))

set_option maxRecDepth 100000 in
/-- The wait of the two children is emulated again. -/
theorem twoChildren_emulatedAgain :
    EmulatedAgain twoChildrenScript.setup (twoChildrenScript.play twoChildrenInputs) := by
  decide_cbv

/-- The exit of process 7 is hidden from its parent in a run, and the parent's restarted wait,
which has the same arguments, is not let through. -/
theorem twoChildren_notLetThrough :
    ∃ restarted entered : World,
      Run (eventLoop twoChildrenScript.setup 3) (fun _ _ => True) World.initial restarted ∧
      restarted.calls.any (Call.isWaitRestarted 0 1) = true ∧
      waitPidOf twoChildrenScript.setup entered 0 .original =
        waitPidOf twoChildrenScript.setup restarted 0 .current ∧
      waitOptionsOf twoChildrenScript.setup entered 0 .original =
        waitOptionsOf twoChildrenScript.setup restarted 0 .current ∧
      ¬LetThrough twoChildrenScript.setup 0 entered := by
  obtain ⟨hok, hrestarted, hpid, hoptions, hnb, hany⟩ := twoChildren_emulatedAgain
  refine ⟨(twoChildrenScript.play twoChildrenInputs).2, enteringWait _ _, Script.play_run hok,
    hrestarted, hpid, hoptions, ?_⟩
  rw [letThrough_iff]
  rintro (hnone | ⟨hpid, -⟩)
  · exact hnb hnone
  · exact hpid hany

end Abyss
