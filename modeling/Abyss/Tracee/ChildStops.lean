import Abyss.Tracee.Birth

/-!
# The stops of a new process

A process that stops before the event of its parent is handled with an empty record. A stop that is
not at a syscall only allows the signal of its first one, whenever it comes; a stop at a syscall is
translated at once. The first stop of a process that has got a ptracer starts its tracing.
-/

namespace Abyss

open Machine

/-! ## The stops of the child -/

section Stops

variable {s : Setup} {w : World} {parent : Ref} {childPid : ℤ} {registers : Reply} {b : Birth}
  {C : List Call → Prop} {n : ℕ} {E : Fault → World → Prop}

/-- A change of the record of the child. -/
theorem Known.update_keeps {f : Tracee → Tracee} {b' : Birth}
    (hf : ∀ t, (f t).pid = t.pid ∧ (f t).terminated = t.terminated ∧ (f t).isRoot = t.isRoot ∧
      (f t).seccompEnabled = t.seccompEnabled)
    (hbirth : ∀ t, t.birth = b → t.seccompEnabled = false → (f t).birth = b') :
    Triple (Recorded C (Known childPid b w)) (update w.next f)
      (fun _ => Recorded C (Known childPid b' w)) E :=
  Triple.modify fun _ hu =>
    ⟨hu.1.update_child (hf _) (hbirth _ hu.1.birth hu.1.seccompEnabled), hu.2⟩

/-- That the child is about to be resumed does not matter to what is known of it. -/
theorem Known.indifferent : Indifferent w.next (Known childPid b w) where
  update {u f} hf hu := by
    have hsame : ∀ {α : Type} (g : Tracee → α), (∀ t, g t.paused = g t) →
        g (f (u.heap w.next)) = g (u.heap w.next) := Tracee.of_paused (hf _)
    exact hu.update_child ⟨hsame Tracee.pid fun _ => rfl, hsame Tracee.terminated fun _ => rfl,
      hsame Tracee.isRoot fun _ => rfl, hsame Tracee.seccompEnabled fun _ => rfl⟩
      ((hsame Tracee.birth fun _ => rfl).trans hu.birth)
  log c _ hu := hu.log c

/-- The child after a stop that is no event of a parent and not at a syscall. -/
def Birth.stopped (b : Birth) (kind : StopKind) : Birth :=
  if kind = .stop ∧ b.sigstop = .ignored then { b with sigstop := .allowed } else b

/-- Whether a stop leaves a child alone but for its first one. -/
def StopKind.calm (kind : StopKind) : Prop := kind ≠ .syscall ∧ kind.cloneFlags = none

/-- A calm stop of a child without a ptracer is handled. -/
theorem Known.handleStop_calm {handle : Ref → ℤ → Prog ℤ} {signal : ℤ}
    (hseccomp : stopKind signal = .seccomp → b.seccomp ≠ .enabled)
    (hcalm : (stopKind signal).calm) :
    Triple (Recorded C (Known childPid b w)) (handleStop s handle w.next signal)
      (fun _ => Recorded C (Known childPid (b.stopped (stopKind signal)) w)) E := by
  have hnone : ∀ kind, stopKind signal = kind → kind.cloneFlags = none := fun _ hkind =>
    hkind ▸ hcalm.2
  unfold handleStop
  cases hkind : stopKind signal with
  | trap =>
    refine Triple.tracee_bind fun t => Triple.ite (fun _ => Triple.pure fun u hu => hu.1)
      fun hroot => ?_
    rintro u ⟨hu, rfl⟩
    simp [hu.1.isRoot] at hroot
  | seccomp =>
    refine Triple.bind (M := fun _ => Recorded C (Known childPid b w)) ?_ fun _ => Keeps.pure 0
    have hdetect : ∀ t : Tracee, t.seccompEnabled = false → detectSeccomp t = t := fun t ht => by
      simp [detectSeccomp, ht]
    refine Triple.bind (M := fun _ => Recorded C (Known childPid b w))
      (Known.update_keeps (fun t => ?_) fun t hb ht => by rw [hdetect t ht, hb]) fun _ => ?_
    · unfold detectSeccomp
      split <;> exact ⟨rfl, rfl, rfl, rfl⟩
    refine Triple.tracee_bind fun t => ?_
    rintro u ⟨hu, rfl⟩
    have hslow : (u.heap w.next).seccomp ≠ .enabled := by
      rw [show (u.heap w.next).seccomp = b.seccomp from congrArg Birth.seccomp hu.1.birth]
      exact hseccomp hkind
    rw [if_pos hslow]
    exact Keeps.pure () u hu
  | syscall => exact absurd hkind hcalm.1
  | vfork => cases hnone _ hkind
  | fork => cases hnone _ hkind
  | clone => cases hnone _ hkind
  | vforkDone => exact Triple.pure fun u hu => hu
  | exec => exact Triple.pure fun u hu => hu
  | exit => exact Triple.pure fun u hu => hu
  | stop =>
    refine Triple.tracee_bind fun t => Triple.ite (fun hignored => ?_) fun hallowed => ?_
    · refine Triple.bind (M := fun _ => Recorded C (Known childPid (b.stopped .stop) w)) ?_
        fun _ => Keeps.pure 0
      rintro u ⟨hu, rfl⟩
      have hsigstop : b.sigstop = .ignored := by
        rw [← hu.1.birth]
        exact hignored
      have hallow : Triple (Recorded C (Known childPid b w))
          (update w.next fun t => { t with sigstop := .allowed })
          (fun _ => Recorded C (Known childPid (b.stopped .stop) w)) E :=
        Known.update_keeps (fun _ => ⟨rfl, rfl, rfl, rfl⟩) fun t hb _ => by
          rw [Birth.stopped, if_pos ⟨rfl, hsigstop⟩, ← hb]
          rfl
      exact hallow u hu
    · refine Triple.pure ?_
      rintro u ⟨hu, rfl⟩
      have hsigstop : b.sigstop ≠ .ignored := by
        rw [← hu.1.birth]
        exact hallowed
      rw [Birth.stopped, if_neg fun h => hsigstop h.2]
      exact hu
  | signal => exact Triple.pure fun u hu => hu

/-! ### A stage of a syscall -/

/-- More than a number of stages of syscalls of a listed child have been handled. -/
structure StageAdded (childPid : ℤ) (child : Ref) (n : ℕ) (u : World) : Prop where
  listed : child ∈ u.tracees
  pid : (u.heap child).pid = childPid
  settled : (u.heap child).settled
  stages : n < stagesOf child u.calls

/-- The stages of a tracee are marks. -/
theorem stagesOf_marks (r : Ref) (u : World) : stagesOf r u.marks = stagesOf r u.calls := by
  unfold stagesOf World.marks
  rw [List.countP_filter]
  refine List.countP_congr fun c _ => ?_
  cases c <;> simp [Call.isStageOf, Call.isMark]

/-- A change of the child alone keeps its stages. -/
theorem StageAdded.solo {child : Ref} {u v : World} (hu : StageAdded childPid child n u)
    (h : Solo child u v) : StageAdded childPid child n v := by
  obtain ⟨past, hpast, -⟩ := h.marks
  refine ⟨h.tracees.symm ▸ hu.listed, h.pid.trans hu.pid, h.settled hu.settled, ?_⟩
  rw [← stagesOf_marks, hpast, stagesOf, List.countP_append]
  have hstages := hu.stages
  rw [← stagesOf_marks, stagesOf] at hstages
  omega

/-- So does any call. -/
theorem StageAdded.log {child : Ref} {u : World} (hu : StageAdded childPid child n u) (c : Call) :
    StageAdded childPid child n (u.log c) :=
  ⟨hu.listed, hu.pid, hu.settled,
    hu.stages.trans_le (List.Sublist.countP_le (List.sublist_cons_self c _))⟩

/-- That the child is about to be resumed does not matter to its stages. -/
theorem StageAdded.indifferent {child : Ref} : Indifferent child (StageAdded childPid child n) where
  update hf hu := by
    refine ⟨hu.listed, ?_, ?_, hu.stages⟩
    · rw [World.update_self, Tracee.of_paused (hf _) Tracee.pid fun _ => rfl, hu.pid]
    · rw [World.update_self, Tracee.of_paused (hf _) Tracee.settled fun _ => rfl]
      exact hu.settled
  log c _ hu := hu.log c

/-- The enter stage is one more stage. -/
theorem Known.enterStage_stageAdded :
    Triple (Recorded (fun past => stagesOf w.next past = n) (Known childPid b w))
      (enterStage s w.next) (fun _ => StageAdded childPid w.next n) E := by
  refine enterStage_marked (fun _ _ hu h => hu.solo h) (fun _ hu => hu.settled) fun u hu => ?_
  refine ⟨hu.1.tracees ▸ List.mem_cons_self, hu.1.pid, fun hroot => ?_, ?_⟩
  · rw [World.log_heap, hu.1.isRoot] at hroot
    cases hroot
  · rw [World.log_calls, stagesOf, List.countP_cons_of_pos (by simp [Call.isStageOf]), ← hu.2]
    exact Nat.lt_succ_self _

/-- A child that stops at a syscall before the event of its parent is translated as if it had got
everything from it. -/
theorem Known.handleSyscallStop_stageAdded (h : Births s w parent childPid registers)
    (hseccomp : b.seccomp = .disabled) (hstatus : b.status = 0) {handle : Ref → ℤ → Prog ℤ} :
    Triple (Recorded (fun past => SeenStopped w.next past ∧ stagesOf w.next past = n)
        (Known childPid b w))
      (handleSyscallStop s handle w.next) (fun _ => StageAdded childPid w.next n) E := by
  have hsolo : ∀ u v, StageAdded childPid w.next n u → Solo w.next u v →
      StageAdded childPid w.next n v := fun _ _ hu h => hu.solo h
  have hexpect : ∀ t : Tracee, t.birth = b → expectSysexit t = t := fun t hb =>
    if_pos (by
      rw [show t.seccomp = b.seccomp from congrArg Birth.seccomp hb, hseccomp]
      exact nofun)
  refine Triple.tracee_bind fun t => Triple.ite (fun hdisabling => ?_) fun _ => ?_
  · rintro u ⟨hu, rfl⟩
    rw [show (u.heap w.next).seccomp = b.seccomp from congrArg Birth.seccomp hu.1.birth,
      hseccomp] at hdisabling
    cases hdisabling
  let seen : World → Prop :=
    Recorded (fun past => SeenStopped w.next past ∧ stagesOf w.next past = n) (Known childPid b w)
  refine Triple.bind (M := fun _ => seen) (fun u hu => ?_) fun _ => ?_
  · have hsame := hexpect _ hu.1.1.birth
    refine Triple.of_ok (update_apply ..) ⟨hu.1.1.update_child ?_ ?_, hu.1.2⟩
    · rw [hsame]
      exact ⟨rfl, rfl, rfl, rfl⟩
    · rw [hsame, hu.1.1.birth]
  refine Triple.bind (M := fun _ => StageAdded childPid w.next n) ?_
    fun _ => own_keeps hsolo fun _ _ => Own.disabled _
  refine Triple.tracee_bind fun t => ?_
  rintro u ⟨⟨hu, hseen, hstages⟩, rfl⟩
  have hentry : (u.heap w.next).isInSysenter = true := by
    have hzero : (u.heap w.next).status = 0 := (congrArg Birth.status hu.birth).trans hstatus
    simp [Tracee.isInSysenter, hzero]
  have hreply : 0 ≤ (fetchReply s w.next u).status := by
    rw [fetchReply, hu.pid]
    exact h.readable u.calls hseen
  rw [bind_apply_ok (fetchRegs_apply s hreply), if_neg (lt_irrefl _), if_pos hentry]
  have hasked := hu.log (.getRegs (u.heap w.next).pid)
  refine Triple.bind Known.enterStage_stageAdded (fun _ => ?_) _
    ⟨hasked.update_child ⟨rfl, rfl, rfl, rfl⟩ hasked.birth,
      stagesOf_skipsMinor _ _ (.getRegs _) _ rfl hstages⟩
  exact Keeps.bind (silent_keeps hsolo (pushRegs_quiet s _)) fun _ => Keeps.pure ()

/-! ### The rounds of the child -/

/-- A round deals with a stop of a child without a ptracer. -/
theorem Births.childRound (h : Births s w parent childPid registers) {status : ℤ} {fuel : ℕ}
    (hstopped : wifstopped status = true) (huntraced : b.asPtracee = {}) (hC : SkipsMinor C)
    {Q : World → Prop}
    (hhandle : ∀ handle, Triple (Recorded (fun past => SeenStopped w.next past ∧ C past)
        (Known childPid b w))
      (handleStop s handle w.next (stopSignal status)) (fun _ => Q) fun _ _ => True)
    (hdone : Keeps Q (fun _ _ => True) (update w.next fun t => { t with asPtracee :=
      { t.asPtracee with proot := { t.asPtracee.proot with pending := false } } }))
    (hrestart : ∀ signal, Keeps Q (fun _ _ => True) (restartTracee s w.next signal)) :
    Triple (Recorded C (Expecting childPid b w)) (eventLoop s fuel (.stop childPid status))
      (fun _ => Q) fun _ _ => True := by
  rintro u ⟨hu, hcalls⟩
  obtain ⟨v, hget, hv, hkeeps⟩ := h.getTracee_known hu none nofun
  rw [eventLoop_stopped (h.still_alive hu) hstopped, bind_apply_ok hget]
  let seen : World → Prop :=
    Recorded (fun past => SeenStopped w.next past ∧ C past) (Known childPid b w)
  have hseen : Indifferent w.next seen :=
    Known.indifferent.recorded ((seenStopped_skipsMinor _).and hC)
  refine Triple.bind (M := fun _ => Recorded C (Known childPid b w))
    ((Known.indifferent.recorded hC).update_keeps (f := fun t => { t with running := false })
      fun _ => rfl) (fun _ => ?_) v ⟨hv, hkeeps C hC hcalls⟩
  refine Triple.bind (M := fun _ => seen) (Triple.modify fun v hv => ?_) fun _ => ?_
  · exact ⟨hv.1.log _, ⟨status, v.calls, NotRestarted.refl ..⟩, hC _ _ rfl hv.2⟩
  refine Triple.tracee_bind fun t => ?_
  rintro v ⟨hv, rfl⟩
  have hnone : (v.heap w.next).asPtracee.ptracer = none := by
    rw [show (v.heap w.next).asPtracee = b.asPtracee from congrArg Birth.asPtracee hv.1.birth,
      huntraced]
  rw [if_pos hnone, bind_apply_ok (pure_apply ..)]
  refine Triple.ite (fun _ => Triple.bind (M := fun _ => Q) ?_ fun signal => ?_)
    (fun hnot => absurd rfl hnot) v hv
  · cases fuel with
    | zero => exact Triple.fault fun _ _ => trivial
    | succ fuel =>
      refine Triple.bind (M := fun _ => seen) (hseen.mark_keeps rfl) fun _ => ?_
      refine Triple.bind (M := fun _ => seen) (hseen.update_keeps fun t => ?_) fun _ => ?_
      · unfold chooseRestart
        split <;> rfl
      rw [handleStatus_stopped s hstopped]
      refine Triple.bind (hhandle _) fun signal => ?_
      exact Keeps.bind hdone fun _ => Keeps.pure signal
  · exact Keeps.bind (hrestart signal) fun _ => Keeps.pure ()

/-- A calm stop makes no stage. -/
theorem Births.calmRound (h : Births s w parent childPid registers) {status : ℤ} (fuel : ℕ)
    (hstopped : wifstopped status = true) (huntraced : b.asPtracee = {}) (hC : SkipsMinor C)
    (hrestarted : ∀ how past, C past → C (.restarted w.next how :: past))
    (hseccomp : stopKind (stopSignal status) = .seccomp → b.seccomp ≠ .enabled)
    (hcalm : (stopKind (stopSignal status)).calm) :
    Triple (Recorded C (Expecting childPid b w)) (eventLoop s fuel (.stop childPid status))
      (fun _ => Recorded C (Known childPid (b.stopped (stopKind (stopSignal status))) w))
      fun _ _ => True := by
  refine h.childRound hstopped huntraced hC (fun _ => ?_) ?_ fun signal => ?_
  · exact (Known.handleStop_calm hseccomp hcalm).conseq (fun _ hu => ⟨hu.1, hu.2.2⟩)
      (fun _ _ h => h) fun _ _ h => h
  · refine Known.update_keeps (fun _ => ⟨rfl, rfl, rfl, rfl⟩) fun t hb _ => ?_
    have huntraced' : t.asPtracee = {} := by
      rw [show t.asPtracee = _ from congrArg Birth.asPtracee hb, Birth.stopped]
      split <;> exact huntraced
    rw [← hb]
    simp [Tracee.birth, huntraced']
  · exact (Known.indifferent.recorded hC).restartTracee_keeps
      (fun u how hu => ⟨hu.1.log _, hrestarted how _ hu.2⟩) signal

/-- The stop at a syscall makes one. -/
theorem Births.syscallRound (h : Births s w parent childPid registers) {status : ℤ} (fuel : ℕ)
    (hstopped : wifstopped status = true) (huntraced : b.asPtracee = {})
    (hseccomp : b.seccomp = .disabled) (hstatus : b.status = 0)
    (hsyscall : stopKind (stopSignal status) = .syscall) :
    Triple (Recorded (fun past => stagesOf w.next past = n) (Expecting childPid b w))
      (eventLoop s fuel (.stop childPid status)) (fun _ => StageAdded childPid w.next n)
      fun _ _ => True := by
  have hsolo : ∀ u v, StageAdded childPid w.next n u → Solo w.next u v →
      StageAdded childPid w.next n v := fun _ _ hu h => hu.solo h
  refine h.childRound hstopped huntraced (stagesOf_skipsMinor _ _) (fun handle => ?_) ?_
    fun signal => StageAdded.indifferent.restartTracee_keeps (fun u how hu => hu.log _) signal
  · unfold handleStop
    rw [hsyscall]
    exact Triple.bind (Known.handleSyscallStop_stageAdded h hseccomp hstatus) fun _ => Keeps.pure 0
  · exact own_keeps hsolo fun _ _ => Own.taken _

/-! ### The first stop of a traced child -/

/-- The tracing of the child has started. -/
structure Started (childPid : ℤ) (w u : World) : Prop where
  tracees : u.tracees = w.next :: w.tracees
  pid : (u.heap w.next).pid = childPid
  tracingStarted : (u.heap w.next).asPtracee.tracingStarted = true
  isZombie : (u.heap w.next).asPtracee.isZombie = false

/-- A change that leaves the start of the tracing alone. -/
theorem Started.update {u : World} (hu : Started childPid w u) {r : Ref} {f : Tracee → Tracee}
    (hf : ∀ t, (f t).pid = t.pid ∧ (f t).asPtracee.tracingStarted = t.asPtracee.tracingStarted ∧
      (f t).asPtracee.isZombie = t.asPtracee.isZombie) : Started childPid w (u.update r f) := by
  by_cases hr : w.next = r
  · subst hr
    obtain ⟨hpid, hstarted, hzombie⟩ := hf (u.heap w.next)
    refine ⟨hu.tracees, ?_, ?_, ?_⟩
    · rw [World.update_self, hpid, hu.pid]
    · rw [World.update_self, hstarted, hu.tracingStarted]
    · rw [World.update_self, hzombie, hu.isZombie]
  · have hsame : (u.update r f).heap w.next = u.heap w.next := by rw [World.update_heap, if_neg hr]
    exact ⟨hu.tracees, hsame ▸ hu.pid, hsame ▸ hu.tracingStarted, hsame ▸ hu.isZombie⟩

/-- A call does not matter to it. -/
theorem Started.log {u : World} (hu : Started childPid w u) (c : Call) :
    Started childPid w (u.log c) :=
  ⟨hu.tracees, hu.pid, hu.tracingStarted, hu.isZombie⟩

/-- That a tracee is about to be resumed does not matter, either. -/
theorem Started.indifferent {r : Ref} : Indifferent r (Started childPid w) where
  update hf hu := hu.update fun t => ⟨Tracee.of_paused (hf t) Tracee.pid fun _ => rfl,
    Tracee.of_paused (hf t) (fun t => t.asPtracee.tracingStarted) fun _ => rfl,
    Tracee.of_paused (hf t) (fun t => t.asPtracee.isZombie) fun _ => rfl⟩
  log c _ hu := hu.log c

/-- A change that leaves the start of the tracing alone keeps it. -/
theorem Started.update_keeps {r : Ref} {f : Tracee → Tracee}
    (hf : ∀ t, (f t).pid = t.pid ∧ (f t).asPtracee.tracingStarted = t.asPtracee.tracingStarted ∧
      (f t).asPtracee.isZombie = t.asPtracee.isZombie) :
    Keeps (Started childPid w) E (Abyss.update r f) :=
  Keeps.modify fun _ hu => hu.update hf

/-- The first stop is a stop. -/
theorem firstStop_stopped : wifstopped firstStop = true := by decide

/-- It is one by a signal. -/
theorem firstStop_kind : stopKind (stopSignal firstStop) = .stop := by decide

/-- It is a calm one. -/
theorem firstStop_calm : (stopKind (stopSignal firstStop)).calm := by
  rw [firstStop_kind]
  exact ⟨by decide, rfl⟩

/-- The first stop of a child with a ptracer is passed to it. -/
theorem Known.handlePtraceeEvent_started {handle : Ref → ℤ → Prog ℤ} {ptracer : Ref}
    (hptracer : b.asPtracee.ptracer = some ptracer) (hzombie : b.asPtracee.isZombie = false) :
    Triple (Known childPid b w) (handlePtraceeEvent s handle w.next firstStop)
      (fun _ => Started childPid w) E := by
  refine Triple.tracee_bind fun t => ?_
  rintro u ⟨hu, rfl⟩
  have hsame : (u.heap w.next).asPtracee = b.asPtracee := congrArg Birth.asPtracee hu.birth
  rw [hsame, hptracer]
  have hfilter : ∀ t, filterEvent t firstStop = some (firstStop, false) := fun t => by
    simp [filterEvent, firstStop_kind, StopKind.option]
  dsimp only
  rw [bind_apply_ok (update_apply ..), if_pos firstStop_stopped, hfilter]
  have hstarts : (!wifstopped firstStop ||
      decide (stopKind (stopSignal firstStop) ≠ .syscall)) = true := by decide
  dsimp only
  rw [hstarts, Bool.or_true, bind_apply_ok (update_apply ..), if_neg (by simp)]
  have hstarted : Started childPid w ((u.update w.next fun t => { t with
      asPtracee := { t.asPtracee with proot := ⟨firstStop, true⟩ } }).update w.next fun t => { t with
      asPtracee := { t.asPtracee with
        tracingStarted := t.asPtracee.tracingStarted || true } }) := by
    refine ⟨hu.tracees, ?_, ?_, ?_⟩
    · rw [World.update_self, World.update_self, hu.pid]
    · rw [World.update_self, Bool.or_true]
    · rw [World.update_self, World.update_self, hsame, hzombie]
  refine Triple.bind (M := fun _ => Started childPid w) (Keeps.pure ()) (fun _ => ?_) _ hstarted
  refine Triple.bind (M := fun _ u => Started childPid w u ∧
    (u.heap w.next).asPtracee.event.value = firstStop)
    (Triple.modify fun v hv => ⟨hv.update fun _ => ⟨rfl, rfl, rfl⟩, ?_⟩) fun _ => ?_
  · rw [World.update_self]
  exact (Started.indifferent.notifyPtracer_marks firstStop_stopped
    (fun _ hv => hv.update fun _ => ⟨rfl, rfl, rfl⟩) (fun _ hv => hv.isZombie) Started.indifferent
    (fun _ _ hv => hv.log _) false true).conseq (fun _ hv => hv)
    (fun _ _ hv => hv.elim And.right id) fun _ _ h => h

/-- The first stop of a child whose tracing has started is handled. -/
theorem Started.handleTraceeEvent_keeps (fuel : ℕ) :
    Keeps (Started childPid w) (fun _ _ => True) (handleTraceeEvent s fuel w.next firstStop) := by
  cases fuel with
  | zero => exact Keeps.fault fun _ _ => trivial
  | succ fuel =>
    refine Keeps.bind (Started.indifferent.mark_keeps (r := w.next) rfl) fun _ => ?_
    refine Keeps.bind (Started.update_keeps fun t => ?_) fun _ => ?_
    · unfold chooseRestart
      split <;> exact ⟨rfl, rfl, rfl⟩
    refine Keeps.bind ?_ fun signal =>
      Keeps.bind (Started.update_keeps fun _ => ⟨rfl, rfl, rfl⟩) fun _ => Keeps.pure signal
    rw [handleStatus_stopped s firstStop_stopped]
    unfold handleStop
    rw [firstStop_kind]
    refine Keeps.bind (tracee_keeps _) fun t => Keeps.ite (fun _ => ?_) fun _ => Keeps.pure _
    exact Keeps.bind (Started.update_keeps fun _ => ⟨rfl, rfl, rfl⟩) fun _ => Keeps.pure 0

/-- A round deals with the first stop of a child with a ptracer. -/
theorem Births.startedRound (h : Births s w parent childPid registers) {ptracer : Ref} (fuel : ℕ)
    (hptracer : b.asPtracee.ptracer = some ptracer) (hzombie : b.asPtracee.isZombie = false) :
    Triple (Known childPid b w) (eventLoop s fuel (.stop childPid firstStop))
      (fun _ => Started childPid w) fun _ _ => True := by
  intro u hu
  obtain ⟨v, hget, hv, -⟩ := h.getTracee_known (Or.inr hu) none nofun
  rw [eventLoop_stopped (h.still_alive (Or.inr hu)) firstStop_stopped, bind_apply_ok hget]
  have hdispatch : Triple (Known childPid b w) (dispatch s fuel w.next firstStop)
      (fun _ => Started childPid w) fun _ _ => True := by
    refine Triple.bind (M := fun _ => Known childPid b w)
      (Triple.modify fun v hv => hv.update_child ⟨rfl, rfl, rfl, rfl⟩ hv.birth) fun _ => ?_
    refine Triple.bind (M := fun _ => Known childPid b w) (Known.aside.mark_keeps rfl) fun _ => ?_
    refine Triple.tracee_bind fun t => ?_
    rintro v ⟨hv, rfl⟩
    have hsame : (v.heap w.next).asPtracee = b.asPtracee := congrArg Birth.asPtracee hv.birth
    rw [if_neg (by simp [hsame, hptracer])]
    refine Triple.bind (Known.handlePtraceeEvent_started hptracer hzombie)
      (fun keepStopped => Keeps.when fun _ => ?_) v hv
    refine Keeps.bind (Started.handleTraceeEvent_keeps fuel) fun signal => ?_
    exact Keeps.bind (Started.indifferent.restartTracee_keeps (fun _ _ hu => hu.log _) signal)
      fun _ => Keeps.pure ()
  exact hdispatch v hv

end Stops

end Abyss
