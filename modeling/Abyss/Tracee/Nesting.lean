import Abyss.Library.Approximation
import Abyss.Ptrace.Accounting

/-!
# How deep the handling of events nests

Handling the event of a tracee may handle the event that a ptracee of it was put off with. That
event is calm, so its own handling stays within the ptracee and handles no third event. Hence the
recursion of the event loop is at most two levels deep, and the bound that the model puts on its
depth is never met: from two on, a larger bound changes nothing, in any round of any run. The
kernel has to make no process its own tracer; a tracee that were its own ptracer could ask for its
own event to be handled while it is being handled.
-/

namespace Abyss

open Machine

/-! ## A deeper recursion does the same -/

section Approx

variable {s : Setup} {e : Fault} {h h' : Ref → ℤ → Prog ℤ}
  (hh : ∀ q status, Approx e (h q status) (h' q status))
include hh

/-- The release of a relative approximates with its handler. -/
theorem releaseRelative_approx (dead relative : Ref) :
    Approx e (releaseRelative s h dead relative) (releaseRelative s h' dead relative) := by
  refine .after _ fun _ => .after _ fun t => .when (.after _ fun _ => .before ?_ _)
  exact .after _ fun t => .ite (.before (hh _ _) _) (.refl _)

/-- So does what is done before a tracee is freed. -/
theorem beforeTraceeFree_approx (r : Ref) :
    Approx e (beforeTraceeFree s h r) (beforeTraceeFree s h' r) := by
  refine .after _ fun t => .before (.ite (.refl _) ?_) _
  refine .after _ fun _ => .after _ fun w => .before ?_ _
  exact .forEach (releaseRelative_approx hh r) _

/-- So does the removal of all that have ended. -/
theorem freeTerminatedTracees_approx :
    Approx e (freeTerminatedTracees s h) (freeTerminatedTracees s h') := by
  refine .after _ fun w => .forEach (fun r => ?_) _
  exact .after _ fun t => .when (beforeTraceeFree_approx hh r)

/-- So does the status of a wait. -/
theorem updateWaitStatus_approx (ptracer ptracee : Ref) :
    Approx e (updateWaitStatus s h ptracer ptracee) (updateWaitStatus s h' ptracer ptracee) := by
  refine .after _ fun t => .ite ?_ ?_
  · refine .after _ fun _ => .before ?_ _
    exact .after _ fun t => .when (beforeTraceeFree_approx hh ptracee)
  · refine .after _ fun address => .after _ fun p => .after _ fun reply => .ite (.refl _) ?_
    refine .after _ fun _ => .after _ fun t => .before (.when ?_) _
    exact .after _ fun _ => beforeTraceeFree_approx hh ptracee

/-- So does an emulated wait. -/
theorem translateEmulatedWait_approx (r : Ref) :
    Approx e (translateEmulatedWait s h r) (translateEmulatedWait s h' r) := by
  refine .after _ fun t => .when (.before ?_ _)
  refine .after _ fun t => .after _ fun _ => .after _ fun _ => .after _ fun pid =>
    .after _ fun options => .after _ fun w => ?_
  cases getStoppedPtracee w r (toInt pid) true options with
  | none => exact .refl _
  | some ptracee => exact .before (updateWaitStatus_approx hh r ptracee) _

/-- So does it to notify a ptracer. -/
theorem notifyPtracer_approx (ptracer ptracee : Ref) (handledFirst keepStopped : Bool) :
    Approx e (notifyPtracer s h ptracer ptracee handledFirst keepStopped)
      (notifyPtracer s h' ptracer ptracee handledFirst keepStopped) := by
  refine .after _ fun p => .after _ fun _ => .after _ fun t => .ite ?_ (.refl _)
  exact .before (updateWaitStatus_approx hh ptracer ptracee) _

/-- So does the event of a ptracee. -/
theorem handlePtraceeEvent_approx (ptracee : Ref) (event : ℤ) :
    Approx e (handlePtraceeEvent s h ptracee event) (handlePtraceeEvent s h' ptracee event) := by
  refine .after _ fun t => ?_
  cases t.asPtracee.ptracer with
  | none => exact .refl _
  | some ptracer =>
    refine .after _ fun _ => ?_
    cases (if wifstopped event then filterEvent t event else some (event, false)) with
    | none => exact .refl _
    | some result =>
      refine .after _ fun _ => .ite (.refl _) ?_
      refine .bind (.when (.before (hh ptracee event) _)) fun _ => .after _ fun _ => ?_
      exact notifyPtracer_approx hh ptracer ptracee result.2 _

/-- So does it to resume a ptracee. -/
theorem resumePtracee_approx (ptracee : Ref) (forcedSignal status : ℤ) :
    Approx e (resumePtracee s h ptracee forcedSignal status)
      (resumePtracee s h' ptracee forcedSignal status) :=
  .after _ fun _ => .before (.ite (hh _ _) (.refl _)) _

/-- So does a request about a ptracee. -/
theorem ptraceeRequest_approx (ptracer ptracee : Ref) (request : ℕ) (pid : ℤ)
    (address data : ℕ) :
    Approx e (ptraceeRequest s h ptracer ptracee request pid address data)
      (ptraceeRequest s h' ptracer ptracee request pid address data) := by
  have hresume : ∀ (x : Prog Unit) (forcedSignal : ℤ),
      Approx e (x >>= fun _ => resumePtracee s h ptracee forcedSignal 0)
        (x >>= fun _ => resumePtracee s h' ptracee forcedSignal 0) :=
    fun x forcedSignal => .after x fun _ => resumePtracee_approx hh ptracee forcedSignal 0
  refine .ite (hresume _ _) (.ite (hresume _ _) (.ite (hresume _ _) (.ite (hresume _ _) ?_)))
  refine .ite (hresume _ _) (.ite (.after _ fun reply => ?_) (.refl _))
  exact resumePtracee_approx hh ptracee (-1) _

/-- So does a `ptrace` at its exit. -/
theorem translatePtraceExit_approx (r : Ref) :
    Approx e (translatePtraceExit s h r) (translatePtraceExit s h' r) := by
  refine .after _ fun request => .after _ fun pidWord => .after _ fun address =>
    .after _ fun data => .after _ fun t => .ite (.refl _) (.ite (.refl _) (.after _ fun w => ?_))
  split
  · exact .refl _
  · exact .ite (.refl _) (ptraceeRequest_approx hh r _ _ _ _ _)

/-- So does every syscall at its exit. -/
theorem translateSyscallExit_approx (r : Ref) :
    Approx e (translateSyscallExit s h r) (translateSyscallExit s h' r) := by
  refine .after _ fun t => .ite (.refl _) (.after _ fun sysnum => ?_)
  split
  · exact .refl _
  · exact .before (translatePtraceExit_approx hh r) _
  · exact translateEmulatedWait_approx hh r
  · exact translateEmulatedWait_approx hh r
  · exact .refl _

/-- So do both stages of a syscall. -/
theorem translateSyscall_approx (r : Ref) :
    Approx e (translateSyscall s h r) (translateSyscall s h' r) := by
  refine .after _ fun t => .after _ fun fetched => .ite (.refl _) (.before (.ite (.refl _) ?_) _)
  refine .after _ fun _ => .after _ fun _ => .after _ fun _ => .after _ fun t => ?_
  exact .before (.when (translateSyscallExit_approx hh r)) _

/-- So does the stop of a syscall. -/
theorem handleSyscallStop_approx (r : Ref) :
    Approx e (handleSyscallStop s h r) (handleSyscallStop s h' r) :=
  .after _ fun _ => .ite (.refl _) (.after _ fun _ => .before (translateSyscall_approx hh r) _)

/-- So does the stop of the filter. -/
theorem handleSeccompStop_approx (r : Ref) :
    Approx e (handleSeccompStop s h r) (handleSeccompStop s h' r) := by
  refine .after _ fun _ => .after _ fun t => .ite (.refl _) (.after _ fun reply => ?_)
  refine .ite (.refl _) (.ite (.after _ fun _ => ?_) (handleSyscallStop_approx hh r))
  exact .before (translateSyscall_approx hh r) _

/-- So does a new child. -/
theorem newChild_approx (parent : Ref) (cloneFlags : ℕ) :
    Approx e (newChild s h parent cloneFlags) (newChild s h' parent cloneFlags) := by
  refine .after _ fun flags => .after _ fun p => .after _ fun reply => .ite (.refl _) ?_
  refine .after _ fun found => ?_
  cases found with
  | none => exact .refl _
  | some child =>
    refine .after _ fun c => .after _ fun _ => .after _ fun p => .after _ fun _ =>
      .after _ fun _ => .before ?_ _
    refine .after _ fun t => .when (.after _ fun _ => .before ?_ _)
    refine .after _ fun t => .ite (.refl _) (.after _ fun _ => ?_)
    exact .before (handlePtraceeEvent_approx hh child _) _

/-- So does every status. -/
theorem handleStatus_approx (r : Ref) (status : ℤ) :
    Approx e (handleStatus s h r status) (handleStatus s h' r status) := by
  refine .ite (.refl _) (.ite (.refl _) ?_)
  unfold handleStop
  split
  · refine .after _ fun t => .ite (.refl _) (.after _ fun _ => .after _ fun _ => ?_)
    exact .before (handleSyscallStop_approx hh r) _
  · exact .before (handleSeccompStop_approx hh r) _
  · exact .before (handleSyscallStop_approx hh r) _
  · exact .before (newChild_approx hh r _) _
  · exact .before (newChild_approx hh r _) _
  · exact .before (newChild_approx hh r _) _
  all_goals exact .refl _

end Approx

/-- A deeper recursion does the same where the bound is not met. -/
theorem handleTraceeEvent_approx (s : Setup) (fuel more : ℕ) (r : Ref) (status : ℤ) :
    Approx .outOfFuel (handleTraceeEvent s fuel r status)
      (handleTraceeEvent s (fuel + more) r status) := by
  induction fuel generalizing r status with
  | zero => exact .fault _
  | succ fuel ih =>
    rw [Nat.add_right_comm]
    refine .after _ fun _ => .after _ fun _ => ?_
    exact .before (handleStatus_approx ih r status) _

/-- More levels give the same result, unless there were too few. -/
theorem dispatch_approx (s : Setup) (fuel more : ℕ) (r : Ref) (status : ℤ) :
    Approx .outOfFuel (dispatch s fuel r status) (dispatch s (fuel + more) r status) := by
  have hh := handleTraceeEvent_approx s fuel more
  refine .after _ fun _ => .after _ fun _ => .after _ fun t => .bind (.ite (.refl _) ?_) fun keep => ?_
  · exact handlePtraceeEvent_approx hh r status
  · exact .when (.before (hh r status) _)

/-- So does a round. -/
theorem eventLoop_approx (s : Setup) (fuel more : ℕ) (i : Input) :
    Approx .outOfFuel (eventLoop s fuel i) (eventLoop s (fuel + more) i) := by
  cases i with
  | traceNewPid pid => exact .refl _
  | stop pid status =>
    refine .bind (freeTerminatedTracees_approx (handleTraceeEvent_approx s fuel more)) fun _ => ?_
    refine .after _ fun w => .after _ fun known => .ite (.refl _) (.after _ fun found => ?_)
    cases found with
    | none => exact .refl _
    | some r => exact dispatch_approx s fuel more r status

/-! ## No process traces itself -/

/-- The record of a tracee that is not its own ptracer. -/
def Foreign (r : Ref) (t : Tracee) : Prop := t.asPtracee.ptracer ≠ some r

instance (r : Ref) (t : Tracee) : Decidable (Foreign r t) := inferInstanceAs (Decidable (_ ≠ _))

/-- To be foreign only depends on the links. -/
theorem foreign_links {r : Ref} {t t' : Tracee} (h : t'.links = t.links) (ht : Foreign r t) :
    Foreign r t' := by
  have hptracer : t'.asPtracee.ptracer = t.asPtracee.ptracer :=
    Tracee.of_links h (fun t => t.asPtracee.ptracer) fun _ => rfl
  exact hptracer.trans_ne ht

/-- A removal of others makes no tracee its own ptracer. -/
theorem Foreign.outlives (r : Ref) : Outlives (Foreign r) where
  own h ht := foreign_links h.links ht
  detect ht := foreign_links (detectSeccomp_same _).1 ht
  settle _ _ _ ht := foreign_links (detectSeccomp_same _).1 ht
  orphan ht := ht
  free _ := nofun
  reset _ := nofun
  tracer _ ht := ht

section Foreign

variable {asks : Ref → Prop} {r q : Ref} {w w' : World}

/-- A change that leaves the ptracer alone keeps a tracee foreign. -/
theorem foreign_update {f : Tracee → Tracee} {a : Ref}
    (hf : ∀ t, (f t).asPtracee.ptracer = t.asPtracee.ptracer) (hr : Foreign r (w.heap r)) :
    Foreign r ((w.update a f).heap r) := by
  rw [World.update_heap]
  split
  · subst a
    exact (hf _).trans_ne hr
  · exact hr

/-- So does a report to a ptracer. -/
theorem Report.foreign (hc : Report w w') (hr : Foreign r (w.heap r)) : Foreign r (w'.heap r) := by
  have hdetach : ∀ a p, Foreign r ((w.detach a p).heap r) := by
    intro a p
    rw [detach_heap]
    by_cases hra : r = a
    · exact (if_pos hra).trans_ne nofun
    · exact (if_neg hra).trans_ne hr
  cases hc with
  | still hshape =>
    exact (shape_field hshape r (fun t => t.asPtracee.ptracer) fun _ => rfl).trans_ne hr
  | mark => exact hr
  | wait hf => exact foreign_update (fun t => (congrArg (fun t => t.asPtracee.ptracer) (hf t) :)) hr
  | detach => exact hdetach _ _
  | reap => exact hdetach _ _

/-- Handling its events makes no tracee its own ptracer. -/
theorem Change.foreign (hc : Change asks r w w') (hr : Foreign r (w.heap r)) :
    Foreign r (w'.heap r) := by
  cases hc with
  | solo hc => exact (Foreign.outlives r).solo hc hr
  | report hc => exact hc.foreign hr
  | terminate => exact foreign_update (fun _ => rfl) hr
  | hush => exact foreign_update (fun _ => rfl) hr
  | attach _ _ _ hne =>
    rw [attach_heap]
    exact (congrArg AsPtracee.ptracer (if_neg hne.symm)).trans_ne hr
  | traceme _ _ hne =>
    refine foreign_update (fun _ => rfl) ?_
    rw [attach_heap]
    exact (congrArg AsPtracee.ptracer (if_pos rfl)).trans_ne fun heq => hne (Option.some.inj heq)
  | @inherit child _ _ hfree hptracer =>
    rw [attach_heap]
    by_cases hchild : r = child
    · rw [← hchild, hptracer] at hfree
      cases hfree
    · exact (congrArg AsPtracee.ptracer (if_neg hchild)).trans_ne hr
  | create =>
    rw [create_heap]
    split
    · exact nofun
    · exact hr
  | adopt => exact foreign_update (fun _ => rfl) hr

end Foreign

/-! ## Two levels are enough -/

/-- The bound on the recursion is not met. -/
def Shallow (e : Fault) (_ : World) : Prop := e ≠ .outOfFuel

/-- The condition only fails at the end of the fuel. -/
theorem Ordinary.shallow : Ordinary Shallow := fun _ _ _ h => h

section Levels

variable {s : Setup} {r : Ref} {status : ℤ}

/-- The event that a ptracee was put off with is handled at the second level. -/
theorem handleTraceeEvent_second {I K : World → Prop} (hI : Survives I) (hK : Survives K) {q : Ref}
    (st : ℤ) (hq : q ≠ r) :
    Triple (fun w => (Handling none I (fun w => Foreign r (w.heap r)) ∅ r status w ∧ K w) ∧
        q ∈ w.tracees ∧ (w.heap q).asPtracee.proot = ⟨st, true⟩)
      (handleTraceeEvent s 1 q st)
      (fun _ w => Handling none I (fun w => Foreign r (w.heap r)) ∅ r status w ∧ K w) Shallow := by
  rintro w ⟨⟨hw, hk⟩, hlisted, hproot⟩
  have hidle : q ∉ insert r (∅ : Set Ref) := by simpa using hq
  obtain ⟨hok, hfault⟩ := handleTraceeEvent_deferred s 1 hw.orderly hlisted hidle hproot w rfl
  have hsurvives : Survives fun w => (I w ∧ Born r w ∧ Fits (w.heap r) status) ∧ K w :=
    (hI.and ((born_survives r).and (fits_survives r status))).and hK
  obtain ⟨hkept, -⟩ := handleTraceeEvent_keeps s none 1 hsurvives (insert r ∅) q st w
    ⟨⟨hw.orderly.mono fun a ha => Set.mem_insert_of_mem q ha, ⟨hw.kept, hw.born, hw.fits⟩, hk⟩,
      hw.deferred hlisted hproot⟩
  refine ⟨fun signal v hv => ?_, fun e v hv => ?_⟩
  · obtain ⟨⟨horderly, ⟨hi, hborn, hfits⟩, hk⟩, -⟩ := hkept signal v hv
    have hsame : v.heap r = w.heap r := (hok signal v hv).2.1.others r hq.symm
    have hown : Foreign r (v.heap r) := hsame ▸ hw.own
    exact ⟨⟨horderly, hi, hown, hborn, hfits⟩, hk⟩
  · rcases hfault e v hv with rfl | ⟨hzero, -⟩
    · exact nofun
    · cases hzero

/-- Two levels are enough to deal with an event of a tracee that is not its own ptracer. -/
theorem deals_foreign (s : Setup) (r : Ref) (status : ℤ) :
    Deals (fun w => Foreign r (w.heap r)) r status (handleTraceeEvent s 2) Shallow := by
  refine ⟨Ordinary.shallow, fun _ _ hw hc => hc.foreign hw, fun {w f} hf hw => ?_, ?_⟩
  · exact foreign_update (fun t => hf.field t (fun t => t.asPtracee.ptracer) (fun _ _ => rfl)
      fun _ => rfl) hw
  · have hrecord : Survives fun w => Born r w ∧ Fits (w.heap r) status :=
      (born_survives r).and (fits_survives r status)
    refine Triple.conseq (handleTraceeEvent_step Ordinary.shallow hrecord
      (fun _ _ hw hc => hc.foreign hw) (T := fun q => q ≠ r) (fun w q hw hptracer hqr => ?_)
      fun hK q st hq => handleTraceeEvent_second hrecord hK st hq) ?_ ?_ fun _ _ h => h
    · exact hw (hqr ▸ hptracer)
    · intro w ⟨⟨horderly, hw⟩, hborn, hfits⟩
      exact ⟨horderly.mono fun q hq => Or.inl hq, ⟨hborn, hfits⟩, hw, hborn, hfits⟩
    · exact fun _ w ⟨⟨horderly, hrest, hw⟩, hdone⟩ => ⟨⟨⟨horderly, hw⟩, hrest⟩, hdone⟩

end Levels

/-- What the host may report, where it makes no process its own tracer. -/
def Input.credible (w : World) (i : Input) : Prop :=
  i.possible w ∧ ∀ r ∈ w.tracees, Foreign r (w.heap r)

instance (w : World) (i : Input) : Decidable (i.credible w) := inferInstanceAs (Decidable (_ ∧ _))

/-- Two levels are enough for a round. -/
theorem eventLoop_shallow (s : Setup) (i : Input) :
    Triple (fun w => Orderly none ∅ w ∧ i.credible w) (eventLoop s 2 i) (fun _ _ => True)
      Shallow := by
  cases i with
  | traceNewPid pid => exact Triple.modify fun _ _ => trivial
  | stop pid status =>
    let Fit : World → Prop := fun w => ∀ r ∈ w.tracees,
      ((w.heap r).pid = pid → Fits (w.heap r) status) ∧ Foreign r (w.heap r)
    refine Triple.bind (M := fun _ w => Orderly none ∅ w ∧ pid ≠ 0 ∧ Fit w) ?_ fun _ => ?_
    · intro w ⟨horderly, ⟨hpid, hfit⟩, hforeign⟩
      refine (freeTerminatedTracees_rule (I := fun _ => Fit) (fun _ _ _ _ hfit => hfit) ?_).conseq
        (fun _ hw => hw) (fun _ w hw => ⟨hw.1, hpid, hw.2⟩) ?_ w
        ⟨horderly, fun r hr => ⟨hfit r hr, hforeign r hr⟩⟩
      · intro r rest w v horderly _ _ _ hfit _ hremoved q hq
        rw [World.log_tracees, hremoved.tracees] at hq
        obtain ⟨hne, hq⟩ := horderly.linked.nodup.mem_erase_iff.mp hq
        have hold := horderly.linked.listed_lt q hq
        exact ⟨hremoved.record hold hne (Fits.outlives pid status) (hfit q hq).1,
          hremoved.record hold hne (Foreign.outlives q) (hfit q hq).2⟩
      · rintro e w (rfl | ⟨hzero, -⟩)
        · exact nofun
        · cases hzero
    · refine Triple.read_bind ?_
      rintro w ⟨horderly, hpid, hfit⟩ v rfl
      obtain ⟨known, hknown, -⟩ := getTracee_find (s := s) none pid v
      rw [bind_apply_ok hknown]
      split
      · exact (Lasting.trivial.attachNewRoot_keeps v ⟨horderly, trivial⟩).imp
          (fun _ _ _ _ => trivial) id
      · have hdispatch : ∀ {w : World} (r : Ref), Orderly none ∅ w → Born r w →
            Fits (w.heap r) status → Foreign r (w.heap r) →
            (∀ b t, dispatch s 2 r status w = (.ok b, t) → True) ∧
              ∀ e t, dispatch s 2 r status w = (.error e, t) → Shallow e t :=
          fun r horderly hborn hfits hforeign =>
            ((deals_foreign s r status).dispatch_keeps _
              ⟨⟨horderly, hforeign⟩, hborn, hfits⟩).imp (fun _ _ _ _ => trivial) id
        rcases getTracee_cases s pid v with ⟨r, hrun, hr, heq⟩ | hrun | hrun
        · rw [bind_apply_ok hrun]
          exact hdispatch r horderly ⟨hr, heq ▸ hpid⟩ ((hfit r hr).1 heq) (hfit r hr).2
        · rw [bind_apply_ok hrun]
          exact (Triple.fault (P := fun _ => True) fun _ _ => nofun) _ trivial
        · rw [bind_apply_ok hrun]
          have halloc : Orderly none ∅ (v.log .alloc) := horderly.of_shape rfl
          have hnew : ((v.log .alloc).create pid).heap v.next =
              { pid := pid, vpid := v.nextVpid } := (create_heap ..).trans (if_pos rfl)
          refine hdispatch _ (halloc.create pid) ⟨List.mem_cons_self, ?_⟩ ?_ ?_
          · rw [hnew]
            exact hpid
          · rw [hnew]
            exact fun _ _ => nofun
          · rw [hnew]
            exact nofun

/-- The worlds of a run are orderly, whatever the bound. -/
theorem orderly_of_credible {s : Setup} {fuel : ℕ} {w : World}
    (h : Run (eventLoop s fuel) Input.credible World.initial w) : Orderly none ∅ w :=
  h.invariant Orderly.initial (E := Counted) fun i =>
    (eventLoop_orderly s fuel i).conseq (fun _ hw => ⟨hw.1, hw.2.1⟩) (fun _ _ hw => hw)
      fun _ _ h => h

/-- In a round that two levels are enough for, a larger bound changes nothing. -/
theorem eventLoop_deeper (s : Setup) (more : ℕ) {w : World} (hw : Orderly none ∅ w) {i : Input}
    (hi : i.credible w) :
    ¬GivesUp .outOfFuel (eventLoop s 2 i) w ∧ eventLoop s (2 + more) i w = eventLoop s 2 i w := by
  have hshallow : ¬GivesUp .outOfFuel (eventLoop s 2 i) w := fun hgive =>
    (eventLoop_shallow s i w ⟨hw, hi⟩).2 _ _ (Prod.ext hgive rfl) rfl
  exact ⟨hshallow, (eventLoop_approx s 2 more i).eq_of_ne hshallow⟩

/-- In every run in which no tracee is its own ptracer, the handling of an event handles at most one
deferred event at a time and that one no other: from two levels on, the bound on the recursion is
never met, and the runs and their rounds are the same for all bounds. -/
theorem eventLoop_twoLevels (s : Setup) {fuel : ℕ} (hfuel : 2 ≤ fuel) {w : World}
    (h : Run (eventLoop s fuel) Input.credible World.initial w) {i : Input}
    (hi : i.credible w) :
    ¬GivesUp .outOfFuel (eventLoop s fuel i) w ∧
      Run (eventLoop s 2) Input.credible World.initial w ∧
      eventLoop s 2 i w = eventLoop s fuel i w := by
  obtain ⟨more, rfl⟩ := Nat.exists_eq_add_of_le hfuel
  have hsame : ∀ v j, Run (eventLoop s (2 + more)) Input.credible World.initial v →
      j.credible v → eventLoop s (2 + more) j v = eventLoop s 2 j v :=
    fun v j hv hj => (eventLoop_deeper s more (orderly_of_credible hv) hj).2
  refine ⟨?_, h.of_eq hsame, (hsame w i h hi).symm⟩
  rw [GivesUp, hsame w i h hi]
  exact (eventLoop_deeper s more (orderly_of_credible h) hi).1

/-- The process 5 attaches to the process 7, and later restarts it. -/
def resumeScript : Script where
  banks := [syscallBank 117 16 7 0 0, syscallBank 117 16 7 0 0, syscallBank 117 7 7 0 0,
    syscallBank 117 7 7 0 0]

/-- The ptracee stops again, and the ptracer is about to leave the request to restart it. -/
def resumeInputs : List Input :=
  [.stop 7 0x137f, .stop 5 0x137f, .stop 5 0x857f, .stop 5 0x857f, .stop 7 0x137f, .stop 5 0x857f]

set_option maxRecDepth 100000 in
/-- A run in which a ptracee is resumed within the event of its ptracer. -/
theorem resume_runsTo : runsTo World.tidy (eventLoop resumeScript.setup 3) Input.credible
    (fun w => (Input.stop 5 0x857f).credible w ∧
      GivesUp .outOfFuel (eventLoop resumeScript.setup 1 (.stop 5 0x857f)) w)
    resumeInputs World.initial = true := by
  decide_cbv

/-- In a run a ptracer restarts a ptracee whose event was deferred: one level is not enough for
that, and two are. -/
theorem eventLoop_twoLevels_resume : ∃ w,
    GivesUp .outOfFuel (eventLoop resumeScript.setup 1 (.stop 5 0x857f)) w ∧
      ¬GivesUp .outOfFuel (eventLoop resumeScript.setup 3 (.stop 5 0x857f)) w ∧
      eventLoop resumeScript.setup 2 (.stop 5 0x857f) w =
        eventLoop resumeScript.setup 3 (.stop 5 0x857f) w := by
  obtain ⟨w, hrun, hcredible, hgives⟩ := Run.start.of_runsTo World.tidy_eq resume_runsTo
  obtain ⟨hshallow, -, hsame⟩ :=
    eventLoop_twoLevels resumeScript.setup (by decide : 2 ≤ 3) hrun hcredible
  exact ⟨w, hgives, hshallow, hsame⟩

end Abyss
