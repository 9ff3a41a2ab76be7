import Abyss.Ptrace.Accounting
import Abyss.Syscall.NewImage

/-!
# The registers at the exit of a syscall

At its exit a syscall is to leave the registers of its entry, except for the result. What the
tracer pushes there depends on the register cache of the tracee, and whatever else is done at the
exit, even the handling of an event of a ptracee, only sets registers of that cache one after the
other. Words are copied whole when the registers of the entry are restored, which takes along the
neighbours of a register of a 32-bit process on the 64-bit processor.
-/

namespace Abyss

open Machine

/-! ## What the exit leaves alone -/

/-- Of what the pushing of the registers of a tracee depends on, only registers were set. -/
structure Sets (s : Setup) (t t' : Tracee) : Prop where
  pid : t'.pid = t.pid
  chain : t'.chain = t.chain
  isAarch32 : t'.isAarch32 = t.isAarch32
  regs : ∃ pokes, t'.regs = pokeAll (t.mode s.target) t.regs pokes

section Sets

variable {s : Setup} {t t' t'' : Tracee}

/-- Nothing was poked. -/
theorem Sets.refl (t : Tracee) : Sets s t t := ⟨rfl, rfl, rfl, [], rfl⟩

/-- Pokes may follow pokes. -/
theorem Sets.trans (h : Sets s t t') (h' : Sets s t' t'') : Sets s t t'' := by
  obtain ⟨pokes, hpokes⟩ := h.regs
  obtain ⟨more, hmore⟩ := h'.regs
  refine ⟨h'.pid.trans h.pid, h'.chain.trans h.chain, h'.isAarch32.trans h.isAarch32,
    pokes ++ more, ?_⟩
  rw [hmore, hpokes, Tracee.mode, h.isAarch32, pokeAll_append]
  rfl

end Sets

section Keeps

variable {s : Setup} {r : Ref} {t : Tracee}

/-- A program that only sets registers of a tracee. -/
abbrev KeepsSets {α : Type} (s : Setup) (r : Ref) (t : Tracee) (x : Prog α) : Prop :=
  Keeps (fun w => Sets s t (w.heap r)) (fun _ _ => True) x

/-- A change of any record that only sets registers. -/
theorem update_keepsSets (q : Ref) {f : Tracee → Tracee} (hf : ∀ t, Sets s t (f t)) :
    KeepsSets s r t (update q f) := by
  refine update_keeps fun w hw => ?_
  rw [World.update_heap]
  split
  · subst q
    exact hw.trans (hf _)
  · exact hw

/-- A change of any record that does not even do that. -/
theorem update_keepsFile (q : Ref) {f : Tracee → Tracee}
    (hf : ∀ t, (f t).pid = t.pid ∧ (f t).chain = t.chain ∧ (f t).isAarch32 = t.isAarch32 ∧
      (f t).regs = t.regs) : KeepsSets s r t (update q f) :=
  update_keepsSets q fun t => ⟨(hf t).1, (hf t).2.1, (hf t).2.2.1, [], (hf t).2.2.2⟩

/-- A poke to any tracee keeps this. -/
theorem poke_keepsSets (q : Ref) (reg : Reg) (value : ℕ) :
    KeepsSets s r t (poke s q reg value) :=
  update_keepsSets q fun _ => ⟨rfl, rfl, rfl, [(reg, value)], rfl⟩

/-- So does a question to the host. -/
theorem ask_keepsSets (c : Call) : KeepsSets s r t (ask s c) := fun w hw =>
  Triple.of_ok (ask_apply s c w) hw

/-- So does it to follow a pointer. -/
theorem deref_keepsSets (q : Option Ref) : KeepsSets s r t (deref q) :=
  deref_keeps (fun _ _ => trivial) q

/-- So does it to attach a tracee. -/
theorem attachToPtracer_keepsSets (q : Ref) (p : Option Ref) :
    KeepsSets s r t (attachToPtracer q p) := by
  refine Keeps.bind (update_keepsFile q fun _ => ⟨rfl, rfl, rfl, rfl⟩) fun _ => ?_
  exact Keeps.bind (deref_keepsSets p) fun p => update_keepsFile p fun _ => ⟨rfl, rfl, rfl, rfl⟩

/-- So does a restart. -/
theorem restartTracee_keepsSets (q : Ref) (signal : ℤ) :
    KeepsSets s r t (restartTracee s q signal) := by
  refine Keeps.bind (tracee_keeps q) fun _ => Keeps.ite (fun _ => Keeps.pure _) fun _ => ?_
  refine Keeps.bind (ask_keepsSets _) fun _ => Keeps.ite (fun _ => Keeps.pure _) fun _ => ?_
  refine Keeps.bind (mark_keeps fun _ hw => hw) fun _ => ?_
  exact Keeps.bind (update_keepsFile q fun _ => ⟨rfl, rfl, rfl, rfl⟩) fun _ => Keeps.pure _

/-- A program that does not touch the record at all. -/
theorem Quiet.keepsSets {α : Type} {q : Ref} {E : Fault → Prop} {x : Prog α} (hx : Quiet q E x)
    (hq : q ≠ r) : KeepsSets s r t x := by
  intro w hw
  have hkept : Sets s t ((x w).2.heap r) := ((hx w).2.1 r hq.symm).symm ▸ hw
  exact ⟨fun a w' heq => by rwa [heq] at hkept, fun _ _ _ => trivial⟩

/-! ## Requests of a ptracer -/

/-- So does a request to attach. -/
theorem attachRequest_keepsSets (p : Ref) (pid : ℤ) :
    KeepsSets s r t (attachRequest s p pid) := by
  intro w hw
  obtain ⟨found, hfound, -⟩ := getTracee_find (s := s) (some p) pid w
  unfold attachRequest
  rw [bind_apply_ok hfound]
  cases found with
  | none => exact Keeps.pure _ w hw
  | some q =>
    refine (Keeps.bind (tracee_keeps q) fun _ => Keeps.ite (fun _ => Keeps.pure _) fun _ => ?_ :
      KeepsSets s r t _) w hw
    refine Keeps.bind (attachToPtracer_keepsSets q _) fun _ => ?_
    exact Keeps.bind (ask_keepsSets _) fun _ => Keeps.pure _

/-- So does a request to be traced. -/
theorem tracemeRequest_keepsSets (q : Ref) : KeepsSets s r t (tracemeRequest s q) := by
  refine Keeps.bind (tracee_keeps q) fun _ => Keeps.ite (fun _ => Keeps.pure _) fun _ => ?_
  refine Keeps.bind (attachToPtracer_keepsSets q _) fun _ => ?_
  refine Keeps.bind (deref_keepsSets _) fun p => Keeps.bind (tracee_keeps p) fun _ => ?_
  refine Keeps.bind (Keeps.when fun _ => ?_) fun _ => ?_
  · refine Keeps.bind (ask_keepsSets _) fun _ => Keeps.when fun _ => ?_
    exact update_keepsFile p fun _ => ⟨rfl, rfl, rfl, rfl⟩
  · exact Keeps.bind (update_keepsFile q fun _ => ⟨rfl, rfl, rfl, rfl⟩) fun _ => Keeps.pure _

/-- So does a request about a stopped ptracee. -/
theorem passiveRequest_keepsSets (p : Ref) (request : ℕ) (pid : ℤ) (address data : ℕ) :
    KeepsSets s r t (passiveRequest s p request pid address data) :=
  (passiveRequest_quiet (q := r + 1) (E := fun _ => True) s trivial p request pid address data
    ).keepsSets (Nat.succ_ne_self r)

/-- The world in which the exit of a syscall of a tracee goes on: its own event is all that is
not calm. -/
structure Midway (s : Setup) (r : Ref) (t : Tracee) (w : World) : Prop where
  orderly : Orderly none {r} w
  born : Born r w
  sets : Sets s t (w.heap r)

/-- A world of the same shape is still midway. -/
theorem Midway.of_shape {w w' : World} (h : Midway s r t w) (hshape : w'.shape = w.shape)
    (hsets : Sets s t (w'.heap r)) : Midway s r t w' := by
  have hpid : (w'.heap r).pid = (w.heap r).pid := shape_field hshape r Tracee.pid fun _ => rfl
  refine ⟨h.orderly.of_shape hshape, ⟨?_, hpid ▸ h.born.2⟩, hsets⟩
  rw [(shape_eq_iff.mp hshape).2.2]
  exact h.born.1

/-- A ptracee of the tracee that is found for a request. -/
def Found (r q : Ref) (w : World) : Prop := q ≠ r ∧ q ∈ w.tracees

/-- The event of a ptracee is handled when its ptracer resumes it. -/
theorem resumePtracee_sets (fuel : ℕ) (q : Ref) (signal status : ℤ) :
    Triple (fun w => Midway s r t w ∧ Found r q w)
      (resumePtracee s (handleTraceeEvent s fuel) q signal status)
      (fun _ w => Sets s t (w.heap r)) fun _ _ => True := by
  refine Triple.tracee_bind fun p => ?_
  refine Triple.bind (M := fun _ w => Sets s t (w.heap r)) ?_ fun _ => ?_
  · split
    · rename_i hpending
      rintro w ⟨⟨hmidway, hne, hlisted⟩, rfl⟩
      have hproot : (w.heap q).asPtracee.proot = ⟨(w.heap q).asPtracee.proot.value, true⟩ := by
        rw [← hpending]
      refine (handleTraceeEvent_deferred s fuel hmidway.orderly hlisted
        (Set.notMem_singleton_iff.mpr hne) hproot).conseq (fun _ h => h) (fun _ v hv => ?_)
        (fun _ _ _ => trivial) w rfl
      rw [hv.2.1.others r hne.symm]
      exact hmidway.sets
    · exact Triple.pure fun w hw => hw.1.1.sets
  · exact Keeps.bind (restartTracee_keepsSets q _) fun _ => Keeps.pure _

/-- A request of a ptracer about a ptracee only sets registers of the ptracer. -/
theorem ptraceeRequest_sets (fuel : ℕ) (q : Ref) (request : ℕ) (pid : ℤ) (address data : ℕ) :
    Triple (fun w => (Midway s r t w ∧ Found r q w) ∧ (w.heap q).asPtracee.ptracer = some r)
      (ptraceeRequest s (handleTraceeEvent s fuel) r q request pid address data)
      (fun _ w => Sets s t (w.heap r)) fun _ _ => True := by
  have hresumed : ∀ {f : Tracee → Tracee} (signal status : ℤ), (∀ t, (f t).shape = t.shape) →
      Triple (fun w => (Midway s r t w ∧ Found r q w) ∧ (w.heap q).asPtracee.ptracer = some r)
        (do
          update q f
          resumePtracee s (handleTraceeEvent s fuel) q signal status)
        (fun _ w => Sets s t (w.heap r)) fun _ _ => True := by
    intro f signal status hf
    refine Triple.bind (Triple.modify fun w hw => ?_) fun _ => resumePtracee_sets fuel q signal status
    refine ⟨hw.1.1.of_shape (w.update_shape q hf) ?_, hw.1.2⟩
    rw [World.update_heap, if_neg hw.1.2.1.symm]
    exact hw.1.1.sets
  unfold ptraceeRequest
  refine Triple.ite (fun _ => hresumed _ _ fun _ => rfl) fun _ => ?_
  refine Triple.ite (fun _ => hresumed _ _ fun _ => rfl) fun _ => ?_
  refine Triple.ite (fun _ => hresumed _ _ fun _ => rfl) fun _ => ?_
  refine Triple.ite (fun _ => hresumed _ _ fun _ => rfl) fun _ => ?_
  refine Triple.ite (fun _ => ?_) fun _ => Triple.ite (fun _ => ?_) fun _ => ?_
  · refine Triple.bind (M := fun _ w => Midway s r t w ∧ Found r q w) ?_
      fun _ => resumePtracee_sets fuel q _ _
    rintro w ⟨⟨hmidway, hne, hlisted⟩, hptracer⟩
    have hpos := hmidway.orderly.linked.nbPtracees_pos hptracer
    refine Triple.of_ok (detachFromPtracer_apply hptracer hpos)
      ⟨⟨?_, ⟨hmidway.born.1, ?_⟩, ?_⟩, hne, hlisted⟩
    · exact hmidway.orderly.change hmidway.born (Set.mem_singleton r)
        (.detach hlisted hptracer : Change (fun _ => True) r w _)
    · rw [detach_heap]
      exact hmidway.born.2
    · refine hmidway.sets.trans ?_
      rw [detach_heap]
      exact ⟨rfl, rfl, rfl, [], rfl⟩
  · refine Triple.bind (M := fun _ w => Midway s r t w ∧ Found r q w) ?_
      fun _ => resumePtracee_sets fuel q _ _
    exact fun w hw => Triple.of_ok (ask_apply s _ w)
      ⟨hw.1.1.of_shape (w.log_shape _) hw.1.1.sets, hw.1.2⟩
  · refine Triple.conseq (P := fun w => Sets s t (w.heap r)) (Triple.ite (fun _ => ?_) fun _ => ?_)
      (fun w hw => hw.1.1.sets) (fun _ _ h => h) fun _ _ h => h
    · refine Triple.ite (fun _ => Keeps.pure _) fun _ => ?_
      exact Keeps.bind (update_keepsFile q fun _ => ⟨rfl, rfl, rfl, rfl⟩) fun _ => Keeps.pure _
    · exact passiveRequest_keepsSets r _ _ _ _

/-- So does the emulation of any ptrace syscall, if no process traces itself. -/
theorem translatePtraceExit_sets (fuel : ℕ) :
    Triple (fun w => Midway s r t w ∧ (w.heap r).asPtracee.ptracer ≠ some r)
      (translatePtraceExit s (handleTraceeEvent s fuel) r)
      (fun _ w => Sets s t (w.heap r)) fun _ _ => True := by
  rintro w ⟨hmidway, hself⟩
  rw [translatePtraceExit_apply]
  split
  · exact tracemeRequest_keepsSets r w hmidway.sets
  split
  · exact attachRequest_keepsSets r _ w hmidway.sets
  cases hfound : getStoppedPtracee w r (toInt (ptracePidWord s r w)) false (2 ^ 30) with
  | none => exact Keeps.pure _ w hmidway.sets
  | some q =>
    dsimp only
    split
    · exact Keeps.pure _ w hmidway.sets
    · rename_i hchecked
      simp only [not_or, not_not, Bool.not_eq_true] at hchecked
      obtain ⟨halive, hptracer, -⟩ := hchecked
      refine ptraceeRequest_sets fuel q _ _ _ _ w ⟨⟨hmidway, ?_, ?_⟩, hptracer⟩
      · rintro rfl
        exact hself hptracer
      · refine (getPtracee_waited hfound).elim And.left fun hzombie => ?_
        have hdead := (hmidway.orderly.linked.zombie r q hzombie).2.2.1
        rw [halive] at hdead
        cases hdead

/-! ## The wait for a ptracee -/

/-- Only registers were set, and the ptracees that were reported as zombies are still `dead`. -/
structure Reaping (s : Setup) (r : Ref) (t : Tracee) (dead : Ref → Bool) (w : World) : Prop where
  sets : Sets s t (w.heap r)
  reported : ∀ q, (w.heap q).asPtracee.isZombie = dead q
  zombie : ∀ q, dead q = true → (w.heap q).isZombie = true

variable {dead : Ref → Bool}

/-- A change that neither makes nor reaps a zombie. -/
theorem update_keepsReaping (q : Ref) {f : Tracee → Tracee} (hf : ∀ t, Sets s t (f t))
    (hzombie : ∀ t, (f t).asPtracee.isZombie = t.asPtracee.isZombie ∧ (f t).isZombie = t.isZombie) :
    Keeps (Reaping s r t dead) (fun _ _ => True) (update q f) := by
  refine update_keeps fun w hw => ⟨?_, fun a => ?_, fun a ha => ?_⟩
  · rw [World.update_heap]
    split
    · subst q
      exact hw.sets.trans (hf _)
    · exact hw.sets
  · rw [World.update_heap]
    split
    · subst a
      exact (hzombie _).1.trans (hw.reported q)
    · exact hw.reported a
  · rw [World.update_heap]
    split
    · subst a
      exact (hzombie _).2.trans (hw.zombie q ha)
    · exact hw.zombie a ha

/-- A tracee is detached from its ptracer. -/
theorem detachFromPtracer_keepsReaping (q : Ref) :
    Keeps (Reaping s r t dead) (fun _ _ => True) (detachFromPtracer q) :=
  detachFromPtracer_keeps (fun _ _ _ => trivial)
    (update_keepsReaping q (fun _ => ⟨rfl, rfl, rfl, [], rfl⟩) fun _ => ⟨rfl, rfl⟩)
    fun p _ => update_keepsReaping p (fun _ => ⟨rfl, rfl, rfl, [], rfl⟩) fun _ => ⟨rfl, rfl⟩

/-- A zombie that was reported is only taken out of the list it is in. -/
theorem beforeTraceeFree_sets {handle : Ref → ℤ → Prog ℤ} {q : Ref} (hq : dead q = true) :
    Triple (Reaping s r t dead) (beforeTraceeFree s handle q)
      (fun _ w => Sets s t (w.heap r)) fun _ _ => True := fun _ hw =>
  Triple.of_ok (beforeTraceeFree_zombie (hw.zombie q hq))
    (hw.sets.trans ⟨rfl, rfl, rfl, [], rfl⟩)

/-- Where the end of a ptracee is left to the kernel, the registers of the wait are set back. -/
theorem updateWaitStatus_sets {handle : Ref → ℤ → Prog ℤ} (p q : Ref) :
    Triple (Reaping s r t dead) (updateWaitStatus s handle p q)
      (fun _ w => Sets s t (w.heap r)) fun _ _ => True := by
  have hdone : ∀ status : ℤ, Triple (fun w => Sets s t (w.heap r)) (pure status : Prog ℤ)
      (fun _ w => Sets s t (w.heap r)) fun _ _ => True := fun _ => Triple.pure fun _ h => h
  refine Triple.bind (tracee_keeps q) fun a => Triple.ite (fun _ => ?_) fun _ => ?_
  · refine Triple.bind (M := fun _ => Reaping s r t dead) ?_ fun _ => ?_
    · refine Keeps.bind (mark_keeps fun _ ⟨hsets, hreported, hzombie⟩ =>
        ⟨hsets, hreported, hzombie⟩) fun _ => ?_
      refine Keeps.bind (update_keepsReaping p (fun t => ?_) fun _ => ⟨rfl, rfl⟩) fun _ =>
        detachFromPtracer_keepsReaping q
      exact ⟨rfl, rfl, rfl, restartOriginalSyscall_pokes s.target (t.mode s.target) t.regs⟩
    · refine Triple.bind (M := fun _ w => Sets s t (w.heap r)) ?_ fun _ => hdone 0
      refine Triple.tracee_bind fun b => Triple.ite (fun hzombie => ?_) fun _ =>
        Triple.pure fun w hw => hw.1.sets
      rintro w ⟨hw, rfl⟩
      exact beforeTraceeFree_sets ((hw.reported q).symm.trans hzombie) w hw
  · refine Triple.bind (M := fun _ => Reaping s r t dead) ?_ fun address => ?_
    · exact Keeps.bind (tracee_keeps p) fun _ => Keeps.pure _
    refine Triple.bind (tracee_keeps p) fun _ => Triple.bind (M := fun _ => Reaping s r t dead) ?_
      fun reply => ?_
    · exact Keeps.ite (fun _ w ⟨hsets, hreported, hzombie⟩ => Triple.of_ok (ask_apply s _ w)
        ⟨hsets, hreported, hzombie⟩) fun _ => Keeps.pure _
    refine Triple.ite (fun _ => Triple.pure fun _ hw => hw.sets) fun _ => ?_
    refine Triple.bind (update_keepsReaping q (fun _ => ⟨rfl, rfl, rfl, [], rfl⟩)
      fun _ => ⟨rfl, rfl⟩) fun _ => ?_
    refine Triple.tracee_bind fun b => Triple.bind (M := fun _ w => Sets s t (w.heap r)) ?_
      fun _ => hdone _
    refine Triple.ite (fun hzombie => ?_) fun _ => Triple.pure fun w hw => hw.1.sets
    rintro w ⟨hw, rfl⟩
    have hdead : dead q = true := (hw.reported q).symm.trans hzombie
    exact Triple.bind (detachFromPtracer_keepsReaping q) (fun _ => beforeTraceeFree_sets hdead) w hw

/-- The emulation of a wait only sets registers of the ptracer. -/
theorem translateEmulatedWait_sets {handle : Ref → ℤ → Prog ℤ} (p : Ref) :
    Triple (Reaping s r t dead) (translateEmulatedWait s handle p)
      (fun _ w => Sets s t (w.heap r)) fun _ _ => True := by
  have hdone : ∀ result : ℤ × Bool, Triple (fun w => Sets s t (w.heap r))
      (pure result : Prog (ℤ × Bool)) (fun _ w => Sets s t (w.heap r)) fun _ _ => True := fun _ =>
    Triple.pure fun _ h => h
  refine Triple.bind (tracee_keeps p) fun _ => Triple.ite (fun _ => ?_) fun _ =>
    Triple.pure fun _ hw => hw.sets
  refine Triple.bind (M := fun (_ : ℤ × Bool) (w : World) => Sets s t (w.heap r)) ?_
    fun ⟨_, _⟩ =>
    Keeps.when fun _ => poke_keepsSets p _ _
  refine Triple.bind (tracee_keeps p) fun _ => ?_
  refine Triple.bind (assert_keeps (fun _ _ => trivial) _) fun _ => ?_
  refine Triple.bind (update_keepsReaping p (fun _ => ⟨rfl, rfl, rfl, [], rfl⟩)
    fun _ => ⟨rfl, rfl⟩) fun _ => ?_
  refine Triple.bind (M := fun _ => Reaping s r t dead)
    (Keeps.bind (tracee_keeps p) fun _ => Keeps.pure _) fun pid => ?_
  refine Triple.bind (M := fun _ => Reaping s r t dead)
    (Keeps.bind (tracee_keeps p) fun _ => Keeps.pure _) fun options => ?_
  refine Triple.bind Keeps.read fun v => ?_
  split
  · refine Triple.ite (fun _ => Triple.pure fun _ hw => hw.sets) fun _ => ?_
    refine Triple.ite (fun _ => Triple.pure fun _ hw => hw.sets) fun _ => ?_
    refine Triple.bind (update_keepsReaping p (fun _ => ⟨rfl, rfl, rfl, [], rfl⟩)
      fun _ => ⟨rfl, rfl⟩) fun _ => ?_
    exact Triple.pure fun _ hw => hw.sets
  · exact Triple.bind (updateWaitStatus_sets p _) fun _ => hdone _

/-! ## The exit stage -/

/-- A syscall that is no `execve` only sets registers at its exit. -/
theorem translateSyscallExit_sets (fuel : ℕ) :
    Triple (fun w => Midway s r t w ∧ (w.heap r).asPtracee.ptracer ≠ some r ∧
        enteredSysnum s (w.heap r) ≠ .execve)
      (translateSyscallExit s (handleTraceeEvent s fuel) r)
      (fun _ w => Sets s t (w.heap r)) fun _ _ => True := by
  refine Triple.tracee_bind fun a => Triple.ite (fun _ => ?_) fun _ => ?_
  · exact (poke_keepsSets r _ _).conseq (fun w hw => hw.1.1.sets) (fun _ _ h => h) fun _ _ h => h
  · refine Triple.bind (M := fun number w => (Midway s r t w ∧
      (w.heap r).asPtracee.ptracer ≠ some r) ∧ number ≠ .execve) ?_ fun number => ?_
    · rintro w ⟨⟨hmidway, hself, hexecve⟩, -⟩
      have hsysnum : sysnumOf s r .original w = (.ok (enteredSysnum s (w.heap r)), w) := rfl
      exact Triple.of_ok hsysnum ⟨⟨hmidway, hself⟩, hexecve⟩
    · have hwait : Triple (fun w => (Midway s r t w ∧ (w.heap r).asPtracee.ptracer ≠ some r) ∧
          number ≠ .execve) (translateEmulatedWait s (handleTraceeEvent s fuel) r)
          (fun _ w => Sets s t (w.heap r)) fun _ _ => True := fun w hw =>
        translateEmulatedWait_sets r w
          ⟨hw.1.1.sets, fun _ => rfl, hw.1.1.orderly.linked.reported⟩
      split
      · exact fun _ hw => absurd rfl hw.2
      · exact Triple.bind ((translatePtraceExit_sets fuel).conseq (fun _ hw => hw.1)
          (fun _ _ h => h) fun _ _ h => h) fun _ => poke_keepsSets r _ _
      · exact hwait
      · exact hwait
      · exact Triple.pure fun _ hw => hw.1.1.sets

/-- A tracee is at the exit of a syscall that is no `execve` and was not chained, while the event
loop deals with its stop. -/
structure AtExit (s : Setup) (r : Ref) (w : World) : Prop where
  orderly : Orderly none {r} w
  born : Born r w
  selfless : (w.heap r).asPtracee.ptracer ≠ some r
  fetched : 0 ≤ (fetchReply s r w).status
  entered : (w.heap r).status ≠ 0
  unchained : (w.heap r).chain.syscalls = .null
  notExecve : enteredSysnum s (w.heap r) ≠ .execve

/-- The whole exit stage only sets registers of its tracee. -/
theorem finishExit_sets {w : World} (h : AtExit s r w) (fuel : ℕ) {v : World}
    (hv : finishExit s (handleTraceeEvent s fuel) r (afterSysexit s r (enteredExit s r w)) =
      (.ok (), v)) :
    Sets s ((enteredExit s r w).heap r) (v.heap r) := by
  have hshape : (afterSysexit s r (enteredExit s r w)).shape = w.shape := by
    have hfetched : (w.fetched r (fetchReply s r w).bank).shape = w.shape := by
      refine (World.update_shape _ r ?_).trans (w.log_shape _)
      exact fun _ => rfl
    have hentered : (enteredExit s r w).shape = w.shape := by
      refine (World.update_shape _ r ?_).trans ((World.log_shape _ _).trans hfetched)
      exact fun _ => rfl
    unfold afterSysexit
    split
    · refine (World.update_shape _ r ?_).trans ((World.log_shape _ _).trans hentered)
      exact fun _ => rfl
    · exact hentered
  have hsets : Sets s ((enteredExit s r w).heap r)
      ((afterSysexit s r (enteredExit s r w)).heap r) := by
    rw [afterSysexit_heap]
    exact ⟨rfl, rfl, rfl, _, rfl⟩
  have hmidway : Midway s r ((enteredExit s r w).heap r)
      (afterSysexit s r (enteredExit s r w)) := by
    refine ⟨h.orderly.of_shape hshape, ⟨?_, ?_⟩, hsets⟩
    · rw [(shape_eq_iff.mp hshape).2.2]
      exact h.born.1
    · rw [shape_field hshape r Tracee.pid fun _ => rfl]
      exact h.born.2
  have hself : ((afterSysexit s r (enteredExit s r w)).heap r).asPtracee.ptracer ≠ some r := by
    rw [shape_field hshape r (fun t => t.asPtracee.ptracer) fun _ => rfl]
    exact h.selfless
  have hexecve : enteredSysnum s ((afterSysexit s r (enteredExit s r w)).heap r) ≠ .execve := by
    have hself : (afterSysexit s r (enteredExit s r w)).heap r =
        { w.heap r with regs := exitRegs s r w } := by
      rw [afterSysexit_heap, enteredExit_heap]
      rfl
    have horiginal : (exitRegs s r w).original = (w.heap r).regs.original := (pokeAll_frame ..).1
    have hentered : enteredSysnum s ((afterSysexit s r (enteredExit s r w)).heap r) =
        enteredSysnum s (w.heap r) := by
      rw [hself]
      exact congrArg (translateSysnum s.target _) (peekReg_original horiginal _ .sysargNum)
    exact hentered.trans_ne h.notExecve
  have hchain : ∀ {t t' : Tracee}, Sets s t t' → t'.chain.syscalls = t.chain.syscalls :=
    fun hsets => congrArg Chain.syscalls hsets.chain
  have hnull : ((enteredExit s r w).heap r).chain.syscalls = .null := by
    rw [enteredExit_heap]
    exact h.unchained
  have htriple : Triple (fun w' => w' = afterSysexit s r (enteredExit s r w))
      (finishExit s (handleTraceeEvent s fuel) r)
      (fun _ w' => Sets s ((enteredExit s r w).heap r) (w'.heap r)) fun _ _ => True := by
    refine Triple.tracee_bind fun t => ?_
    refine Triple.bind (M := fun _ w' => Sets s ((enteredExit s r w).heap r) (w'.heap r)) ?_
      fun _ => ?_
    · refine Triple.ite (fun _ => ?_) fun _ => Triple.pure ?_
      · refine (translateSyscallExit_sets fuel).conseq ?_ (fun _ _ h => h) fun _ _ h => h
        rintro _ ⟨rfl, -⟩
        exact ⟨hmidway, hself, hexecve⟩
      · rintro _ ⟨rfl, -⟩
        exact hsets
    · refine Triple.bind (update_keepsFile r fun _ => ⟨rfl, rfl, rfl, rfl⟩) fun _ => ?_
      -- No syscall was chained, so that none is forged.
      refine Triple.tracee_bind fun t => Triple.ite (fun hchained => ?_) fun _ =>
        Triple.pure fun _ hw => hw.1
      rintro w' ⟨hw', rfl⟩
      exact absurd ((hchain hw').trans hnull) hchained
  exact (htriple _ rfl).1 _ _ hv

end Keeps

/-! ## What is pushed -/

/-- The registers that an exit is to push: the kept ones as at the entry, the result and the
instruction pointer as they were left after what was reported, and all others as reported, apart
from the slots that are taken along. -/
structure RestoresEntry (m : Mode) (entry reported left pushed : Bank) : Prop where
  kept : ∀ reg ∈ m.keptRegs, ∀ i ∈ m.regSlots reg, pushed i = entry i
  left : ∀ reg ∈ [Reg.sysargResult, .instrPointer], ∀ i ∈ m.regSlots reg, pushed i = left i
  others : ∀ i, (∀ reg, i ∉ m.regSlots reg) → i ∉ m.clobberedSlots → pushed i = reported i

/-- The registers that are kept are restored. -/
theorem keptRegs_restored (m : Mode) :
    ∀ reg ∈ m.keptRegs, ∀ i ∈ m.regSlots reg, i ∈ m.restoredSlots := by
  rcases m with ⟨_ | _, _ | _⟩ <;> decide

/-- The result and the instruction pointer are not. -/
theorem leftRegs_notRestored (m : Mode) :
    ∀ reg ∈ [Reg.sysargResult, .instrPointer], ∀ i ∈ m.regSlots reg, i ∉ m.restoredSlots := by
  rcases m with ⟨_ | _, _ | _⟩ <;> decide

/-- After any pokes, what is restored is the entry. -/
theorem restoreOriginalRegs_restoresEntry {m : Mode} {pokes : List (Reg × ℕ)} (regs : Regs)
    (h : regs.restoreOriginal = true) :
    RestoresEntry m regs.original regs.current (pokeAll m regs pokes).current
      (restoreOriginalRegs m (pokeAll m regs pokes)).current := by
  obtain ⟨horiginal, hrestore⟩ := pokeAll_frame m regs pokes
  rw [restoreOriginalRegs_current (hrestore.trans h), horiginal]
  refine ⟨fun reg hreg i hi => ?_, fun reg hreg i hi => ?_, fun i hnone hspared => ?_⟩
  · exact if_pos (keptRegs_restored m reg hreg i hi)
  · exact if_neg (leftRegs_notRestored m reg hreg i hi)
  · have hnot : i ∉ m.restoredSlots := fun hi =>
      hspared (List.mem_filter.mpr ⟨hi, by simpa using fun reg _ => hnone reg⟩)
    exact (if_neg hnot).trans (pokeAll_slot fun p _ => hnone p.1)

/-- What the end of an exit pushes is restored after the pokes of the exit. -/
theorem translateSyscall_pushes (s : Setup) {r : Ref} {w : World} (h : AtExit s r w) (fuel : ℕ)
    {v : World}
    (hv : exitStage s (handleTraceeEvent s fuel) r (w.fetched r (fetchReply s r w).bank) =
      (.ok (), v))
    (hchanged : (v.heap r).regs.wereChanged = true) :
    ∃ pokes, (v.heap r).regs =
        pokeAll ((w.heap r).mode s.target) ((enteredExit s r w).heap r).regs pokes ∧
      registerFile s (w.heap r).pid
          (translateSyscall s (handleTraceeEvent s fuel) r w).2.calls =
        (restoreOriginalRegs ((w.heap r).mode s.target) (v.heap r).regs).current := by
  rw [exitStage_apply] at hv
  obtain ⟨hpid, -, haarch, pokes, hpokes⟩ := finishExit_sets h fuel hv
  rw [enteredExit_heap] at hpid haarch hpokes
  have hmode : (v.heap r).mode s.target = (w.heap r).mode s.target := by
    rw [Tracee.mode, haarch]
    rfl
  have hpushed := pushRegs_registerFile s (w := v) (r := r) fun hsame => by
    rw [hchanged] at hsame
    cases hsame
  rw [hpid, pushedRegs, if_pos hchanged, hmode] at hpushed
  refine ⟨pokes, by rw [enteredExit_heap]; exact hpokes, ?_⟩
  rw [translateSyscall_exit s h.fetched h.entered hv]
  exact hpushed

end Abyss
