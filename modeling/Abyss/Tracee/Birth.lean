import Abyss.Ptrace.Removal
import Mathlib.Data.List.Find

/-!
# The two events of a new process

The kernel tells of a new process twice: the process stops for the first time, and its parent stops
in the syscall that made it. The child gets its parent, the acceleration, the class of its image and
a ptracer at the event of its parent. A child that stops first is restarted without waiting for this
event, so it may enter a syscall before it has got any of these.
-/

namespace Abyss

open Machine

/-! ## What a child takes over -/

/-- The stop that a new process starts with. -/
def firstStop : ℤ := wStopcode Abyss.sigstop

/-- What is set of a child by the events that tell of it. -/
structure Birth where
  parent : Option Ref := none
  clone : Bool := false
  seccomp : Seccomp := .disabled
  sysexitPending : Bool := false
  isAarch32 : Bool := false
  asPtracee : AsPtracee := {}
  sigstop : SigstopState := .ignored
  status : ℤ := 0
deriving DecidableEq

/-- What a tracee is born with. -/
def Tracee.birth (t : Tracee) : Birth :=
  ⟨t.parent, t.clone, t.seccomp, t.sysexitPending, t.isAarch32, t.asPtracee, t.sigstop, t.status⟩

/-- Whether a child that is made with these flags gets the ptracer of its parent. -/
def Tracee.passesPtracer (parent : Tracee) (cloneFlags : ℕ) : Prop :=
  parent.asPtracee.ptracer ≠ none ∧
    (childOption cloneFlags &&& parent.asPtracee.options ≠ 0 ∨ cloneFlags &&& clonePtrace ≠ 0)

instance (parent : Tracee) (cloneFlags : ℕ) : Decidable (parent.passesPtracer cloneFlags) :=
  inferInstanceAs (Decidable (_ ∧ _))

/-- What a child is after the event of its parent. -/
def Birth.adopted (cpu : Cpu) (r : Ref) (parent : Tracee) (cloneFlags : ℕ) (b : Birth) : Birth :=
  { b with
    parent := if cloneFlags &&& cloneParent ≠ 0 then parent.parent else some r
    clone := cloneFlags &&& cloneThread ≠ 0
    seccomp := parent.seccomp
    sysexitPending := parent.sysexitPending
    isAarch32 := if cpu = .arm64 then parent.isAarch32 else b.isAarch32
    asPtracee :=
      if parent.passesPtracer cloneFlags then
        { ptracer := parent.asPtracee.ptracer, options := parent.asPtracee.options &&& 0x7f }
      else b.asPtracee }

/-- A second event changes nothing. -/
theorem Birth.adopted_adopted (cpu : Cpu) (r : Ref) (parent : Tracee) (cloneFlags : ℕ) (b : Birth) :
    (b.adopted cpu r parent cloneFlags).adopted cpu r parent cloneFlags =
      b.adopted cpu r parent cloneFlags := by
  by_cases hpasses : parent.passesPtracer cloneFlags
  · simp only [adopted, if_pos hpasses, Birth.mk.injEq, and_true, true_and]
    split <;> rfl
  · simp only [adopted, if_neg hpasses, Birth.mk.injEq, and_true, true_and]
    split <;> rfl

/-- What a record keeps while other processes are born, as far as a child may take it over. -/
def Tracee.heritage (t : Tracee) : Tracee :=
  { pid := t.pid
    terminated := t.terminated
    parent := t.parent
    seccomp := t.seccomp
    sysexitPending := t.sysexitPending
    isAarch32 := t.isAarch32
    asPtracee :=
      { ptracer := t.asPtracee.ptracer
        options := t.asPtracee.options
        isZombie := t.asPtracee.isZombie } }

/-- A child only takes over what is kept. -/
theorem Birth.adopted_heritage {t t' : Tracee} (h : t'.heritage = t.heritage) (cpu : Cpu) (r : Ref)
    (cloneFlags : ℕ) (b : Birth) :
    b.adopted cpu r t' cloneFlags = b.adopted cpu r t cloneFlags := by
  have hkept : ∀ t : Tracee, b.adopted cpu r t cloneFlags = b.adopted cpu r t.heritage cloneFlags :=
    fun _ => rfl
  rw [hkept, h, ← hkept]

/-- The flags of a new process, as the registers of its parent tell them. -/
def announcedFlags (t : Target) (m : Mode) (registers : Reply) (cloneFlags : ℕ) : ℕ :=
  let regs : Regs := ⟨registers.bank, zeroBank, zeroBank, false, false⟩
  if registers.status < 0 then cloneFlags
  else if getSysnum t m regs .current = .clone then peekReg m regs .current .sysarg1
  else cloneFlags

/-! ## The worlds between the events -/

/-- A tracee has not been restarted since some time. -/
def NotRestarted (r : Ref) (before past : List Call) : Prop :=
  ∃ since, past = since ++ before ∧ ∀ c ∈ since, c.restarts r = false

/-- A tracee has been seen to stop, and not been restarted since. -/
def SeenStopped (r : Ref) (past : List Call) : Prop :=
  ∃ status before, NotRestarted r (.stopped r status :: before) past

/-- The kernel tells of a new process while its parent is stopped: its number, and the registers of
the parent. There is memory for a record of it, and its registers can be read while it is
stopped. -/
structure Announces (s : Setup) (w : World) (parent : Ref) (childPid : ℤ) (registers : Reply) :
    Prop where
  message : ∀ past, NotRestarted parent w.calls past →
    0 ≤ (s.host (.getEventMsg (w.heap parent).pid :: past)).status ∧
      (s.host (.getEventMsg (w.heap parent).pid :: past)).value ≠ 0 ∧
      toInt (s.host (.getEventMsg (w.heap parent).pid :: past)).value = childPid
  registers : ∀ past, NotRestarted parent w.calls past →
    s.host (.getRegs (w.heap parent).pid :: past) = registers
  memory : ∀ past, 0 ≤ (s.host (.alloc :: past)).status
  readable : ∀ past, SeenStopped w.next past → 0 ≤ (s.host (.getRegs childPid :: past)).status

/-- Whether a call is the mark of a stage of a syscall of a tracee. -/
def Call.isStageOf (r : Ref) : Call → Bool
  | .enterStage q | .exitStage q => q = r
  | _ => false

/-- How many stages of syscalls of a tracee have been handled. -/
def stagesOf (r : Ref) (calls : List Call) : ℕ := calls.countP (Call.isStageOf r)

/-- A call that neither marks a stage of a syscall, nor that a tracee runs again. -/
def Call.isMinor : Call → Bool
  | .enterStage _ | .exitStage _ | .restarted .. => false
  | _ => true

/-- What is said of the calls made so far, whatever minor calls follow. -/
def SkipsMinor (C : List Call → Prop) : Prop :=
  ∀ c past, Call.isMinor c = true → C past → C (c :: past)

/-- What holds of a world and of the calls made so far. -/
def Recorded (C : List Call → Prop) (P : World → Prop) (u : World) : Prop := P u ∧ C u.calls

/-- What holds while a tracee has not been restarted. -/
abbrev Meanwhile (r : Ref) (w : World) (P : World → Prop) : World → Prop :=
  Recorded (NotRestarted r w.calls) P

/-- Two conditions that skip minor calls. -/
theorem SkipsMinor.and {C D : List Call → Prop} (hC : SkipsMinor C) (hD : SkipsMinor D) :
    SkipsMinor fun past => C past ∧ D past :=
  fun c past hc h => ⟨hC c past hc h.1, hD c past hc h.2⟩

/-- The stages of a tracee are no minor calls. -/
theorem stagesOf_skipsMinor (r : Ref) (n : ℕ) : SkipsMinor fun past => stagesOf r past = n := by
  intro c past hc h
  rw [← h]
  refine List.countP_cons_of_neg ?_
  cases c <;> simp_all [Call.isMinor, Call.isStageOf]

/-- A tracee is not restarted by a call that is not its restart. -/
theorem NotRestarted.cons {r : Ref} {before past : List Call} (h : NotRestarted r before past)
    {c : Call} (hc : c.restarts r = false) : NotRestarted r before (c :: past) := by
  obtain ⟨since, rfl, hsince⟩ := h
  exact ⟨c :: since, rfl, List.forall_mem_cons.mpr ⟨hc, hsince⟩⟩

/-- It is not restarted where nothing happens. -/
theorem NotRestarted.refl (r : Ref) (past : List Call) : NotRestarted r past past :=
  ⟨[], rfl, List.forall_mem_nil _⟩

/-- A restart is no minor call. -/
theorem NotRestarted.skipsMinor (r : Ref) (before : List Call) :
    SkipsMinor (NotRestarted r before) := by
  refine fun c past hc h => h.cons ?_
  cases c <;> simp_all [Call.isMinor, Call.restarts]

/-- To be seen stopped does not depend on minor calls. -/
theorem seenStopped_skipsMinor (r : Ref) : SkipsMinor (SeenStopped r) := by
  rintro c past hc ⟨status, before, h⟩
  exact ⟨status, before, NotRestarted.skipsMinor _ _ c past hc h⟩

/-- What was known before is kept as far as a child may take it over. -/
structure Beside (w u : World) : Prop where
  heritage : ∀ r, r ≠ w.next → (u.heap r).heritage = (w.heap r).heritage

/-- Nothing is known of a child yet. -/
structure Unborn (w u : World) : Prop extends Beside w u where
  tracees : u.tracees = w.tracees
  next : u.next = w.next

/-- The child has a record, which is the newest. -/
structure Known (childPid : ℤ) (b : Birth) (w u : World) : Prop extends Beside w u where
  tracees : u.tracees = w.next :: w.tracees
  pid : (u.heap w.next).pid = childPid
  birth : (u.heap w.next).birth = b
  terminated : (u.heap w.next).terminated = false
  isRoot : (u.heap w.next).isRoot = false
  seccompEnabled : (u.heap w.next).seccompEnabled = false

/-- The child may be known already. -/
def Expecting (childPid : ℤ) (b : Birth) (w u : World) : Prop :=
  Unborn w u ∧ b = {} ∨ Known childPid b w u

/-- What does not notice a change of a record other than `child` that keeps what a child may take
over. -/
structure Aside (child : Ref) (P : World → Prop) : Prop where
  update : ∀ {u r f}, r ≠ child → (∀ t : Tracee, (f t).heritage = t.heritage) → P u →
    P (u.update r f)
  log : ∀ {u} c, Call.isMinor c = true → P u → P (u.log c)

section Aside

variable {w u : World} {childPid : ℤ} {b : Birth} {child : Ref} {P Q : World → Prop}

/-- What a record inherits is all that matters beside the child. -/
theorem Beside.update (h : Beside w u) {r : Ref} {f : Tracee → Tracee}
    (hf : ∀ t, (f t).heritage = t.heritage) : Beside w (u.update r f) := by
  refine ⟨fun q hq => ?_⟩
  rw [World.update_heap]
  split
  · subst q
    exact (hf _).trans (h.heritage r hq)
  · exact h.heritage q hq

/-- A call does not bear the child. -/
theorem Unborn.log (h : Unborn w u) (c : Call) : Unborn w (u.log c) :=
  ⟨⟨h.heritage⟩, h.tracees, h.next⟩

/-- Nor does it change what is known of a child. -/
theorem Known.log (h : Known childPid b w u) (c : Call) : Known childPid b w (u.log c) :=
  ⟨⟨h.heritage⟩, h.tracees, h.pid, h.birth, h.terminated, h.isRoot, h.seccompEnabled⟩

/-- Changes of other records leave a child unborn. -/
theorem Unborn.aside : Aside child (Unborn w) where
  update _ hf h := ⟨h.toBeside.update hf, h.tracees, h.next⟩
  log c _ h := h.log c

/-- They leave what is known of a child. -/
theorem Known.aside : Aside w.next (Known childPid b w) where
  update {u r f} hr hf h := by
    have hchild : (u.update r f).heap w.next = u.heap w.next := by
      rw [World.update_heap, if_neg hr.symm]
    refine ⟨h.toBeside.update hf, h.tracees, ?_, ?_, ?_, ?_, ?_⟩
    · rw [hchild, h.pid]
    · rw [hchild, h.birth]
    · rw [hchild, h.terminated]
    · rw [hchild, h.isRoot]
    · rw [hchild, h.seccompEnabled]
  log c _ h := h.log c

/-- A call does not change what is expected of a child. -/
theorem Expecting.log (h : Expecting childPid b w u) (c : Call) :
    Expecting childPid b w (u.log c) :=
  h.imp (fun h => ⟨h.1.log c, h.2⟩) fun h => h.log c

/-- They leave what is expected of a child. -/
theorem Expecting.aside : Aside w.next (Expecting childPid b w) where
  update hr hf h := h.imp (fun h => ⟨Unborn.aside.update hr hf h.1, h.2⟩) (Known.aside.update hr hf)
  log c _ h := h.log c

/-- A condition on the calls that skips minor ones may be added. -/
theorem Aside.recorded (hP : Aside child P) {C : List Call → Prop} (hC : SkipsMinor C) :
    Aside child (Recorded C P) where
  update hr hf h := ⟨hP.update hr hf h.1, h.2⟩
  log c hc h := ⟨hP.log c hc h.1, hC c _ hc h.2⟩

end Aside

/-! ## Programs of others -/

section Programs

variable {child r : Ref} {P : World → Prop} {E : Fault → World → Prop} (hP : Aside child P)
include hP

/-- A minor mark is not noticed. -/
theorem Aside.mark_keeps {c : Call} (hc : c.isMinor = true) : Keeps P E (mark c) :=
  Keeps.modify fun _ => hP.log c hc

/-- Nor is a change of another record. -/
theorem Aside.update_keeps (hr : r ≠ child) {f : Tracee → Tracee}
    (hf : ∀ t, (f t).heritage = t.heritage) : Keeps P E (Abyss.update r f) :=
  Keeps.modify fun _ => hP.update hr hf

end Programs

/-- What is left of a record without what is written to resume it: its registers, how it is
restarted, and what it waits for. -/
def Tracee.paused (t : Tracee) : Tracee :=
  { t with
    regs := ⟨zeroBank, zeroBank, zeroBank, false, false⟩
    running := false
    restartHow := .none
    asPtracer := { t.asPtracer with waitPid := 0 } }

/-- What only depends on what is left is kept. -/
theorem Tracee.of_paused {t t' : Tracee} (h : t'.paused = t.paused) {α : Type} (f : Tracee → α)
    (hf : ∀ t, f t.paused = f t) : f t' = f t := by
  rw [← hf, h, hf]

/-- What does not notice that a tracee is about to be resumed. -/
structure Indifferent (r : Ref) (P : World → Prop) : Prop where
  update : ∀ {u f}, (∀ t : Tracee, (f t).paused = t.paused) → P u → P (u.update r f)
  log : ∀ {u} c, Call.isMinor c = true → P u → P (u.log c)

/-- That another tracee is about to be resumed is not noticed, either. -/
theorem Aside.indifferent {child r : Ref} {P : World → Prop} (hP : Aside child P) (hr : r ≠ child) :
    Indifferent r P where
  update hf h := hP.update hr (fun t => Tracee.of_paused (hf t) Tracee.heritage fun _ => rfl) h
  log c hc h := hP.log c hc h

section Resuming

variable {s : Setup} {r : Ref} {P Q : World → Prop} {E : Fault → World → Prop}
  (hP : Indifferent r P)
include hP

/-- A condition on the calls that skips minor ones may be added. -/
theorem Indifferent.recorded {C : List Call → Prop} (hC : SkipsMinor C) :
    Indifferent r (Recorded C P) where
  update hf h := ⟨hP.update hf h.1, h.2⟩
  log c hc h := ⟨hP.log c hc h.1, hC c _ hc h.2⟩

/-- A minor question is not noticed. -/
theorem Indifferent.ask_keeps {c : Call} (hc : c.isMinor = true) : Keeps P E (ask s c) :=
  fun w hw => Triple.of_ok (ask_apply s c w) (hP.log c hc hw)

/-- Nor is a minor mark. -/
theorem Indifferent.mark_keeps {c : Call} (hc : c.isMinor = true) : Keeps P E (mark c) :=
  Keeps.modify fun _ => hP.log c hc

/-- Nor is a change that a paused tracee does not show. -/
theorem Indifferent.update_keeps {f : Tracee → Tracee} (hf : ∀ t, (f t).paused = t.paused) :
    Keeps P E (Abyss.update r f) := Keeps.modify fun _ => hP.update hf

/-- Nor is a poke. -/
theorem Indifferent.poke_keeps (reg : Reg) (value : ℕ) : Keeps P E (poke s r reg value) :=
  hP.update_keeps fun _ => rfl

/-- Nor is it that the registers are pushed. -/
theorem Indifferent.pushRegs_keeps : Keeps P E (pushRegs s r) := by
  refine Keeps.bind (tracee_keeps r) fun t => Keeps.ite (fun _ => ?_) fun _ => Keeps.pure 0
  refine Keeps.bind (hP.update_keeps fun _ => rfl) fun _ => Keeps.bind (tracee_keeps r) fun t => ?_
  refine Keeps.ite (fun _ => Keeps.bind (hP.ask_keeps rfl) fun _ => ?_) fun _ => ?_
  · exact Keeps.bind (hP.ask_keeps rfl) fun _ => Keeps.pure _
  · exact Keeps.bind (hP.ask_keeps rfl) fun _ => Keeps.pure _

/-- A tracee that is restarted leaves a mark. -/
theorem Indifferent.restartTracee_marks (hQ : Indifferent r Q)
    (hmark : ∀ u how, P u → Q (u.log (.restarted r how))) (signal : ℤ) :
    Triple P (restartTracee s r signal) (fun restarted u => restarted = true ∧ Q u ∨ P u) E := by
  refine Triple.bind (M := fun _ => P) (tracee_keeps r) fun t => Triple.ite
    (fun _ => Triple.pure fun _ hu => Or.inr hu) fun _ => ?_
  refine Triple.bind (M := fun _ => P) (hP.ask_keeps rfl) fun reply => Triple.ite
    (fun _ => Triple.pure fun _ hu => Or.inr hu) fun _ => ?_
  refine Triple.bind (M := fun _ => Q) (Triple.modify fun u hu => hmark u _ hu) fun _ => ?_
  refine Triple.bind (M := fun _ => Q) (hQ.update_keeps fun _ => rfl) fun _ => ?_
  exact Triple.pure fun _ hu => Or.inl ⟨rfl, hu⟩

/-- A restart is not noticed if its mark is not. -/
theorem Indifferent.restartTracee_keeps (hmark : ∀ u how, P u → P (u.log (.restarted r how)))
    (signal : ℤ) : Keeps P E (restartTracee s r signal) :=
  (hP.restartTracee_marks hP hmark signal).conseq (fun _ h => h)
    (fun _ _ h => h.elim And.right id) fun _ _ h => h

variable {q : Ref} {event : ℤ} {handle : Ref → ℤ → Prog ℤ} (hstopped : wifstopped event = true)
  (hconsume : ∀ u, P u → P (u.update q fun t => { t with asPtracee := { t.asPtracee with
    event := { t.asPtracee.event with pending := false } } }))
  (halive : ∀ u, P u → (u.heap q).asPtracee.isZombie = false)
include hstopped hconsume halive

/-- A ptracer is told about the stop of a ptracee. -/
theorem Indifferent.updateWaitStatus_keeps :
    Triple (fun u => P u ∧ (u.heap q).asPtracee.event.value = event)
      (updateWaitStatus s handle r q) (fun _ => P) E := by
  refine Triple.tracee_bind fun t => ?_
  rintro u ⟨⟨hu, hvalue⟩, rfl⟩
  have hlives : (u.heap q).endsForParent = false := by
    simp [Tracee.endsForParent, hvalue, wifexited_of_stopped hstopped, wifsignaled, hstopped]
  rw [if_neg (by simp [hlives])]
  have hpeek : Keeps P E (peek s r .original .sysarg2) :=
    Keeps.bind (tracee_keeps _) fun _ => Keeps.pure _
  refine Keeps.bind hpeek (fun address => ?_) u hu
  refine Keeps.bind (tracee_keeps _) fun p => ?_
  refine Keeps.bind (Keeps.ite (fun _ => hP.ask_keeps rfl) fun _ => Keeps.pure _)
    fun reply => Keeps.ite (fun _ => Keeps.pure _) fun _ => ?_
  refine Keeps.bind (Keeps.modify hconsume) fun _ => Triple.tracee_bind fun t => ?_
  rintro v ⟨hv, rfl⟩
  rw [when, if_neg (by simp [halive v hv])]
  exact Keeps.pure _ v hv

/-- It is woken if it waits for it. -/
theorem Indifferent.notifyPtracer_marks (hQ : Indifferent r Q)
    (hmark : ∀ u how, P u → Q (u.log (.restarted r how))) (handledFirst keepStopped : Bool) :
    Triple (fun u => P u ∧ (u.heap q).asPtracee.event.value = event)
      (notifyPtracer s handle r q handledFirst keepStopped)
      (fun keep u => keep = keepStopped ∧ Q u ∨ P u) E := by
  let R : World → Prop := fun u => P u ∧ (u.heap q).asPtracee.event.value = event
  refine Triple.bind (M := fun _ => R) (tracee_keeps _) fun p => ?_
  refine Triple.bind (M := fun _ => R)
    (fun u hu => Triple.of_ok (ask_apply ..) ⟨hP.log _ rfl hu.1, hu.2⟩) fun _ => ?_
  refine Triple.bind (M := fun _ => R) (tracee_keeps _) fun t => ?_
  refine Triple.ite (fun _ => ?_) fun _ => Triple.pure fun _ hu => Or.inr hu.1
  refine Triple.bind (hP.updateWaitStatus_keeps hstopped hconsume halive) fun status => ?_
  refine Triple.bind (M := fun _ => P) (Keeps.when fun _ => hP.poke_keeps _ _) fun _ => ?_
  refine Triple.bind (M := fun _ => P) hP.pushRegs_keeps fun _ => ?_
  refine Triple.bind (M := fun _ => P) (hP.update_keeps fun _ => rfl) fun _ => ?_
  refine Triple.bind (M := fun _ => P) (hP.mark_keeps rfl) fun _ => ?_
  refine Triple.bind (hP.restartTracee_marks hQ hmark 0) fun restarted => Triple.pure fun u hu => ?_
  refine hu.imp_left fun hu => ⟨?_, hu.2⟩
  rw [hu.1, Bool.and_true]

end Resuming

/-! ## The event of the parent -/

/-- A new process of a known tracee is announced, which nothing is known of yet. -/
structure Births (s : Setup) (w : World) (parent : Ref) (childPid : ℤ) (registers : Reply) : Prop
    extends Announces s w parent childPid registers where
  linked : Linked none w
  alive : ∀ r ∈ w.tracees, (w.heap r).terminated = false
  found : (w.tracees.find? fun r => (w.heap r).pid = (w.heap parent).pid) = some parent
  new : ∀ r ∈ w.tracees, (w.heap r).pid ≠ childPid

/-- The child after the event of its parent. -/
def adoptedChild (s : Setup) (w : World) (parent : Ref) (registers : Reply) (cloneFlags : ℕ)
    (b : Birth) : Birth :=
  b.adopted s.target.cpu parent (w.heap parent)
    (announcedFlags s.target ((w.heap parent).mode s.target) registers cloneFlags)

/-- The flags that the event of a parent stands for. -/
def StopKind.cloneFlags : StopKind → Option ℕ
  | .vfork => some cloneVfork
  | .fork | .clone => some 0
  | _ => none

/-- Where no tracee has ended none is freed. -/
theorem freeTerminatedTracees_alive {s : Setup} {handle : Ref → ℤ → Prog ℤ} {w : World}
    (h : ∀ r ∈ w.tracees, (w.heap r).terminated = false) :
    freeTerminatedTracees s handle w = (.ok (), w) := by
  have hloop : ∀ refs : List Ref, (∀ r ∈ refs, (w.heap r).terminated = false) →
      forEach (fun r => do
        let t ← tracee r
        when t.terminated (beforeTraceeFree s handle r)) refs w = (.ok (), w) := by
    intro refs
    induction refs with
    | nil => exact fun _ => rfl
    | cons r rest ih =>
      intro halive
      have hfirst : (do
          let t ← tracee r
          when t.terminated (beforeTraceeFree s handle r)) w = (.ok (), w) := by
        rw [bind_apply_ok (tracee_apply r w), when,
          if_neg (by simp [halive r List.mem_cons_self])]
        rfl
      rw [forEach, bind_apply_ok hfirst]
      exact ih fun q hq => halive q (List.mem_cons_of_mem _ hq)
  unfold freeTerminatedTracees
  rw [bind_apply_ok (read_apply w)]
  exact hloop w.tracees h

/-- A stop is dealt with once its tracee is found, or made. -/
theorem eventLoop_stopped {s : Setup} {fuel : ℕ} {pid status : ℤ} {w : World}
    (halive : ∀ r ∈ w.tracees, (w.heap r).terminated = false) (h : wifstopped status = true) :
    eventLoop s fuel (.stop pid status) w = (do
      let r ← getTracee s none pid true
      match r with
      | none => fault .assertion
      | some r => dispatch s fuel r status) w := by
  obtain ⟨known, hknown, -⟩ := getTracee_find (s := s) none pid w
  apply (bind_apply_ok (freeTerminatedTracees_alive halive)).trans
  apply (bind_apply_ok (read_apply w)).trans
  apply (bind_apply_ok hknown).trans
  exact congrFun (if_neg (by simp [wifexited_of_stopped h])) w

/-- The event of a parent is passed to a ptracer that asks for it, which sees it as it is. -/
theorem filterEvent_cloneFlags {event : ℤ} {flags : ℕ}
    (h : (stopKind (stopSignal event)).cloneFlags = some flags) (t : Tracee) :
    filterEvent t event = none ∨ filterEvent t event = some (event, true) := by
  have hoption : ∀ option : ℕ, (if t.asPtracee.options &&& option = 0 then none
      else some (event, true)) = none ∨ (if t.asPtracee.options &&& option = 0 then none
      else some (event, true)) = some (event, true) := by
    intro option
    split
    · exact Or.inl rfl
    · exact Or.inr rfl
  unfold filterEvent
  cases hkind : stopKind (stopSignal event) with
  | vfork => exact hoption _
  | fork => exact hoption _
  | clone => exact hoption _
  | _ =>
    rw [hkind] at h
    cases h

section Births

variable {s : Setup} {w : World} {parent : Ref} {childPid : ℤ} {registers : Reply} {b : Birth}
  {E : Fault → World → Prop}

/-- A field that is inherited is the same beside the child. -/
theorem Beside.field {u : World} (h : Beside w u) {r : Ref} (hr : r ≠ w.next) {α : Type}
    (f : Tracee → α) (hf : ∀ t, f t.heritage = f t) : f (u.heap r) = f (w.heap r) := by
  rw [← hf, h.heritage r hr, hf]

/-- What is expected of a child is beside it. -/
theorem Expecting.beside {u : World} (h : Expecting childPid b w u) : Beside w u := by
  rcases h with ⟨h, -⟩ | h
  · exact h.toBeside
  · exact h.toBeside

/-- A new tracee, if there is memory for it. -/
theorem newTracee_ok (s : Setup) (pid : ℤ) {w : World}
    (h : 0 ≤ (s.host (.alloc :: w.calls)).status) :
    newTracee s pid w = (.ok (some w.next), (w.log .alloc).create pid) := by
  have hdummy : newDummyTracee s w = (.ok (some w.next), (w.log .alloc).allocate) := by
    unfold newDummyTracee
    rw [bind_apply_ok (ask_apply ..)]
    exact congrFun (if_neg (not_lt.mpr h)) _
  unfold newTracee
  rw [bind_apply_ok hdummy]
  rfl

/-- The flags are read from the registers that were fetched. -/
theorem readCloneFlags_fetched {u : World} {m : Mode} {r : Ref} {bank : Bank}
    (hmode : (u.heap r).mode s.target = m) (cloneFlags : ℕ) : (do
      let sysnum ← sysnumOf s r .current
      if sysnum = .clone then peek s r .current .sysarg1 else pure cloneFlags : Prog ℕ)
        (u.fetched r bank) =
      (.ok (if getSysnum s.target m ⟨bank, zeroBank, zeroBank, false, false⟩ .current = .clone then
        peekReg m ⟨bank, zeroBank, zeroBank, false, false⟩ .current .sysarg1 else cloneFlags),
        u.fetched r bank) := by
  have hpeek : ∀ reg, peek s r .current reg (u.fetched r bank) =
      (.ok (peekReg m ⟨bank, zeroBank, zeroBank, false, false⟩ .current reg), u.fetched r bank) := by
    intro reg
    change (Except.ok (peekReg (((u.fetched r bank).heap r).mode s.target) ((u.fetched r bank).heap
      r).regs .current reg), _) = _
    rw [World.fetched, World.update_self, ← hmode]
    rfl
  have hsysnum : sysnumOf s r .current (u.fetched r bank) =
      (.ok (getSysnum s.target m ⟨bank, zeroBank, zeroBank, false, false⟩ .current),
        u.fetched r bank) := by
    change (Except.ok (getSysnum s.target (((u.fetched r bank).heap r).mode s.target)
      ((u.fetched r bank).heap r).regs .current), _) = _
    rw [World.fetched, World.update_self, ← hmode]
    rfl
  rw [bind_apply_ok hsysnum]
  split
  · exact hpeek .sysarg1
  · rfl

/-- The record of the child is changed. -/
theorem Known.update_child {u : World} (hu : Known childPid b w u) {f : Tracee → Tracee}
    {b' : Birth} (hf : (f (u.heap w.next)).pid = (u.heap w.next).pid ∧
      (f (u.heap w.next)).terminated = (u.heap w.next).terminated ∧
      (f (u.heap w.next)).isRoot = (u.heap w.next).isRoot ∧
      (f (u.heap w.next)).seccompEnabled = (u.heap w.next).seccompEnabled)
    (hbirth : (f (u.heap w.next)).birth = b') : Known childPid b' w (u.update w.next f) := by
  obtain ⟨hpid, hterminated, hroot, hseccomp⟩ := hf
  refine ⟨⟨fun r hr => ?_⟩, hu.tracees, ?_, ?_, ?_, ?_, ?_⟩
  · rw [World.update_heap, if_neg hr]
    exact hu.heritage r hr
  · rw [World.update_self, hpid, hu.pid]
  · rw [World.update_self, hbirth]
  · rw [World.update_self, hterminated, hu.terminated]
  · rw [World.update_self, hroot, hu.isRoot]
  · rw [World.update_self, hseccomp, hu.seccompEnabled]

/-- What the child takes over from the record of its parent. -/
theorem Known.inherit {u : World} (hu : Known childPid b w u) (cloneFlags : ℕ) (cpu : Cpu) :
    Known childPid { b.adopted cpu parent (u.heap parent) cloneFlags with asPtracee := b.asPtracee }
      w (u.update w.next (inherit cpu parent (u.heap parent) cloneFlags)) := by
  obtain rfl := hu.birth
  exact hu.update_child ⟨rfl, rfl, rfl, rfl⟩ rfl

variable (h : Births s w parent childPid registers)
include h

/-- The parent is one of the tracees. -/
theorem Births.listed : parent ∈ w.tracees := List.mem_of_find?_eq_some h.found

/-- The parent is not the child. -/
theorem Births.parent_ne : parent ≠ w.next := (h.linked.listed_lt parent h.listed).ne

/-- No tracee has ended meanwhile. -/
theorem Births.still_alive {u : World} (hu : Expecting childPid b w u) :
    ∀ r ∈ u.tracees, (u.heap r).terminated = false := by
  have hold : ∀ r ∈ w.tracees, (u.heap r).terminated = false := fun r hr => by
    rw [hu.beside.field (h.linked.listed_lt r hr).ne Tracee.terminated fun _ => rfl]
    exact h.alive r hr
  rcases hu with ⟨hu, -⟩ | hu
  · rw [hu.tracees]
    exact hold
  · rw [hu.tracees]
    exact List.forall_mem_cons.mpr ⟨hu.terminated, hold⟩

/-- The record of the child is found, or made. -/
theorem Births.getTracee_known {u : World} (hu : Expecting childPid b w u) (current : Option Ref)
    (hcurrent : ∀ r, current = some r → r = parent) :
    ∃ v, getTracee s current childPid true u = (.ok (some w.next), v) ∧ Known childPid b w v ∧
      ∀ C, SkipsMinor C → C u.calls → C v.calls := by
  have hpid : ∀ r ∈ w.tracees, (u.heap r).pid ≠ childPid := by
    intro r hr
    rw [hu.beside.field (h.linked.listed_lt r hr).ne Tracee.pid fun _ => rfl]
    exact h.new r hr
  have hfilter : (current.filter fun r => (u.heap r).pid = childPid) = none := by
    refine Option.filter_eq_none_iff.mpr fun r hr => ?_
    rw [hcurrent r hr]
    simpa using hpid parent h.listed
  unfold getTracee
  rw [bind_apply_ok (read_apply u), hfilter]
  rcases hu with ⟨hu, rfl⟩ | hu
  · have hnone : (u.tracees.find? fun r => (u.heap r).pid = childPid) = none := by
      rw [hu.tracees]
      exact List.find?_eq_none.mpr fun r hr => by simpa using hpid r hr
    rw [hnone, ← hu.next]
    refine ⟨_, newTracee_ok s childPid (h.memory _), ?_,
      fun C hC hu => hC _ _ rfl (hC _ _ rfl hu)⟩
    have hchild : ((u.log .alloc).create childPid).heap w.next =
        { pid := childPid, vpid := u.nextVpid } := by
      rw [create_heap, ← hu.next]
      exact if_pos rfl
    refine ⟨⟨fun r hr => ?_⟩, ?_, ?_, ?_, ?_, ?_, ?_⟩
    · rw [create_heap, if_neg (hu.next.symm ▸ hr)]
      exact hu.heritage r hr
    · exact congrArg₂ List.cons hu.next hu.tracees
    · rw [hchild]
    · rw [hchild]
      rfl
    · rw [hchild]
    · rw [hchild]
    · rw [hchild]
  · have hsome : (u.tracees.find? fun r => (u.heap r).pid = childPid) = some w.next := by
      rw [hu.tracees]
      exact List.find?_cons_of_pos (by simpa using hu.pid)
    rw [hsome]
    exact ⟨u, rfl, hu, fun _ _ hC => hC⟩

/-- The flags are those that the registers of the parent tell. -/
theorem Births.actualCloneFlags_eq (cloneFlags : ℕ) :
    Triple (Meanwhile parent w (Expecting childPid b w)) (actualCloneFlags s parent cloneFlags)
      (fun flags u => Meanwhile parent w (Expecting childPid b w) u ∧
        flags = announcedFlags s.target ((w.heap parent).mode s.target) registers cloneFlags)
      E := by
  intro u hu
  have haside : Aside w.next (Meanwhile parent w (Expecting childPid b w)) :=
    Expecting.aside.recorded (NotRestarted.skipsMinor _ _)
  have hpid := hu.1.beside.field h.parent_ne Tracee.pid fun _ => rfl
  have hmode := hu.1.beside.field h.parent_ne (fun t => t.mode s.target) fun _ => rfl
  have hreply : fetchReply s parent u = registers := by
    rw [fetchReply, hpid]
    exact h.registers _ hu.2
  have hasked := haside.log (.getRegs (u.heap parent).pid) rfl hu
  unfold actualCloneFlags
  by_cases hfail : registers.status < 0
  · have hfetch := fetchRegs_failed s (r := parent) (hreply.symm ▸ hfail)
    rw [bind_apply_ok hfetch, hreply]
    exact Triple.of_ok (congrFun (if_pos hfail) _) ⟨hasked, (if_pos hfail).symm⟩
  · have hfetch := fetchRegs_apply s (r := parent) (hreply.symm ▸ not_lt.mp hfail)
    rw [bind_apply_ok hfetch, hreply, announcedFlags, if_neg hfail]
    exact Triple.of_ok ((congrFun (if_neg (lt_irrefl _)) _).trans (readCloneFlags_fetched hmode _))
      ⟨haside.update h.parent_ne (fun _ => rfl) hasked, rfl⟩

/-- The child gets the ptracer of its parent, or none. -/
theorem Births.inheritPtracer_known (cloneFlags : ℕ) {p : Tracee}
    (hp : p.heritage = (w.heap parent).heritage) :
    Triple (Meanwhile parent w (Known childPid b w)) (inheritPtracer w.next p cloneFlags)
      (fun _ => Meanwhile parent w (Known childPid { b with
        asPtracee :=
          if p.passesPtracer cloneFlags then
            { ptracer := p.asPtracee.ptracer, options := p.asPtracee.options &&& 0x7f }
          else b.asPtracee } w)) E := by
  have hkept : ¬p.passesPtracer cloneFlags → Triple (Meanwhile parent w (Known childPid b w))
      (pure () : Prog Unit) (fun _ => Meanwhile parent w (Known childPid { b with
        asPtracee :=
          if p.passesPtracer cloneFlags then
            { ptracer := p.asPtracee.ptracer, options := p.asPtracee.options &&& 0x7f }
          else b.asPtracee } w)) E := fun hnone => Triple.pure fun u hu => by
    rw [if_neg hnone]
    exact hu
  unfold inheritPtracer
  split
  · rename_i hptracer
    exact hkept fun hpasses => hpasses.1 hptracer
  · rename_i ptracer hptracer
    have hne : p.asPtracee.ptracer ≠ none := fun hnone => by simp [hptracer] at hnone
    refine Triple.ite (fun hasked => ?_) fun hasked => hkept fun hpasses => hasked hpasses.2
    rw [if_pos ⟨hne, hasked⟩]
    rintro u ⟨hu, hstill⟩
    have hlt : ptracer < w.next := by
      have hsame : p.asPtracee.ptracer = (w.heap parent).asPtracee.ptracer :=
        congrArg (fun t => t.asPtracee.ptracer) hp
      exact (h.linked.ptracer_lt parent ptracer (hsame.symm.trans hptracer)).2
    obtain rfl := hu.birth
    rw [bind_apply_ok (attachToPtracer_apply u w.next ptracer)]
    have hattached : Known childPid
        { (u.heap w.next).birth with asPtracee := { ptracer := ptracer } } w
        (u.attach w.next ptracer) :=
      Known.aside.update hlt.ne (fun _ => rfl) (hu.update_child ⟨rfl, rfl, rfl, rfl⟩ rfl)
    refine Triple.of_ok (update_apply ..)
      ⟨hattached.update_child ⟨rfl, rfl, rfl, rfl⟩ ?_, hstill⟩
    rw [attach_heap, if_pos rfl, hptracer]
    simp [Tracee.birth]

/-- The child is what it is after the event of its parent. -/
theorem Births.newChild_known {handle : Ref → ℤ → Prog ℤ} (hsigstop : b.sigstop ≠ .pending)
    (cloneFlags : ℕ) :
    Triple (Meanwhile parent w (Expecting childPid b w)) (newChild s handle parent cloneFlags)
      (fun _ => Meanwhile parent w
        (Known childPid (adoptedChild s w parent registers cloneFlags b) w))
      (fun _ _ => True) := by
  unfold adoptedChild
  refine Triple.bind (h.actualCloneFlags_eq cloneFlags) fun flags => ?_
  rintro u ⟨⟨hu, hstill⟩, rfl⟩
  generalize announcedFlags s.target ((w.heap parent).mode s.target) registers cloneFlags = flags
  have hpid := hu.beside.field h.parent_ne Tracee.pid fun _ => rfl
  obtain ⟨hstatus, hvalue, htoInt⟩ := h.message _ hstill
  rw [bind_apply_ok (tracee_apply ..), bind_apply_ok (ask_apply ..), hpid,
    if_neg (by simp [hvalue, hstatus]), htoInt]
  obtain ⟨v, hget, hv, hkeeps⟩ := h.getTracee_known (hu.log (.getEventMsg (w.heap parent).pid))
    (some parent) fun r hr => (Option.some.inj hr).symm
  rw [bind_apply_ok hget]
  let known : World → Prop := Meanwhile parent w (Known childPid b w)
  refine Triple.bind (M := fun _ => known) (tracee_keeps _) (fun c => ?_) v
    ⟨hv, hkeeps _ (NotRestarted.skipsMinor _ _) (hstill.cons rfl)⟩
  refine Triple.bind (M := fun _ => known) (assert_keeps (fun _ _ => trivial) _) fun _ => ?_
  refine Triple.tracee_bind fun p => ?_
  rintro v ⟨⟨hv, hstill⟩, rfl⟩
  have hheritage := hv.heritage parent h.parent_ne
  rw [bind_apply_ok (update_apply ..)]
  refine Triple.bind (h.inheritPtracer_known flags hheritage) (fun _ => ?_) _
    ⟨hv.inherit flags s.target.cpu, hstill⟩
  have hadopted := Birth.adopted_heritage hheritage s.target.cpu parent flags b
  refine Triple.bind (M := fun _ => Meanwhile parent w (Known childPid
    (b.adopted s.target.cpu parent (w.heap parent) flags) w)) ?_ fun _ => Keeps.pure 0
  refine Triple.tracee_bind fun c => ?_
  rintro v' ⟨hv', rfl⟩
  have hkept : (v'.heap w.next).sigstop ≠ .pending := by
    rw [show (v'.heap w.next).sigstop = b.sigstop from congrArg Birth.sigstop hv'.1.birth]
    exact hsigstop
  rw [when, if_neg hkept]
  exact Triple.of_ok (pure_apply () v') (hadopted ▸ hv')

variable {event : ℤ} {cloneFlags : ℕ} (hstopped : wifstopped event = true)
include hstopped

variable (hflags : (stopKind (stopSignal event)).cloneFlags = some cloneFlags)
include hflags

/-- The event is handled. -/
theorem Births.handleTraceeEvent_known (hsigstop : b.sigstop ≠ .pending) (fuel : ℕ) :
    Triple (Meanwhile parent w (Expecting childPid b w)) (handleTraceeEvent s fuel parent event)
      (fun _ => Meanwhile parent w
        (Known childPid (adoptedChild s w parent registers cloneFlags b) w))
      (fun _ _ => True) := by
  let awaiting : World → Prop := Meanwhile parent w (Expecting childPid b w)
  let born : World → Prop :=
    Meanwhile parent w (Known childPid (adoptedChild s w parent registers cloneFlags b) w)
  have hawaiting : Aside w.next awaiting := Expecting.aside.recorded (NotRestarted.skipsMinor _ _)
  have hborn : Aside w.next born := Known.aside.recorded (NotRestarted.skipsMinor _ _)
  cases fuel with
  | zero => exact Triple.fault fun _ _ => trivial
  | succ fuel =>
    refine Triple.bind (M := fun _ => awaiting) (hawaiting.mark_keeps rfl) fun _ => ?_
    refine Triple.bind (M := fun _ => awaiting) (hawaiting.update_keeps h.parent_ne fun t => ?_)
      fun _ => ?_
    · unfold chooseRestart
      split <;> rfl
    refine Triple.bind (M := fun _ => born) ?_ fun signal => ?_
    · rw [handleStatus_stopped s hstopped]
      have hchild : ∀ flags, some flags = some cloneFlags → Triple awaiting (do
          let _ ← newChild s (handleTraceeEvent s fuel) parent flags
          pure 0 : Prog ℤ) (fun _ => born) (fun _ _ => True) := by
        rintro flags ⟨⟩
        exact Triple.bind (h.newChild_known hsigstop cloneFlags) fun _ => Keeps.pure 0
      unfold handleStop
      cases hkind : stopKind (stopSignal event) with
      | vfork => exact hchild _ ((congrArg StopKind.cloneFlags hkind).symm.trans hflags)
      | fork => exact hchild _ ((congrArg StopKind.cloneFlags hkind).symm.trans hflags)
      | clone => exact hchild _ ((congrArg StopKind.cloneFlags hkind).symm.trans hflags)
      | _ =>
        rw [hkind] at hflags
        cases hflags
    · exact Keeps.bind (hborn.update_keeps h.parent_ne fun _ => rfl) fun _ => Keeps.pure _

/-- The event is passed to the ptracer of the parent, if there is one. -/
theorem Births.handlePtraceeEvent_known (hsigstop : b.sigstop ≠ .pending) (fuel : ℕ) :
    Triple (Meanwhile parent w (Expecting childPid b w))
      (handlePtraceeEvent s (handleTraceeEvent s fuel) parent event)
      (fun keep u => keep = false ∧ Meanwhile parent w (Expecting childPid b w) u ∨
        keep = true ∧ Known childPid (adoptedChild s w parent registers cloneFlags b) w u ∨
        Meanwhile parent w (Known childPid (adoptedChild s w parent registers cloneFlags b) w) u)
      (fun _ _ => True) := by
  let awaiting : World → Prop := Meanwhile parent w (Expecting childPid b w)
  let known : World → Prop := Known childPid (adoptedChild s w parent registers cloneFlags b) w
  let born : World → Prop := Meanwhile parent w known
  have hawaiting : Aside w.next awaiting := Expecting.aside.recorded (NotRestarted.skipsMinor _ _)
  have hknown : Aside w.next known := Known.aside
  have hborn : Aside w.next born := Known.aside.recorded (NotRestarted.skipsMinor _ _)
  refine Triple.tracee_bind fun t => ?_
  cases hptracer : t.asPtracee.ptracer with
  | none => exact Triple.fault fun _ _ => trivial
  | some ptracer =>
    by_cases hne : ptracer = w.next
    · rintro u ⟨hu, rfl⟩
      have hsame := hu.1.beside.field h.parent_ne (fun t => t.asPtracee.ptracer) fun _ => rfl
      exact absurd hne (h.linked.ptracer_lt parent ptracer (hsame.symm.trans hptracer)).2.ne
    refine Triple.bind (M := fun _ => awaiting)
      (Triple.modify fun u hu => hawaiting.update h.parent_ne (fun _ => rfl) hu.1) fun _ => ?_
    dsimp only
    rw [if_pos hstopped]
    rcases filterEvent_cloneFlags hflags t with hfilter | hfilter
    · rw [hfilter]
      exact Triple.pure fun v hv => Or.inl ⟨rfl, hv⟩
    rw [hfilter]
    have hstarts : (!wifstopped event ||
        decide (stopKind (stopSignal event) ≠ .syscall)) = true := by
      refine Bool.or_eq_true_iff.mpr (Or.inr (decide_eq_true fun hsyscall => ?_))
      rw [hsyscall] at hflags
      cases hflags
    refine Triple.bind (M := fun _ => awaiting) (hawaiting.update_keeps h.parent_ne fun _ => rfl)
      fun _ => ?_
    rw [hstarts, Bool.or_true, if_neg (by simp)]
    refine Triple.bind (M := fun _ => born) ?_ fun _ => ?_
    · rw [when, if_pos rfl]
      refine Triple.bind (h.handleTraceeEvent_known hstopped hflags hsigstop fuel) fun signal => ?_
      refine Keeps.bind (hborn.update_keeps h.parent_ne fun _ => rfl) fun _ => ?_
      exact assert_keeps (fun _ _ => trivial) _
    refine Triple.bind (M := fun _ v => born v ∧ (v.heap parent).asPtracee.event.value = event)
      (Triple.modify fun v hv => ⟨hborn.update h.parent_ne (fun _ => rfl) hv, ?_⟩) fun _ => ?_
    · rw [World.update_self]
    have hnoZombie : ∀ v, born v → (v.heap parent).asPtracee.isZombie = false := by
      intro v hv
      rw [hv.1.toBeside.field h.parent_ne (fun t => t.asPtracee.isZombie) fun _ => rfl,
        Bool.eq_false_iff]
      intro hzombie
      have halive := h.linked.listed_alive parent h.listed
      rw [h.linked.reported parent hzombie] at halive
      cases halive
    rw [hstopped]
    exact ((hborn.indifferent hne).notifyPtracer_marks hstopped
      (fun v hv => hborn.update h.parent_ne (fun _ => rfl) hv) hnoZombie (hknown.indifferent hne)
      (fun v how hv => hv.1.log _) true true).conseq (fun _ hv => hv) (fun _ _ hv => Or.inr hv)
      fun _ _ h => h

/-- The event of the parent is dealt with. -/
theorem Births.dispatch_known (hsigstop : b.sigstop ≠ .pending) (fuel : ℕ) :
    Triple (Meanwhile parent w (Expecting childPid b w)) (dispatch s fuel parent event)
      (fun _ => Known childPid (adoptedChild s w parent registers cloneFlags b) w)
      (fun _ _ => True) := by
  let awaiting : World → Prop := Meanwhile parent w (Expecting childPid b w)
  let known : World → Prop := Known childPid (adoptedChild s w parent registers cloneFlags b) w
  have hawaiting : Aside w.next awaiting := Expecting.aside.recorded (NotRestarted.skipsMinor _ _)
  have hknown : Aside w.next known := Known.aside
  refine Triple.bind (M := fun _ => awaiting) (hawaiting.update_keeps h.parent_ne fun _ => rfl)
    fun _ => ?_
  refine Triple.bind (M := fun _ => awaiting) (hawaiting.mark_keeps rfl) fun _ => ?_
  refine Triple.bind (M := fun _ => awaiting) (tracee_keeps _) fun t => ?_
  refine Triple.bind (M := fun keep u => keep = false ∧ awaiting u ∨ keep = true ∧ known u ∨
      Meanwhile parent w known u)
    (Triple.ite (fun _ => Triple.pure fun u hu => Or.inl ⟨rfl, hu⟩)
      fun _ => h.handlePtraceeEvent_known hstopped hflags hsigstop fuel) fun keep => ?_
  have hagain : Triple (Meanwhile parent w known) (handleTraceeEvent s fuel parent event)
      (fun _ => Meanwhile parent w known) fun _ _ => True := by
    refine (h.handleTraceeEvent_known hstopped hflags (b := adoptedChild s w parent registers
      cloneFlags b) hsigstop fuel).conseq (fun u hu => ⟨Or.inr hu.1, hu.2⟩) (fun _ u hu => ?_)
      fun _ _ h => h
    rwa [adoptedChild, adoptedChild, Birth.adopted_adopted] at hu
  refine Triple.ite (fun hreleased => ?_) fun hkeep => Triple.pure fun u hu => ?_
  · refine Triple.bind (M := fun _ => known) (fun u hu => ?_) fun signal => ?_
    · rcases hu with ⟨-, hu⟩ | ⟨hkept, -⟩ | hu
      · have hfirst := h.handleTraceeEvent_known hstopped hflags hsigstop fuel u hu
        exact ⟨fun a v heq => (hfirst.1 a v heq).1, hfirst.2⟩
      · simp [hkept] at hreleased
      · exact ⟨fun a v heq => ((hagain u hu).1 a v heq).1, (hagain u hu).2⟩
    · exact Keeps.bind ((hknown.indifferent h.parent_ne).restartTracee_keeps
        (fun v how hv => hv.log _) signal) fun _ => Keeps.pure ()
  · rcases hu with ⟨hreleased, -⟩ | ⟨-, hu⟩ | hu
    · simp [hreleased] at hkeep
    · exact hu
    · exact hu.1

/-- A round deals with the event of the parent. -/
theorem Births.parentRound (hsigstop : b.sigstop ≠ .pending) (fuel : ℕ) :
    Triple (Meanwhile parent w (Expecting childPid b w))
      (eventLoop s fuel (.stop (w.heap parent).pid event))
      (fun _ => Known childPid (adoptedChild s w parent registers cloneFlags b) w)
      (fun _ _ => True) := by
  rintro u ⟨hu, hstill⟩
  have hpid : ∀ r ∈ w.tracees, (u.heap r).pid = (w.heap r).pid := fun r hr =>
    hu.beside.field (h.linked.listed_lt r hr).ne Tracee.pid fun _ => rfl
  have hsame : (w.tracees.find? fun r => (u.heap r).pid = (w.heap parent).pid) = some parent :=
    (List.find?_congr fun r hr => by rw [hpid r hr]).trans h.found
  have hfind : (u.tracees.find? fun r => (u.heap r).pid = (w.heap parent).pid) = some parent := by
    rcases hu with ⟨hu, -⟩ | hu
    · rw [hu.tracees, hsame]
    · rw [hu.tracees, List.find?_cons_of_neg, hsame]
      simpa [hu.pid] using (h.new parent h.listed).symm
  have hget : getTracee s none (w.heap parent).pid true u = (.ok (some parent), u) := by
    unfold getTracee
    rw [bind_apply_ok (read_apply u)]
    simp only [Option.filter_none, hfind, pure_apply]
  rw [eventLoop_stopped (h.still_alive hu) hstopped, bind_apply_ok hget]
  exact h.dispatch_known hstopped hflags hsigstop fuel u ⟨hu, hstill⟩

end Births

end Abyss
