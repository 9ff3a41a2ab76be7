import Abyss.Ptrace.MissingTracer
import Abyss.Syscall.RegisterFile
import Abyss.Tracee.Change

/-!
# Handling an event, change by change

Each part of the handling of an event is followed through its branches once, and shown to be a
sequence of the changes listed before. The parts up to the exit of a syscall only touch the record
of the stopped tracee; the exit of a ptrace or wait syscall is where other tracees come in, and
where a deferred event of another tracee may be handled in turn.
-/

namespace Abyss

open Machine

variable {s : Setup} {r : Ref} {P : World → Prop} {E : Fault → World → Prop}

/-- A stop that was ignored once is not ignored again. -/
theorem Own.allowed (t : Tracee) : Own t { t with sigstop := .allowed } :=
  ⟨rfl, rfl, rfl, rfl, rfl, rfl, rfl, rfl, rfl, fun _ => nofun, Or.inl rfl, fun _ _ => rfl,
    Or.inl rfl⟩

/-- The event of a tracee is taken by the tracer. -/
theorem Own.taken (t : Tracee) : Own t { t with asPtracee :=
    { t.asPtracee with proot := { t.asPtracee.proot with pending := false } } } :=
  ⟨rfl, rfl, rfl, rfl, rfl, rfl, rfl, rfl, rfl, id, Or.inr rfl, fun _ _ => rfl, Or.inl rfl⟩

/-- The status of a settled tracee may change. -/
theorem Tracee.settled.own {t : Tracee} (h : t.settled) (status : ℤ) :
    Own t { t with status := status } := by
  refine ⟨rfl, rfl, rfl, rfl, rfl, rfl, rfl, rfl, rfl, id, Or.inl rfl, fun hroot hdeliver => ?_,
    Or.inl rfl⟩
  rw [h hroot] at hdeliver
  cases hdeliver

/-- The acceleration of a settled tracee is disabled at the next stop at a syscall. -/
theorem Tracee.settled.disabled {t : Tracee} (h : t.settled) (hdisabling : t.seccomp = .disabling) :
    Own t { t with seccomp := .disabled, status := if t.isInSysenter then 1 else t.status } := by
  refine ⟨rfl, rfl, rfl, rfl, rfl, rfl, rfl, rfl, rfl, id, Or.inl rfl, fun hroot hdeliver => ?_,
    Or.inr ⟨hdisabling, rfl⟩⟩
  rw [h hroot] at hdeliver
  cases hdeliver

/-- Or at once, if it is asked for during the stage. -/
theorem Own.disabled (t : Tracee) : Own t
    (if t.seccomp = .disabling then { t with restartHow := .syscall, seccomp := .disabled }
    else t) := by
  split
  · rename_i hdisabling
    exact ⟨rfl, rfl, rfl, rfl, rfl, rfl, rfl, rfl, rfl, id, Or.inl rfl, fun _ _ => rfl,
      Or.inr ⟨hdisabling, rfl⟩⟩
  · exact Own.of_shape rfl

/-! ## The enter stage -/

section Solo

variable (hP : ∀ w w', P w → Solo r w w' → P w')
include hP

/-- A change of the own record keeps what is stable. -/
theorem own_keeps {f : Tracee → Tracee} (hf : ∀ w, P w → Own (w.heap r) (f (w.heap r))) :
    Keeps P E (update r f) :=
  Keeps.modify fun w hw => hP w _ hw (.own (hf w hw))

/-- A change that keeps the shape of the record. -/
theorem shape_keeps {f : Tracee → Tracee} (hf : ∀ t, (f t).shape = t.shape) :
    Keeps P E (update r f) :=
  own_keeps hP fun _ _ => Own.of_shape (hf _)

/-- So does the mark of a stop. -/
theorem stopMark_keeps {c : Call} (hc : c.isStopMark = true) : Keeps P E (mark c) :=
  Keeps.modify fun w hw => hP w _ hw (.mark hc)

/-- A quiet program of the tracee only changes what has no shape. -/
theorem quiet_keeps {α : Type} {x : Prog α} {F : Fault → Prop} (hx : Quiet r F x)
    (hF : ∀ e w, F e → P w → E e w) : Keeps P E x := by
  intro w hw
  obtain ⟨hcore, hothers, hfault⟩ := hx w
  obtain ⟨hshape, hmarks⟩ := shape_of_core hcore
  have hkept : P (x w).2 := hP w _ hw (.still hshape hmarks hothers)
  refine ⟨fun a w' heq => ?_, fun e w' heq => ?_⟩
  · rw [heq] at hkept
    exact hkept
  · rw [heq] at hkept hfault
    exact hF e w' (hfault e rfl) hkept

/-- A quiet program that never faults. -/
theorem silent_keeps {α : Type} {x : Prog α} (hx : Quiet r (fun _ => False) x) : Keeps P E x :=
  quiet_keeps hP hx fun _ _ h => h.elim

/-- So does it to call the user at the entry. -/
theorem callOnSysenter_keeps : Keeps P E (callOnSysenter s r) := by
  refine Keeps.when fun _ => ?_
  refine Keeps.bind (silent_keeps hP (sysnumOf_quiet s r _)) fun sysnum => ?_
  refine Keeps.bind (silent_keeps hP (callbackPid_quiet r)) fun pid => ?_
  refine Keeps.bind (silent_keeps hP (Quiet.ask s rfl)) fun reply => ?_
  refine Keeps.bind (silent_keeps hP (applyPokes_quiet s r _)) fun _ => ?_
  refine Keeps.bind (shape_keeps hP fun _ => rfl) fun _ => ?_
  exact stopMark_keeps hP rfl

/-- So does the translation of the arguments. -/
theorem translateRequestedEnter_keeps : Keeps P E (translateRequestedEnter s r) := by
  refine Keeps.bind (shape_keeps hP fun _ => rfl) fun _ => ?_
  refine Keeps.bind (callOnSysenter_keeps hP) fun _ => ?_
  refine Keeps.bind (silent_keeps hP (translateSyscallEnter_quiet s r)) fun status => ?_
  exact Keeps.bind (shape_keeps hP fun _ => rfl) fun _ => Keeps.pure status

variable (hs : ∀ w, P w → (w.heap r).settled)
include hs

/-- So does a change of the status. -/
theorem status_keeps (status : ℤ) : Keeps P E (update r fun t => { t with status := status }) :=
  own_keeps hP fun w hw => (hs w hw).own status

/-- So does the end of the entry. -/
theorem finishEnter_keeps (status : ℤ) : Keeps P E (finishEnter s r status) := by
  have hend : Keeps P E (if status < 0 then do
      pokeSysnum s r .void
      poke s r .sysargResult (toWord s.target status)
      update r fun t => { t with status := status }
    else update r fun t => { t with status := 1 }) := by
    refine Keeps.ite (fun _ => ?_) fun _ => status_keeps hP hs 1
    refine Keeps.bind (silent_keeps hP (pokeSysnum_quiet s r _)) fun _ => ?_
    refine Keeps.bind (silent_keeps hP (poke_quiet s r _ _)) fun _ => ?_
    exact status_keeps hP hs status
  refine Keeps.bind hend fun _ => Keeps.bind (tracee_keeps r) fun t => Keeps.when fun _ => ?_
  refine Keeps.bind (status_keeps hP hs 0) fun _ => ?_
  refine Keeps.bind (silent_keeps hP (peek_quiet s r _ _)) fun value => ?_
  exact silent_keeps hP (poke_quiet s r _ _)

/-- The enter stage never faults, and keeps what holds once it has left its mark. -/
theorem enterStage_marked {P₀ : World → Prop}
    (hmark : ∀ w, P₀ w → P (w.log (.enterStage r))) :
    Triple P₀ (enterStage s r) (fun _ => P) E := by
  refine Triple.bind (M := fun _ => P) (Triple.modify hmark) fun _ => ?_
  refine Keeps.bind (shape_keeps hP fun _ => rfl) fun _ => Keeps.bind (tracee_keeps r) fun t => ?_
  have hstatus : Keeps P E (if t.chain.syscalls = .null then translateRequestedEnter s r
      else do
        update r fun t => { t with restartHow := .syscall }
        pure 0) := by
    refine Keeps.ite (fun _ => translateRequestedEnter_keeps hP) fun _ => ?_
    exact Keeps.bind (shape_keeps hP fun _ => rfl) fun _ => Keeps.pure 0
  exact Keeps.bind hstatus fun status => finishEnter_keeps hP hs status

/-- So does the entry as a whole. -/
theorem enterStage_keeps : Keeps P E (enterStage s r) :=
  enterStage_marked hP hs fun w hw => hP w _ hw (.mark rfl)

end Solo

/-! ## Programs that reach other tracees -/

section Telling

variable (hS : Telling P)
include hS

/-- A change of any record that keeps its shape. -/
theorem Telling.update_keeps {q : Ref} {f : Tracee → Tracee} (hf : ∀ t, (f t).shape = t.shape) :
    Keeps P E (update q f) :=
  Keeps.modify fun w hw => hS.report w _ hw (.still (w.update_shape q hf) rfl)

/-- A mark keeps a telling invariant, unless it frees a tracee. -/
theorem Telling.mark_keeps {c : Call} (hc : ∀ q, c ≠ .freed q) : Keeps P E (mark c) :=
  Keeps.modify fun w hw => hS.report w _ hw (.mark hc)

/-- A quiet program of any tracee. -/
theorem Telling.quiet_keeps {q : Ref} {α : Type} {x : Prog α} {F : Fault → Prop}
    (hx : Quiet q F x) (hF : ∀ e w, F e → P w → E e w) : Keeps P E x := by
  intro w hw
  obtain ⟨hcore, -, hfault⟩ := hx w
  obtain ⟨hshape, hmarks⟩ := shape_of_core hcore
  have hkept : P (x w).2 := hS.report w _ hw (.still hshape hmarks)
  refine ⟨fun a w' heq => ?_, fun e w' heq => ?_⟩
  · rw [heq] at hkept
    exact hkept
  · rw [heq] at hkept hfault
    exact hF e w' (hfault e rfl) hkept

/-- A program that is quiet keeps it. -/
theorem Telling.silent_keeps {q : Ref} {α : Type} {x : Prog α}
    (hx : Quiet q (fun _ => False) x) : Keeps P E x :=
  hS.quiet_keeps hx fun _ _ h => h.elim

/-- So does a question to the host. -/
theorem Telling.ask_keeps {c : Call} (hc : c.isMark = false) : Keeps P E (ask s c) :=
  hS.silent_keeps (q := 0) (Quiet.ask s hc)

/-- Restarting a tracee leaves a mark. -/
theorem Telling.restart_keeps (q : Ref) (signal : ℤ) : Keeps P E (restartTracee s q signal) := by
  refine Keeps.bind (tracee_keeps q) fun t => Keeps.ite (fun _ => Keeps.pure _) fun _ => ?_
  refine Keeps.bind (hS.ask_keeps rfl) fun reply => Keeps.ite (fun _ => Keeps.pure _) fun _ => ?_
  refine Keeps.bind (hS.mark_keeps nofun) fun _ => ?_
  exact Keeps.bind (hS.update_keeps fun _ => rfl) fun _ => Keeps.pure true

end Telling

/-- A stable invariant is kept by a change of the own record alone. -/
theorem Stable.solo {asks : Ref → Prop} (hS : Stable asks r P) (w w' : World) (hw : P w)
    (h : Solo r w w') : P w' :=
  hS.change w w' hw (.solo h)

/-! ## The ends of ptracees -/

/-- A ptracee that a wait of its ptracer may find. -/
def Waited (p q : Ref) (w : World) : Prop :=
  q ∈ w.tracees ∨ q ∈ (w.heap p).asPtracer.zombies

/-- A ptracee may be found in every world of the same shape. -/
theorem Waited.shape {p q : Ref} {w w' : World} (h : Waited p q w) (hw : w'.shape = w.shape) :
    Waited p q w' := by
  have hzombies : (w'.heap p).asPtracer.zombies = (w.heap p).asPtracer.zombies :=
    shape_field hw p (fun t => t.asPtracer.zombies) fun _ => rfl
  unfold Waited
  rw [hzombies, (shape_eq_iff.mp hw).2.2]
  exact h

/-- What is found by a search among the ptracees is one of them. -/
theorem findPtracee_waited {w : World} {p q : Ref} {pid : ℤ} {onlyStopped onlyWithPevent : Bool}
    {options : ℕ} {refs : List Ref}
    (h : findPtracee w p pid onlyStopped onlyWithPevent options refs = some q) :
    q ∈ refs ∧ (w.heap q).asPtracee.ptracer = some p := by
  induction refs with
  | nil => cases h
  | cons a rest ih =>
    rw [findPtracee] at h
    have hrest : findPtracee w p pid onlyStopped onlyWithPevent options rest = some q →
        q ∈ a :: rest ∧ (w.heap q).asPtracee.ptracer = some p := fun hfound =>
      (ih hfound).imp_left (List.mem_cons_of_mem _)
    by_cases hptracer : (w.heap a).asPtracee.ptracer = some p
    · rw [if_neg (not_not.mpr hptracer)] at h
      have hthis : a = q → q ∈ a :: rest ∧ (w.heap q).asPtracee.ptracer = some p := by
        rintro rfl
        exact ⟨List.mem_cons_self, hptracer⟩
      split at h
      · exact hrest h
      · split at h
        · exact hrest h
        · split at h
          · exact hthis (Option.some.inj h)
          · split at h
            · exact hrest h
            · split at h
              · exact hthis (Option.some.inj h)
              · split at h
                · cases h
                · exact hrest h
    · rw [if_pos hptracer] at h
      exact hrest h

/-- The ptracee that is found is one of the tracees, or a zombie of the ptracer. -/
theorem getPtracee_waited {w : World} {p q : Ref} {pid : ℤ} {onlyStopped onlyWithPevent : Bool}
    {options : ℕ} (h : getPtracee w p pid onlyStopped onlyWithPevent options = some q) :
    q ∈ w.tracees ∧ (w.heap q).asPtracee.ptracer = some p ∨
      q ∈ (w.heap p).asPtracer.zombies := by
  unfold getPtracee at h
  split at h
  · rename_i z hfound
    obtain rfl : z = q := Option.some.inj h
    exact Or.inr (List.mem_of_find?_eq_some hfound)
  · exact Or.inl (findPtracee_waited h)

section Free

variable {handle : Ref → ℤ → Prog ℤ} {w : World} {p q : Ref}

/-- A zombie is buried and freed. -/
theorem beforeTraceeFree_zombie (h : (w.heap q).isZombie = true) :
    beforeTraceeFree s handle q w = (.ok (), (w.bury q).log (.freed q)) := by
  unfold beforeTraceeFree
  rw [bind_apply_ok (tracee_apply q w), if_pos h]
  rfl

/-- So is one that was reported. -/
theorem freeNotified_zombie (hreported : (w.heap q).asPtracee.isZombie = true)
    (h : (w.heap q).isZombie = true) :
    freeNotified s handle q w = (.ok (), (w.bury q).log (.freed q)) := by
  unfold freeNotified
  rw [bind_apply_ok (tracee_apply q w), when, if_pos hreported]
  exact beforeTraceeFree_zombie h

/-- A ptracee that is no zombie is not freed. -/
theorem freeNotified_alive (h : (w.heap q).asPtracee.isZombie = false) :
    freeNotified s handle q w = (.ok (), w) := by
  unfold freeNotified
  rw [bind_apply_ok (tracee_apply q w), when, if_neg (by simp [h])]
  rfl

end Free

section Telling

variable (hS : Telling P) (hE : Ordinary E) {handle : Ref → ℤ → Prog ℤ} {p q : Ref}
include hS

include hE in
/-- A ptracee that was reported is detached, and a zombie is freed as well. -/
theorem Telling.leave_keeps : Triple (fun w => P w ∧ Waited p q w)
    (do
      detachFromPtracer q
      freeNotified s handle q) (fun _ => P) E := by
  rintro w ⟨hw, hq⟩
  obtain ⟨gone, hlinked⟩ := hS.linked w hw
  rcases hq with hlisted | hzombie
  · cases hptracer : (w.heap q).asPtracee.ptracer with
    | none =>
      rw [bind_apply_error (detachFromPtracer_none hptracer)]
      refine ⟨fun a w' heq => ?_, fun e w' heq => ?_⟩
      · cases heq
      · obtain ⟨⟨rfl⟩, -⟩ := Prod.mk.inj heq
        exact hE _ _ (by decide) (by decide)
    | some p =>
      have halive : ((w.detach q p).heap q).asPtracee.isZombie = false := by
        have hq := hlinked.listed_alive q hlisted
        rw [detach_heap]
        by_contra hne
        rw [hlinked.reported q (by simpa using hne)] at hq
        cases hq
      refine Triple.of_ok (a := ()) ?_ (hS.report _ _ hw (.detach hlisted hptracer))
      rw [bind_apply_ok (detachFromPtracer_apply hptracer (hlinked.nbPtracees_pos hptracer))]
      exact freeNotified_alive halive
  · obtain ⟨-, hdead, hreported, hptracer⟩ := hlinked.zombie p q hzombie
    refine Triple.of_ok (a := ()) ?_ (hS.report _ _ hw (.reap hzombie))
    rw [bind_apply_ok (detachFromPtracer_apply hptracer (hlinked.nbPtracees_pos hptracer))]
    refine freeNotified_zombie ?_ ?_
    · rw [detach_heap]
      exact hreported
    · rw [detach_heap]
      exact hdead

/-- A program that keeps the shape and the marks keeps what may be waited for. -/
theorem Telling.waited_keeps {a : Ref} {α : Type} {x : Prog α} {F : Fault → Prop} (hx : Quiet a F x)
    (hF : ∀ e w, F e → E e w) : Keeps (fun w => P w ∧ Waited p q w) E x := by
  intro w hw
  obtain ⟨hcore, -, hfault⟩ := hx w
  obtain ⟨hshape, hmarks⟩ := shape_of_core hcore
  refine ⟨fun a w' heq => ?_, fun e w' heq => ?_⟩
  · rw [heq] at hshape hmarks
    exact ⟨hS.report _ _ hw.1 (.still hshape hmarks), hw.2.shape hshape⟩
  · rw [heq] at hfault
    exact hF e w' (hfault e rfl)

/-- A change that keeps the shape keeps a ptracee that may be found. -/
theorem Telling.waited_update {a : Ref} {f : Tracee → Tracee} (hf : ∀ t, (f t).shape = t.shape) :
    Keeps (fun w => P w ∧ Waited p q w) E (update a f) :=
  Keeps.modify fun w hw =>
    ⟨hS.report _ _ hw.1 (.still (w.update_shape _ hf) rfl), hw.2.shape (w.update_shape _ hf)⟩

include hE in
/-- The original wait is restarted without the ptracee, whose end the kernel reports. -/
theorem Telling.restartWait_keeps : Triple (fun w => P w ∧ Waited p q w)
    (do
      restartWait s p q
      freeNotified s handle q) (fun _ => P) E := by
  unfold restartWait
  rw [bind_assoc]
  refine Triple.bind (M := fun _ w => P w ∧ Waited p q w) ?_ fun _ => ?_
  · exact Keeps.modify fun w hw => ⟨hS.report _ _ hw.1 (.mark nofun), hw.2.shape rfl⟩
  · rw [bind_assoc]
    exact Triple.bind (hS.waited_update fun _ => rfl) fun _ => hS.leave_keeps hE

/-- A zombie that was reported is detached and freed. -/
theorem Telling.reap_keeps {t : Tracee} :
    Triple (fun w => (P w ∧ Waited p q w) ∧ w.heap q = t) (when t.asPtracee.isZombie do
      detachFromPtracer q
      beforeTraceeFree s handle q) (fun _ => P) E := by
  refine Triple.ite (fun hreported => ?_) fun _ => Triple.pure fun w hw => hw.1.1
  rintro w ⟨⟨hw, hq⟩, rfl⟩
  obtain ⟨gone, hlinked⟩ := hS.linked w hw
  rcases hq with hlisted | hzombie
  · have hdead := hlinked.reported q hreported
    rw [hlinked.listed_alive q hlisted] at hdead
    cases hdead
  · obtain ⟨-, hdead, -, hptracer⟩ := hlinked.zombie p q hzombie
    refine Triple.of_ok (a := ()) ?_ (hS.report _ _ hw (.reap hzombie))
    rw [bind_apply_ok (detachFromPtracer_apply hptracer (hlinked.nbPtracees_pos hptracer))]
    refine beforeTraceeFree_zombie ?_
    rw [detach_heap]
    exact hdead

include hE in
/-- The status of a ptracer's wait is updated. -/
theorem Telling.updateWaitStatus_keeps : Triple (fun w => P w ∧ Waited p q w)
    (updateWaitStatus s handle p q) (fun _ => P) E := by
  refine Triple.bind (M := fun _ w => P w ∧ Waited p q w) (tracee_keeps q) fun t => ?_
  refine Triple.ite (fun _ => ?_) fun _ => ?_
  · rw [← bind_assoc]
    exact Triple.bind (hS.restartWait_keeps hE) fun _ => Keeps.pure 0
  · refine Triple.bind (M := fun _ w => P w ∧ Waited p q w) ?_ fun address => ?_
    · exact hS.waited_keeps (a := p) (F := fun _ => False) (peek_quiet s p _ _) fun _ _ h => h.elim
    refine Triple.bind (M := fun _ w => P w ∧ Waited p q w) (tracee_keeps p) fun _ => ?_
    refine Triple.bind (M := fun _ w => P w ∧ Waited p q w) ?_ fun reply => ?_
    · refine Keeps.ite (fun _ => ?_) fun _ => Keeps.pure _
      exact hS.waited_keeps (a := p) (F := fun _ => False) (Quiet.ask s rfl) fun _ _ h => h.elim
    refine Triple.ite (fun _ => Triple.pure fun w hw => hw.1) fun _ => ?_
    refine Triple.bind (M := fun _ w => P w ∧ Waited p q w) (hS.waited_update fun _ => rfl)
      fun _ => ?_
    refine Triple.tracee_bind fun t => ?_
    exact Triple.bind hS.reap_keeps fun _ => Keeps.pure _

end Telling

/-! ## The exit of a syscall -/

/-- What the exit of a syscall reads of a tracee, and all the other tracees, are as they were. -/
structure Frozen (r : Ref) (w₀ w : World) : Prop where
  original : (w.heap r).regs.original = (w₀.heap r).regs.original
  status : (w.heap r).status = (w₀.heap r).status
  isAarch32 : (w.heap r).isAarch32 = (w₀.heap r).isAarch32
  others : ∀ q, q ≠ r → w.heap q = w₀.heap q
  tracees : w.tracees = w₀.tracees

/-- The tracee is at the exit of a ptrace syscall that attaches to another one. -/
def AttachesTo (s : Setup) (r : Ref) (w : World) (q : Ref) : Prop :=
  0 < (w.heap r).status ∧
    getSysnum s.target ((w.heap r).mode s.target) (w.heap r).regs .original = .ptrace ∧
    ptraceRequestOf s r w = ptraceAttach ∧ (w.heap q).pid = toInt (ptracePidWord s r w)

section Frozen

variable {w₀ w : World}

/-- What was not changed is frozen. -/
theorem Frozen.refl (r : Ref) (w : World) : Frozen r w w := ⟨rfl, rfl, rfl, fun _ _ => rfl, rfl⟩

/-- A call leaves it frozen. -/
theorem Frozen.log (h : Frozen r w₀ w) (c : Call) : Frozen r w₀ (w.log c) :=
  ⟨h.original, h.status, h.isAarch32, h.others, h.tracees⟩

/-- So does a change that leaves the registers at the entry and the status alone. -/
theorem Frozen.update (h : Frozen r w₀ w) {f : Tracee → Tracee}
    (hf : ∀ t, (f t).regs.original = t.regs.original ∧ (f t).status = t.status ∧
      (f t).isAarch32 = t.isAarch32) : Frozen r w₀ (w.update r f) := by
  obtain ⟨horiginal, hstatus, haarch⟩ := hf (w.heap r)
  refine ⟨?_, ?_, ?_, fun q hq => ?_, h.tracees⟩
  · rw [World.update_self, horiginal]
    exact h.original
  · rw [World.update_self, hstatus]
    exact h.status
  · rw [World.update_self, haarch]
    exact h.isAarch32
  · rw [World.update_heap, if_neg hq]
    exact h.others q hq

/-- A register of the entry reads the same. -/
theorem Frozen.peek (h : Frozen r w₀ w) (reg : Reg) :
    peekReg ((w.heap r).mode s.target) (w.heap r).regs .original reg =
      peekReg ((w₀.heap r).mode s.target) (w₀.heap r).regs .original reg := by
  unfold peekReg Tracee.mode Regs.bank
  rw [h.original, h.isAarch32]

/-- The number of the syscall at the entry is frozen. -/
theorem Frozen.sysnum (h : Frozen r w₀ w) :
    getSysnum s.target ((w.heap r).mode s.target) (w.heap r).regs .original =
      getSysnum s.target ((w₀.heap r).mode s.target) (w₀.heap r).regs .original := by
  unfold getSysnum
  rw [h.peek, Tracee.mode, Tracee.mode, h.isAarch32]

/-- So is the request of a ptracer. -/
theorem Frozen.request (h : Frozen r w₀ w) : ptraceRequestOf s r w = ptraceRequestOf s r w₀ :=
  h.peek .sysarg1

/-- So is the pid that it asks for. -/
theorem Frozen.pidWord (h : Frozen r w₀ w) : ptracePidWord s r w = ptracePidWord s r w₀ := by
  unfold ptracePidWord
  dsimp only
  rw [h.peek, Tracee.mode, Tracee.mode, h.isAarch32]

end Frozen

/-- What chooses the next stage does not touch the syscall. -/
theorem detectSeccomp_frozen (t : Tracee) : (detectSeccomp t).regs.original = t.regs.original ∧
    (detectSeccomp t).status = t.status ∧ (detectSeccomp t).isAarch32 = t.isAarch32 := by
  unfold detectSeccomp
  split <;> exact ⟨rfl, rfl, rfl⟩

/-- To expect an exit leaves this alone. -/
theorem expectSysexit_frozen (t : Tracee) :
    (expectSysexit t).regs.original = t.regs.original ∧
      (expectSysexit t).status = t.status ∧ (expectSysexit t).isAarch32 = t.isAarch32 := by
  unfold expectSysexit
  split
  · exact ⟨rfl, rfl, rfl⟩
  · split <;> exact ⟨rfl, rfl, rfl⟩

/-- So does it to choose a way of the restart. -/
theorem chooseRestart_frozen (t : Tracee) :
    (chooseRestart t).regs.original = t.regs.original ∧
      (chooseRestart t).status = t.status ∧ (chooseRestart t).isAarch32 = t.isAarch32 := by
  unfold chooseRestart
  split <;> exact ⟨rfl, rfl, rfl⟩

/-- The way of the restart is not part of the shape. -/
theorem chooseRestart_shape (t : Tracee) : (chooseRestart t).shape = t.shape := by
  unfold chooseRestart
  split <;> rfl

/-- Nor is it that an exit is expected. -/
theorem expectSysexit_shape (t : Tracee) : (expectSysexit t).shape = t.shape := by
  unfold expectSysexit
  split
  · rfl
  · split <;> rfl

/-- Looking a tracee up without creating it finds a listed one, or the one given. -/
theorem getTracee_find (current : Option Ref) (pid : ℤ) (w : World) :
    ∃ found, getTracee s current pid false w = (.ok found, w) ∧
      ∀ q, found = some q → (w.heap q).pid = pid ∧ (current = some q ∨ q ∈ w.tracees) := by
  unfold getTracee
  rw [bind_apply_ok (read_apply w)]
  cases hcurrent : current.filter fun r => (w.heap r).pid = pid with
  | some a =>
    obtain ⟨hsome, hpid⟩ := Option.filter_eq_some_iff.mp hcurrent
    refine ⟨some a, rfl, fun q hq => ?_⟩
    obtain rfl : a = q := Option.some.inj hq
    exact ⟨by simpa using hpid, Or.inl hsome⟩
  | none =>
    cases hfind : w.tracees.find? fun r => (w.heap r).pid = pid with
    | some a =>
      refine ⟨some a, rfl, fun q hq => ?_⟩
      obtain rfl : a = q := Option.some.inj hq
      exact ⟨by simpa using List.find?_some hfind, Or.inr (List.mem_of_find?_eq_some hfind)⟩
    | none => exact ⟨none, rfl, nofun⟩

/-- An update that only depends on the shape keeps the equality of shapes. -/
theorem shape_update {w w' : World} (h : w'.shape = w.shape) {f : Tracee → Tracee}
    (hf : ∀ t, (f t).shape = (f t.shape).shape) : (w'.update r f).shape = (w.update r f).shape := by
  obtain ⟨hheap, hnext, htracees⟩ := shape_eq_iff.mp h
  refine shape_eq_iff.mpr ⟨fun q => ?_, hnext, htracees⟩
  rw [World.update_heap, World.update_heap]
  split
  · rw [hf, hheap r, ← hf]
  · exact hheap q

section Requests

/-- A ptracer that is not waiting in the kernel any more, attached to or not yet. -/
theorem attach_hush_shape {w w' : World} {p : Ref} {f : Tracee → Tracee}
    (hf : ∀ t, (f t).shape = { t.shape with sigstop := .ignored })
    (hw' : w'.shape = (w.attach r p).shape) :
    (w'.update p f).shape =
      ((w.update p fun t => { t with sigstop := .ignored }).attach r p).shape := by
  rw [shape_update hw' fun t => by rw [hf, hf]; rfl]
  refine shape_eq_iff.mpr ⟨fun q => ?_, rfl, rfl⟩
  rw [World.update_heap, attach_heap, attach_heap, attach_heap, World.update_heap]
  by_cases hq : q = p
  · subst hq
    rw [if_pos rfl, hf]
    simp [Tracee.shape]
  · simp [hq]

/-- A child that gets its parent as its ptracer. -/
def Declared (r p : Ref) (P : World → Prop) (w : World) : Prop :=
  ∃ w₁, P w₁ ∧ (w₁.heap r).asPtracee.ptracer = none ∧ (w₁.heap r).parent = some p ∧
    w.shape = (w₁.attach r p).shape ∧ w.marks = w₁.marks

variable {asks : Ref → Prop} (hS : Stable asks r P)
include hS

/-- The ptracer that waits in the kernel is stopped. -/
theorem Stable.hush_keeps {p : Ref} (hne : p ≠ r) (pid : ℤ) : Keeps (Declared r p P) E (do
    let reply ← ask s (.kill pid Abyss.sigstop)
    when (0 ≤ reply.status) do
      update p fun t =>
        { t with sigstop := .ignored
                 asPtracer := { t.asPtracer with waitsIn := .waitsInProot } }) := by
  refine Keeps.bind ?_ fun reply => Keeps.when fun _ => ?_
  · intro w hw
    exact Triple.of_ok (ask_apply s _ w) hw
  · refine Keeps.modify ?_
    rintro w ⟨w₁, hw₁, hfree, hparent, hshape, hmarks⟩
    have hheap : (w₁.update p fun t => { t with sigstop := .ignored }).heap r = w₁.heap r := by
      rw [World.update_heap, if_neg hne.symm]
    refine ⟨_, hS.change _ _ hw₁ (.hush (p := p)), hheap ▸ hfree, hheap ▸ hparent, ?_, hmarks⟩
    exact attach_hush_shape (fun _ => rfl) hshape

/-- A tracee that declares itself a ptracee. -/
theorem Stable.tracemeRequest_keeps (hE : Ordinary E) : Keeps P E (tracemeRequest s r) := by
  refine Triple.tracee_bind fun t => ?_
  refine Triple.ite (fun _ => Triple.pure fun w hw => hw.1) fun hfree => ?_
  push Not at hfree
  rintro w ⟨hw, rfl⟩
  cases hparent : (w.heap r).parent with
  | none =>
    refine ⟨fun a w' heq => ?_, fun e w' heq => ?_⟩
    · cases heq
    · obtain ⟨⟨rfl⟩, -⟩ := Prod.mk.inj heq
      exact hE _ _ (by decide) (by decide)
  | some p =>
    have hne : p ≠ r := fun h => hfree.2 (by rw [hparent, h])
    have hstart : Declared r p P (w.attach r p) := ⟨w, hw, hfree.1, hparent, rfl, rfl⟩
    dsimp only
    rw [bind_apply_ok (attachToPtracer_apply w r p)]
    rw [bind_apply_ok (show deref (some p) _ = (.ok p, _) from rfl)]
    refine Triple.bind (M := fun _ => Declared r p P) (tracee_keeps p) (fun t => ?_) _ hstart
    refine Triple.bind (Keeps.when fun _ => hS.hush_keeps hne _) fun _ => ?_
    refine Triple.bind (M := fun _ => P) (Triple.modify ?_) fun _ => Keeps.pure 0
    rintro w' ⟨w₁, hw₁, hfree, hparent, hshape, hmarks⟩
    have hdeclared := hS.change _ _ hw₁ (.traceme hfree hparent hne)
    exact hS.change _ _ hdeclared (.still (shape_update hshape fun _ => rfl) hmarks)

variable {w₀ : World} (hasks : ∀ q, q ≠ r → AttachesTo s r w₀ q → asks q)
include hasks

/-- A tracee that attaches to another one. -/
theorem Stable.attachRequest_keeps {pid : ℤ}
    (hpid : ∀ q, (w₀.heap q).pid = pid → AttachesTo s r w₀ q) :
    Triple (fun w => P w ∧ Frozen r w₀ w) (attachRequest s r pid) (fun _ => P) E := by
  rintro w ⟨hw, hfrozen⟩
  obtain ⟨found, hget, hfound⟩ := getTracee_find (s := s) (some r) pid w
  unfold attachRequest
  rw [bind_apply_ok hget]
  cases found with
  | none => exact Triple.of_ok (a := -esrch) rfl hw
  | some q =>
    obtain ⟨hqpid, hlisted⟩ := hfound q rfl
    dsimp only
    rw [bind_apply_ok (tracee_apply q w)]
    refine Triple.ite (P := fun w' => w' = w) (fun _ => Triple.pure ?_) (fun hfree => ?_) w rfl
    · intro w' hw'
      exact hw' ▸ hw
    · push Not at hfree
      obtain ⟨hfree, hne⟩ := hfree
      have hmem : q ∈ w.tracees := hlisted.resolve_left fun heq => hne (Option.some.inj heq).symm
      have hask : asks q := hasks q hne (hpid q (hfrozen.others q hne ▸ hqpid))
      intro w' hw'
      rw [hw', bind_apply_ok (attachToPtracer_apply w q r)]
      refine (Keeps.bind (hS.ask_keeps rfl) fun _ => Keeps.pure 0) _ ?_
      exact hS.change _ _ hw (.attach hask hmem hfree hne)

end Requests

section Resume

variable {asks : Ref → Prop} (hS : Stable asks r P) (hE : Ordinary E)
  {handle : Ref → ℤ → Prog ℤ} {T : Ref → Prop}
  (hT : ∀ w q, P w → q ∈ w.tracees → (w.heap q).asPtracee.ptracer = some r → T q)
  (hhandle : ∀ q status, T q → Triple
    (fun w => P w ∧ q ∈ w.tracees ∧ (w.heap q).asPtracee.proot = ⟨status, true⟩)
    (handle q status) (fun _ => P) E)

section Ptracee

variable {q : Ref}

include hS hhandle in
/-- A ptracee is resumed, after what is left of its event was handled. -/
theorem Stable.resumePtracee_keeps (hq : T q) (forcedSignal status : ℤ) :
    Triple (fun w => P w ∧ q ∈ w.tracees) (resumePtracee s handle q forcedSignal status)
      (fun _ => P) E := by
  refine Triple.tracee_bind fun t => ?_
  refine Triple.bind (M := fun _ => P) ?_ fun signal => ?_
  · refine Triple.ite (fun hpending => ?_) fun _ => Triple.pure fun w hw => hw.1.1
    refine (hhandle q _ hq).conseq ?_ (fun _ _ h => h) fun _ _ h => h
    rintro w ⟨⟨hw, hlisted⟩, rfl⟩
    exact ⟨hw, hlisted, by rw [← hpending]⟩
  · exact Keeps.bind (hS.restart_keeps q _) fun _ => Keeps.pure status

include hS hE hT hhandle

/-- A request about a ptracee. -/
theorem Stable.ptraceeRequest_keeps (request : ℕ) (pid : ℤ) (address data : ℕ) :
    Triple (fun w => P w ∧ q ∈ w.tracees ∧ (w.heap q).asPtracee.ptracer = some r)
      (ptraceeRequest s handle r q request pid address data) (fun _ => P) E := by
  intro w hw
  have hq : T q := hT w q hw.1 hw.2.1 hw.2.2
  revert w
  have hresume : ∀ {f : Tracee → Tracee} (forcedSignal : ℤ), (∀ t, (f t).shape = t.shape) →
      Triple (fun w => P w ∧ q ∈ w.tracees ∧ (w.heap q).asPtracee.ptracer = some r)
        (do
          update q f
          resumePtracee s handle q forcedSignal 0) (fun _ => P) E := by
    intro f forcedSignal hf
    refine Triple.bind (M := fun _ w => P w ∧ q ∈ w.tracees) (Triple.modify fun w hw => ?_)
      fun _ => hS.resumePtracee_keeps hhandle hq forcedSignal 0
    exact ⟨hS.change _ _ hw.1 (.still (w.update_shape q hf) rfl), hw.2.1⟩
  refine Triple.ite (fun _ => hresume _ fun _ => rfl) fun _ => ?_
  refine Triple.ite (fun _ => hresume _ fun _ => rfl) fun _ => ?_
  refine Triple.ite (fun _ => hresume _ fun _ => rfl) fun _ => ?_
  refine Triple.ite (fun _ => hresume _ fun _ => rfl) fun _ => ?_
  refine Triple.ite (fun _ => ?_) fun _ => Triple.ite (fun _ => ?_) fun _ => ?_
  · refine Triple.bind (M := fun _ w => P w ∧ q ∈ w.tracees) ?_ fun _ =>
      hS.resumePtracee_keeps hhandle hq _ 0
    rintro w ⟨hw, hlisted, hptracer⟩
    obtain ⟨gone, hlinked⟩ := hS.linked w hw
    refine Triple.of_ok
      (detachFromPtracer_apply hptracer (hlinked.nbPtracees_pos hptracer)) ?_
    exact ⟨hS.change _ _ hw (.detach hlisted hptracer), hlisted⟩
  · refine Triple.bind (M := fun _ w => P w ∧ q ∈ w.tracees) ?_ fun reply =>
      hS.resumePtracee_keeps hhandle hq _ _
    rintro w ⟨hw, hlisted, -⟩
    exact Triple.of_ok (ask_apply s _ w) ⟨hS.change _ _ hw (.still rfl rfl), hlisted⟩
  · refine Triple.conseq ?_ (fun w hw => hw.1) (fun _ _ h => h) fun _ _ h => h
    refine Keeps.ite (fun _ => Keeps.ite (fun _ => Keeps.pure _) fun _ => ?_) fun _ => ?_
    · exact Keeps.bind (hS.update_keeps fun _ => rfl) fun _ => Keeps.pure 0
    · exact hS.quiet_keeps (q := r) (F := fun e => e ≠ .noPtracees ∧ e ≠ .outOfFuel)
        (passiveRequest_quiet s (by decide) r request pid address data) fun e w h _ => hE e w h.1 h.2

end Ptracee

include hS hE in
/-- The wait of a ptracer is emulated. -/
theorem Stable.translateWaitExit_keeps : Keeps P E (translateWaitExit s handle r) := by
  refine Keeps.bind (tracee_keeps r) fun t => ?_
  refine Keeps.bind (assert_keeps (fun w _ => hE _ w (by decide) (by decide)) _) fun _ => ?_
  refine Keeps.bind (hS.update_keeps fun _ => rfl) fun _ => ?_
  refine Keeps.bind (hS.silent_keeps (q := r) (peek_quiet s r _ _)) fun pid => ?_
  refine Keeps.bind (hS.silent_keeps (q := r) (peek_quiet s r _ _)) fun options => ?_
  refine Triple.read_bind fun w hw => ?_
  cases hfound : getStoppedPtracee w r (toInt pid) true options with
  | none =>
    refine Triple.conseq (P := P) ?_ (fun w' hw' => hw' ▸ hw) (fun _ _ h => h) fun _ _ h => h
    refine Keeps.ite (fun _ => Keeps.pure _) fun _ => Keeps.ite (fun _ => Keeps.pure _) fun _ => ?_
    refine Keeps.bind (Keeps.modify fun w hw => ?_) fun _ => Keeps.pure _
    exact hS.report _ _ hw (.wait fun _ => rfl)
  | some q =>
    refine Triple.bind (M := fun _ => P) ?_ fun status => Keeps.pure _
    refine Triple.conseq (hS.updateWaitStatus_keeps hE) (fun w' hw' => ?_) (fun _ _ h => h)
      fun _ _ h => h
    exact hw' ▸ ⟨hw, (getPtracee_waited hfound).imp_left And.left⟩

include hS hE in

/-- The result of an emulated wait keeps what is stable. -/
theorem Stable.translateEmulatedWait_keeps :
    Keeps P E (translateEmulatedWait s handle r) := by
  refine Keeps.bind (tracee_keeps r) fun t => Keeps.when fun _ => ?_
  refine Keeps.bind (hS.translateWaitExit_keeps hE) fun _ => Keeps.when fun _ => ?_
  exact hS.silent_keeps (poke_quiet s r _ _)

include hS hE in

/-- So does the next chained syscall. -/
theorem Stable.chainNextSyscall_keeps : Keeps P E (chainNextSyscall s r) := by
  refine Keeps.bind (tracee_keeps r) fun t => ?_
  split
  · exact Keeps.fault fun w _ => hE _ w (by decide) (by decide)
  · exact Keeps.fault fun w _ => hE _ w (by decide) (by decide)
  · refine Keeps.bind (hS.update_keeps fun _ => rfl) fun _ => ?_
    refine Keeps.bind (Keeps.when fun _ => hS.silent_keeps (poke_quiet s r _ _)) fun _ => ?_
    exact hS.update_keeps fun _ => rfl
  · have hpoke : ∀ reg value, Keeps P E (poke s r reg value) := fun reg value =>
      hS.silent_keeps (poke_quiet s r reg value)
    refine Keeps.bind (hS.update_keeps fun _ => rfl) fun _ => ?_
    refine Keeps.bind (hpoke _ _) fun _ => Keeps.bind (hpoke _ _) fun _ => ?_
    refine Keeps.bind (hpoke _ _) fun _ => Keeps.bind (hpoke _ _) fun _ => ?_
    refine Keeps.bind (hpoke _ _) fun _ => Keeps.bind (hpoke _ _) fun _ => ?_
    refine Keeps.bind (hS.silent_keeps (pokeSysnum_quiet s r _)) fun _ => ?_
    exact hS.update_keeps fun _ => rfl

variable {w₀ : World} (hasks : ∀ q, q ≠ r → AttachesTo s r w₀ q → asks q)
  (hentered : (w₀.heap r).status ≠ 0)
include hS hE hT hhandle hasks

/-- A ptrace syscall is emulated. -/
theorem Stable.translatePtraceExit_keeps
    (hsysnum : getSysnum s.target ((w₀.heap r).mode s.target) (w₀.heap r).regs .original = .ptrace)
    (hstatus : 0 < (w₀.heap r).status) :
    Triple (fun w => P w ∧ Frozen r w₀ w) (translatePtraceExit s handle r) (fun _ => P)
      E := by
  rintro w ⟨hw, hfrozen⟩
  rw [translatePtraceExit_apply]
  split
  · exact hS.tracemeRequest_keeps hE w hw
  split
  · rename_i hrequest
    refine hS.attachRequest_keeps hasks (fun q hq => ?_) w ⟨hw, hfrozen⟩
    exact ⟨hstatus, hsysnum, hfrozen.request.symm.trans hrequest, hq.trans (by rw [hfrozen.pidWord])⟩
  · cases hfound : getStoppedPtracee w r (toInt (ptracePidWord s r w)) false (2 ^ 30) with
    | none => exact Keeps.pure _ w hw
    | some q =>
      dsimp only
      split
      · exact Keeps.pure _ w hw
      · rename_i hchecked
        push Not at hchecked
        obtain ⟨hzombie, hptracer, -⟩ := hchecked
        refine hS.ptraceeRequest_keeps hE hT hhandle _ _ _ _ w ⟨hw, ?_, hptracer⟩
        obtain ⟨gone, hlinked⟩ := hS.linked w hw
        rcases getPtracee_waited hfound with ⟨hlisted, -⟩ | hmem
        · exact hlisted
        · exact absurd (hlinked.zombie r q hmem).2.2.1 hzombie

include hentered

/-- The results of a syscall are translated. -/
theorem Stable.translateSyscallExit_keeps :
    Triple (fun w => P w ∧ Frozen r w₀ w) (translateSyscallExit s handle r) (fun _ => P)
      E := by
  have hpoke : ∀ value, Keeps P E (poke s r .sysargResult value) := fun value =>
    hS.silent_keeps (poke_quiet s r _ value)
  have hkept : ∀ {x : Prog Unit}, Keeps P E x →
      Triple (fun w => P w ∧ Frozen r w₀ w) x (fun _ => P) E := fun hx =>
    hx.conseq (fun _ hw => hw.1) (fun _ _ h => h) fun _ _ h => h
  refine Triple.tracee_bind fun t => Triple.ite (fun _ => ?_) fun hok => ?_
  · exact (hkept (hpoke _)).conseq (fun _ hw => hw.1) (fun _ _ h => h) fun _ _ h => h
  refine Triple.bind (M := fun sysnum w => (P w ∧ Frozen r w₀ w) ∧ 0 < (w₀.heap r).status ∧
    getSysnum s.target ((w₀.heap r).mode s.target) (w₀.heap r).regs .original = sysnum) ?_
    fun sysnum => ?_
  · rintro w ⟨⟨hw, hfrozen⟩, rfl⟩
    refine Triple.of_ok (a := getSysnum s.target ((w.heap r).mode s.target) (w.heap r).regs .original)
      rfl ⟨⟨hw, hfrozen⟩, ?_, hfrozen.sysnum.symm⟩
    have hsame := hfrozen.status
    omega
  split
  · refine Triple.conseq (hkept ?_) (fun _ hw => hw.1) (fun _ _ h => h) fun _ _ h => h
    exact hS.quiet_keeps (translateExecveExit_quiet s
      (E := fun e => e ≠ .noPtracees ∧ e ≠ .outOfFuel) (by decide) r)
      fun e w h _ => hE e w h.1 h.2
  · rintro w ⟨hw, hstatus, hsysnum⟩
    refine Triple.bind (P := fun w => P w ∧ Frozen r w₀ w) (M := fun _ => P) ?_
      (fun status => hpoke _) w hw
    exact hS.translatePtraceExit_keeps hE hT hhandle hasks hsysnum hstatus
  · exact Triple.conseq (hkept (hS.translateEmulatedWait_keeps hE)) (fun _ hw => hw.1) (fun _ _ h => h)
      fun _ _ h => h
  · exact Triple.conseq (hkept (hS.translateEmulatedWait_keeps hE)) (fun _ hw => hw.1) (fun _ _ h => h)
      fun _ _ h => h
  · exact Triple.pure fun _ hw => hw.1.1

variable (hs : ∀ w, P w → (w.heap r).settled)
include hs

/-- The exit stage. -/
theorem Stable.exitStage_keeps :
    Triple (fun w => P w ∧ Frozen r w₀ w) (exitStage s handle r) (fun _ => P) E := by
  refine Triple.bind (M := fun _ w => P w ∧ Frozen r w₀ w) (Keeps.modify fun w hw => ?_) fun _ => ?_
  · exact ⟨hS.change _ _ hw.1 (.mark nofun), hw.2.log _⟩
  refine Triple.bind (M := fun _ w => P w ∧ Frozen r w₀ w) (Keeps.modify fun w hw => ?_) fun _ => ?_
  · exact ⟨hS.change _ _ hw.1 (.still (w.update_shape r fun _ => rfl) rfl),
      hw.2.update fun _ => ⟨rfl, rfl, rfl⟩⟩
  refine Triple.bind (M := fun _ w => P w ∧ Frozen r w₀ w) (fun w hw => ?_) fun _ => ?_
  · refine Triple.of_ok (callOnSysexit_apply s r w) ?_
    unfold afterSysexit
    split
    · refine ⟨hS.change _ _ (hS.change _ _ hw.1 (.mark fun q => ?_))
        (.still (World.update_shape _ r fun _ => rfl) rfl), ?_⟩
      · simp [sysexitCall]
      · exact (hw.2.log _).update fun t => ⟨(pokeAll_frame _ _ _).1, rfl, rfl⟩
    · exact hw
  refine Triple.bind (M := fun _ w => P w ∧ Frozen r w₀ w) (tracee_keeps r) fun t => ?_
  refine Triple.bind (M := fun _ => P) ?_ fun _ => ?_
  · exact Triple.ite (fun _ => hS.translateSyscallExit_keeps hE hT hhandle hasks hentered)
      fun _ => Triple.pure fun w hw => hw.1
  refine Keeps.bind (status_keeps hS.solo hs 0) fun _ => Keeps.bind (tracee_keeps r) fun t => ?_
  exact Keeps.when fun _ => hS.chainNextSyscall_keeps hE

end Resume

/-! ## Stops -/

section Stops

variable {asks : Ref → Prop} (hS : Stable asks r P) (hE : Ordinary E)
  {handle : Ref → ℤ → Prog ℤ} {T : Ref → Prop}
  (hT : ∀ w q, P w → q ∈ w.tracees → (w.heap q).asPtracee.ptracer = some r → T q)
  (hhandle : ∀ q status, T q → Triple
    (fun w => P w ∧ q ∈ w.tracees ∧ (w.heap q).asPtracee.proot = ⟨status, true⟩)
    (handle q status) (fun _ => P) E)
  {w₀ : World} (hasks : ∀ q, q ≠ r → AttachesTo s r w₀ q → asks q)
include hS hE hT hhandle hasks

/-- A stage of a syscall. -/
theorem Stable.translateSyscall_keeps (hs : ∀ w, P w → (w.heap r).settled) :
    Triple (fun w => P w ∧ Frozen r w₀ w) (translateSyscall s handle r) (fun _ => P) E := by
  refine Triple.tracee_bind fun t => ?_
  refine Triple.bind (M := fun _ w => (P w ∧ Frozen r w₀ w) ∧ (w.heap r).status = t.status) ?_
    fun fetched => ?_
  · rintro w ⟨⟨hw, hfrozen⟩, rfl⟩
    have hask : P (w.log (.getRegs (w.heap r).pid)) := hS.change _ _ hw (.still rfl rfl)
    unfold fetchRegs
    rw [bind_apply_ok (tracee_apply r w), bind_apply_ok (ask_apply ..)]
    split
    · exact Triple.of_ok (pure_apply _ _) ⟨⟨hask, hfrozen.log _⟩, rfl⟩
    · refine Triple.of_ok (a := 0) rfl ⟨⟨?_, (hfrozen.log _).update fun _ => ⟨rfl, rfl, rfl⟩⟩, ?_⟩
      · exact hS.change _ _ hask (.still (World.update_shape _ r fun _ => rfl) rfl)
      · rw [World.update_self]
        rfl
  have hmark : Keeps P E (mark (.unreadable r)) := hS.mark_keeps nofun
  refine Triple.ite (fun _ => hmark.conseq (fun _ hw => hw.1.1) (fun _ _ h => h) fun _ _ h => h)
    fun _ => ?_
  refine Triple.bind (M := fun _ => P) (Triple.ite (fun _ => ?_) fun hexit => ?_) fun _ => ?_
  · exact (enterStage_keeps hS.solo hs).conseq (fun _ hw => hw.1.1) (fun _ _ h => h) fun _ _ h => h
  · rintro w ⟨hw, hstatus⟩
    have hentered : (w₀.heap r).status ≠ 0 := by
      rw [← hw.2.status, hstatus]
      simpa [Tracee.isInSysenter] using hexit
    exact hS.exitStage_keeps hE hT hhandle hasks hentered hs w hw
  · exact Keeps.bind (hS.silent_keeps (pushRegs_quiet s r)) fun _ => Keeps.pure ()

/-- The stop at a syscall of a settled tracee. -/
theorem Stable.handleSyscallStop_keeps (hs : ∀ w, P w → (w.heap r).settled) :
    Triple (fun w => P w ∧ Frozen r w₀ w) (handleSyscallStop s handle r) (fun _ => P) E := by
  refine Triple.tracee_bind fun t => Triple.ite (fun hdisabling => ?_) fun _ => ?_
  · refine Triple.modify ?_
    rintro w ⟨⟨hw, -⟩, rfl⟩
    exact hS.change _ _ hw (.solo (.own ((hs w hw).disabled hdisabling)))
  · refine Triple.bind (M := fun _ w => P w ∧ Frozen r w₀ w) (Triple.modify ?_) fun _ => ?_
    · rintro w ⟨⟨hw, hkept⟩, -⟩
      exact ⟨hS.change _ _ hw (.still (w.update_shape r expectSysexit_shape) rfl),
        hkept.update expectSysexit_frozen⟩
    · refine Triple.bind (hS.translateSyscall_keeps hE hT hhandle hasks hs) fun _ => ?_
      exact own_keeps hS.solo fun w _ => Own.disabled (w.heap r)

/-- The stop at a filtered syscall of a settled tracee. -/
theorem Stable.handleSeccompStop_keeps (hs : ∀ w, P w → (w.heap r).settled) :
    Triple (fun w => P w ∧ Frozen r w₀ w) (handleSeccompStop s handle r) (fun _ => P) E := by
  refine Triple.bind (M := fun _ w => P w ∧ Frozen r w₀ w) (Triple.modify fun w hw => ?_) fun _ => ?_
  · exact ⟨hS.change _ _ hw.1 (.solo .detect), hw.2.update detectSeccomp_frozen⟩
  refine Triple.bind (M := fun _ w => P w ∧ Frozen r w₀ w) (tracee_keeps r) fun t => ?_
  refine Triple.ite (fun _ => Triple.pure fun w hw => hw.1) fun _ => ?_
  refine Triple.bind (M := fun _ w => P w ∧ Frozen r w₀ w) (fun w hw => ?_) fun reply => ?_
  · exact Triple.of_ok (ask_apply s _ w) ⟨hS.change _ _ hw.1 (.still rfl rfl), hw.2.log _⟩
  refine Triple.ite (fun _ => ?_) fun _ => Triple.ite (fun _ => ?_) fun _ => ?_
  · exact Triple.modify fun w hw => hS.change _ _ hw.1 (.mark nofun)
  · refine Triple.bind (M := fun _ w => P w ∧ Frozen r w₀ w) (Triple.modify fun w hw => ?_)
      fun _ => ?_
    · exact ⟨hS.change _ _ hw.1 (.still (w.update_shape r fun _ => rfl) rfl),
        hw.2.update fun _ => ⟨rfl, rfl, rfl⟩⟩
    · refine Triple.bind (hS.translateSyscall_keeps hE hT hhandle hasks hs) fun _ => ?_
      refine own_keeps hS.solo fun w hw => Own.of_shape ?_
      split <;> rfl
  · exact hS.handleSyscallStop_keeps hE hT hhandle hasks hs

end Stops

/-! ## New children -/

section Children

variable {asks : Ref → Prop} (hS : Stable asks r P) {handle : Ref → ℤ → Prog ℤ}
include hS

/-- A tracee that is looked up or created is listed. -/
theorem Stable.getTracee_keeps (pid : ℤ) : Triple P (getTracee s (some r) pid true)
    (fun found w => P w ∧ ∀ q, found = some q → q ∈ w.tracees) E := by
  intro w hw
  obtain ⟨found, hget, hfound⟩ := getTracee_find (s := s) (some r) pid w
  have hlisted : ∀ q, found = some q → q ∈ w.tracees := by
    intro q hq
    rcases (hfound q hq).2 with hr | hmem
    · exact Option.some.inj hr ▸ hS.listed w hw
    · exact hmem
  unfold getTracee at hget ⊢
  rw [bind_apply_ok (read_apply w)] at hget ⊢
  cases hcurrent : (some r).filter fun r => (w.heap r).pid = pid with
  | some a =>
    rw [hcurrent] at hget
    exact Triple.of_ok hget ⟨hw, hlisted⟩
  | none =>
    rw [hcurrent] at hget
    cases hfind : w.tracees.find? fun r => (w.heap r).pid = pid with
    | some a =>
      simp only [hfind] at hget ⊢
      exact Triple.of_ok hget ⟨hw, hlisted⟩
    | none =>
      simp only [if_true]
      have hask : P (w.log .alloc) := hS.change _ _ hw (.still rfl rfl)
      rcases newTracee_cases s pid w with hnew | hnew
      · exact Triple.of_ok hnew ⟨hask, nofun⟩
      · refine Triple.of_ok hnew ⟨hS.change _ _ hask .create, fun q hq => ?_⟩
        obtain rfl : w.next = q := Option.some.inj hq
        exact List.mem_cons_self

/-- A new child is attached to the ptracer of its parent. -/
theorem Stable.inheritPtracer_keeps {child : Ref} {p : Tracee} (cloneFlags : ℕ) :
    Triple (fun w => P w ∧ child ∈ w.tracees ∧ (w.heap child).asPtracee.ptracer = none ∧
      (w.heap r).asPtracee.ptracer = p.asPtracee.ptracer ∧
      (w.heap child).seccomp = (w.heap r).seccomp)
      (inheritPtracer child p cloneFlags) (fun _ => P) E := by
  unfold inheritPtracer
  split
  · exact Triple.pure fun _ hw => hw.1
  · rename_i ptracer hptracer
    refine Triple.ite (fun _ => ?_) fun _ => Triple.pure fun _ hw => hw.1
    rintro w ⟨hw, hlisted, hfree, hsame, hseccomp⟩
    rw [bind_apply_ok (attachToPtracer_apply w child ptracer)]
    have hinherited : P (w.attach child ptracer) :=
      hS.change _ _ hw (.inherit hlisted hfree (hsame.trans hptracer) hseccomp)
    refine Keeps.modify (fun w' hw' => ?_) _ hinherited
    exact hS.change _ _ hw' (.still (w'.update_shape child fun _ => rfl) rfl)

/-- No child is kept stopped until its parent's event. -/
theorem Stable.releasePendingChild_keeps (child : Ref) :
    Keeps P E (releasePendingChild s handle child) := by
  refine Triple.tracee_bind fun t => ?_
  rintro w ⟨hw, rfl⟩
  obtain ⟨gone, hlinked⟩ := hS.linked w hw
  unfold when
  rw [if_neg (hlinked.sigstop child)]
  exact Keeps.pure () w hw

/-- A child inherits from its parent. -/
theorem Stable.newChild_keeps (hE : Ordinary E) (cloneFlags : ℕ) :
    Keeps P E (newChild s handle r cloneFlags) := by
  refine Keeps.bind (hS.silent_keeps (actualCloneFlags_quiet s r cloneFlags)) fun flags => ?_
  refine Keeps.bind (tracee_keeps r) fun p => Keeps.bind (hS.ask_keeps rfl) fun reply => ?_
  refine Keeps.ite (fun _ => Keeps.pure _) fun _ => ?_
  refine Triple.bind (hS.getTracee_keeps (toInt reply.value)) fun found => ?_
  cases found with
  | none => exact Triple.pure fun _ hw => hw.1
  | some child =>
    refine Triple.tracee_bind fun c => ?_
    refine Triple.bind (M := fun _ w => P w ∧ child ∈ w.tracees ∧
      (w.heap child).parent = none ∧ (w.heap child).asPtracee.ptracer = none) ?_ fun _ => ?_
    · refine Triple.ite (fun hfree => Triple.pure ?_) fun _ =>
        Triple.fault fun w _ => hE _ w (by decide) (by decide)
      rintro w ⟨⟨hw, hlisted⟩, rfl⟩
      simp only [Bool.and_eq_true, decide_eq_true_eq] at hfree
      exact ⟨hw, hlisted child rfl, hfree.1.2, hfree.2⟩
    refine Triple.tracee_bind fun p => ?_
    refine Triple.bind (M := fun _ w => P w ∧ child ∈ w.tracees ∧
      (w.heap child).asPtracee.ptracer = none ∧
      (w.heap r).asPtracee.ptracer = p.asPtracee.ptracer ∧
      (w.heap child).seccomp = (w.heap r).seccomp) (Triple.modify ?_) fun _ => ?_
    · rintro w ⟨⟨hw, hlisted, hparent, hfree⟩, rfl⟩
      refine ⟨hS.change _ _ hw (.adopt hlisted hparent hfree), hlisted, ?_, ?_, ?_⟩
      · rw [World.update_self]
        exact hfree
      · rw [World.update_heap]
        split
        · rename_i heq
          rw [heq]
          rfl
        · rfl
      · rw [World.update_self, World.update_heap]
        split
        · rfl
        · rfl
    refine Triple.bind (hS.inheritPtracer_keeps flags) fun _ => ?_
    exact Keeps.bind (hS.releasePendingChild_keeps child) fun _ => Keeps.pure 0

end Children

/-! ## Handling a status -/

/-- The calls that are no marks leave the marks as they are. -/
theorem World.log_marks (w : World) {c : Call} (h : c.isMark = false) :
    (w.log c).marks = w.marks := by
  simp [World.marks, h]

/-- Setting the options of a root and detecting the acceleration settles it, unless that fails. -/
theorem settle_cases (w : World) :
    (∃ w', (do setRootOptions s r; update r detectSeccomp) w = (.error .exit, w')) ∨
      ∃ (past : List Call) (supported : Bool), past.filter Call.isMark = w.marks ∧
        (do setRootOptions s r; update r detectSeccomp) w =
          (.ok (), { w with calls := past }.update r (settle supported)) := by
  let c : Call := .setOptions (w.heap r).pid (defaultPtraceOptions ||| ptraceOSeccomp)
  have hroot : setRootOptions s r w =
      (if (s.host (c :: w.calls)).status < 0 then do
          update r fun t => { t with seccompEnabled := false }
          let reply ← ask s (.setOptions (w.heap r).pid defaultPtraceOptions)
          when (reply.status < 0) (fault .exit)
        else update r fun t => { t with seccompEnabled := true })
        ((w.update r fun t => { t with deliverSigtrap := true }).log c) := by
    unfold setRootOptions
    rw [bind_apply_ok (update_apply ..), bind_apply_ok (tracee_apply ..), World.update_self,
      bind_apply_ok (ask_apply ..)]
    rfl
  by_cases hfail : (s.host (c :: w.calls)).status < 0
  · rw [if_pos hfail, bind_apply_ok (update_apply ..), bind_apply_ok (ask_apply ..)] at hroot
    unfold when at hroot
    split at hroot
    · exact Or.inl ⟨_, bind_apply_error hroot⟩
    · refine Or.inr ⟨.setOptions (w.heap r).pid defaultPtraceOptions :: c :: w.calls, false, rfl, ?_⟩
      rw [bind_apply_ok hroot, update_apply, World.log_update, World.log_update, World.log_update,
        World.update_update, World.update_update]
      rfl
  · rw [if_neg hfail] at hroot
    refine Or.inr ⟨c :: w.calls, true, rfl, ?_⟩
    rw [bind_apply_ok (hroot.trans (update_apply ..)), update_apply, World.log_update,
      World.update_update, World.log_update, World.update_update]
    rfl

section Status

variable {asks : Ref → Prop} (hS : Stable asks r P) (hE : Ordinary E)
  {handle : Ref → ℤ → Prog ℤ} {T : Ref → Prop}
  (hT : ∀ w q, P w → q ∈ w.tracees → (w.heap q).asPtracee.ptracer = some r → T q)
  (hhandle : ∀ q status, T q → Triple
    (fun w => P w ∧ q ∈ w.tracees ∧ (w.heap q).asPtracee.proot = ⟨status, true⟩)
    (handle q status) (fun _ => P) E)
  (hsettled : ∀ q status, T q → Triple
    (fun w => (P w ∧ (w.heap r).settled) ∧ q ∈ w.tracees ∧
      (w.heap q).asPtracee.proot = ⟨status, true⟩)
    (handle q status) (fun _ w => P w ∧ (w.heap r).settled) E)
  {w₀ : World} (hasks : ∀ q, q ≠ r → AttachesTo s r w₀ q → asks q)
include hS hE hT hhandle hasks

include hsettled

omit hhandle in
/-- The options of a root are set at its first trap, and it is at a syscall. -/
theorem Stable.firstTrap_keeps :
    Triple (fun w => (P w ∧ Frozen r w₀ w) ∧ (w.heap r).isRoot = true ∧
      (w.heap r).deliverSigtrap = false) (do
        setRootOptions s r
        update r detectSeccomp
        handleSyscallStop s handle r) (fun _ => P) E := by
  have hS' : Stable asks r fun w => P w ∧ (w.heap r).settled :=
    .of_change (fun w w' hw h => ⟨hS.change w w' hw.1 h, h.settled hw.2⟩)
      (fun w hw => hS.linked w hw.1) fun w hw => hS.listed w hw.1
  rw [← bind_assoc]
  refine Triple.bind (M := fun _ w => (P w ∧ (w.heap r).settled) ∧ Frozen r w₀ w) ?_ fun _ => ?_
  · rintro w ⟨⟨hw, hfrozen⟩, hroot, hdeliver⟩
    rcases settle_cases (s := s) (r := r) w with ⟨w', hexit⟩ | ⟨past, supported, hmarks, hsettle⟩
    · refine ⟨fun a w'' heq => ?_, fun e w'' heq => ?_⟩
      · rw [hexit] at heq
        cases heq
      · rw [hexit] at heq
        obtain ⟨⟨rfl⟩, -⟩ := Prod.mk.inj heq
        exact hE _ _ (by decide) (by decide)
    · have hasked : P { w with calls := past } := hS.change _ _ hw (.still rfl hmarks)
      have hkept : Frozen r w₀ { w with calls := past } :=
        ⟨hfrozen.original, hfrozen.status, hfrozen.isAarch32, hfrozen.others, hfrozen.tracees⟩
      refine Triple.of_ok hsettle ⟨⟨?_, ?_⟩, hkept.update fun t => ?_⟩
      · exact hS.change _ _ hasked (.solo (.settle hroot hdeliver))
      · rw [World.update_self]
        exact settle_settled _ _
      · exact detectSeccomp_frozen _
  · exact (hS'.handleSyscallStop_keeps hE (fun w q hw => hT w q hw.1) hsettled hasks
      fun _ hw => hw.2).conseq (fun _ hw => hw) (fun _ _ hw => hw.1) fun _ _ h => h

/-- A stop is handled. -/
theorem Stable.handleStop_keeps {signal : ℤ}
    (hfits : stopKind signal = .syscall ∨ stopKind signal = .seccomp →
      ∀ w, P w → (w.heap r).settled) :
    Triple (fun w => P w ∧ Frozen r w₀ w) (handleStop s handle r signal) (fun _ => P)
      E := by
  have hkept : ∀ {α : Type} {x : Prog α}, Keeps P E x →
      Triple (fun w => P w ∧ Frozen r w₀ w) x (fun _ => P) E := fun hx =>
    hx.conseq (fun _ hw => hw.1) (fun _ _ h => h) fun _ _ h => h
  unfold handleStop
  split
  · refine Triple.tracee_bind fun t => Triple.ite (fun _ => Triple.pure fun _ hw => hw.1.1)
      fun hfirst => ?_
    simp only [Bool.or_eq_true, Bool.not_eq_true', not_or, Bool.not_eq_false,
      Bool.not_eq_true] at hfirst
    rw [firstTrap_bind]
    refine Triple.bind (M := fun _ => P) ?_ fun _ => Keeps.pure 0
    refine (hS.firstTrap_keeps hE hT hsettled hasks).conseq ?_ (fun _ _ h => h) fun _ _ h => h
    rintro w ⟨hw, rfl⟩
    exact ⟨hw, hfirst⟩
  · rename_i hkind
    exact Triple.bind (hS.handleSeccompStop_keeps hE hT hhandle hasks (hfits (Or.inr hkind)))
      fun _ => Keeps.pure 0
  · rename_i hkind
    exact Triple.bind (hS.handleSyscallStop_keeps hE hT hhandle hasks (hfits (Or.inl hkind)))
      fun _ => Keeps.pure 0
  · exact hkept (Keeps.bind (hS.newChild_keeps hE _) fun _ => Keeps.pure 0)
  · exact hkept (Keeps.bind (hS.newChild_keeps hE _) fun _ => Keeps.pure 0)
  · exact hkept (Keeps.bind (hS.newChild_keeps hE _) fun _ => Keeps.pure 0)
  · exact hkept (Keeps.pure 0)
  · exact hkept (Keeps.pure 0)
  · exact hkept (Keeps.pure 0)
  · refine hkept (Keeps.bind (tracee_keeps r) fun t => Keeps.ite (fun _ => ?_) fun _ => Keeps.pure _)
    exact Keeps.bind (own_keeps hS.solo fun w _ => Own.allowed _) fun _ => Keeps.pure 0
  · exact hkept (Keeps.pure _)

/-- A status is handled. -/
theorem Stable.handleStatus_keeps {status : ℤ} (hfits : wifstopped status = true →
    stopKind (stopSignal status) = .syscall ∨ stopKind (stopSignal status) = .seccomp →
      ∀ w, P w → (w.heap r).settled) :
    Triple (fun w => P w ∧ Frozen r w₀ w) (handleStatus s handle r status) (fun _ => P)
      E := by
  have hterminate : Keeps P E (terminateTracee s r) := by
    refine Keeps.bind (Keeps.modify fun w hw => hS.change _ _ hw .terminate) fun _ => ?_
    refine Keeps.bind (tracee_keeps r) fun t => Keeps.when fun _ => ?_
    exact hS.silent_keeps (q := r) (killAllTracees_quiet s)
  have hkept : ∀ {x : Prog ℤ}, Keeps P E x →
      Triple (fun w => P w ∧ Frozen r w₀ w) x (fun _ => P) E := fun hx =>
    hx.conseq (fun _ hw => hw.1) (fun _ _ h => h) fun _ _ h => h
  refine Triple.ite (fun _ => hkept ?_) fun hexited => Triple.ite (fun _ => hkept ?_) fun hkilled => ?_
  · refine Keeps.bind (Keeps.modify fun w hw => hS.change _ _ hw (.still rfl rfl)) fun _ => ?_
    exact Keeps.bind hterminate fun _ => Keeps.pure 0
  · exact Keeps.bind hterminate fun _ => Keeps.pure 0
  · refine hS.handleStop_keeps hE hT hhandle hsettled hasks (hfits ?_)
    simpa [wifsignaled, hexited] using hkilled

end Status

end Abyss
