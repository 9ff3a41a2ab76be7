import Abyss.Tracee.Handling

/-!
# Deferred events

An event of a ptracee may be put off until its ptracer restarts it. Such an event is never the exit
of a syscall, so handling it later reaches no other tracee, and the order in which the tracer sees
the others does not matter. This is what makes it safe to handle it in the middle of something
else, such as the removal of the ptracer.
-/

namespace Abyss

open Machine

variable {s : Setup} {r : Ref} {P : World → Prop} {E : Fault → World → Prop}

/-- An event that may be put off: a stop that is not the exit of a syscall, makes no child and
is not reported by the filter. -/
structure Calm (t : Tracee) (status : ℤ) : Prop where
  stopped : wifstopped status = true
  kind : stopKind (stopSignal status) ∉ [StopKind.seccomp, .vfork, .fork, .clone]
  entry : stopKind (stopSignal status) = .syscall → t.status = 0

/-- An event that the options of a tracee allow. -/
def Fits (t : Tracee) (status : ℤ) : Prop :=
  wifstopped status = true →
    stopKind (stopSignal status) = .syscall ∨ stopKind (stopSignal status) = .seccomp → t.settled

/-- A root without options has not entered a syscall. -/
def Tracee.fresh (t : Tracee) : Prop :=
  t.isRoot = true → t.deliverSigtrap = true ∨ t.status = 0

section Solo

variable (hP : ∀ w w', P w → Solo r w w' → P w') {handle : Ref → ℤ → Prog ℤ}
include hP

/-- A stage at the entry of a syscall. -/
theorem translateSyscall_enter_keeps (hs : ∀ w, P w → (w.heap r).settled) :
    Triple (fun w => P w ∧ (w.heap r).status = 0) (translateSyscall s handle r) (fun _ => P) E := by
  refine Triple.tracee_bind fun t => ?_
  intro w hw
  have hentry : t.isInSysenter = true := by
    rw [← hw.2]
    simpa [Tracee.isInSysenter] using hw.1.2
  refine (Keeps.bind (silent_keeps hP (fetchRegs_quiet s r)) fun fetched => ?_) w hw.1.1
  refine Keeps.ite (fun _ => stopMark_keeps hP rfl) fun _ => ?_
  rw [if_pos hentry]
  refine Keeps.bind (enterStage_keeps hP hs) fun _ => ?_
  exact Keeps.bind (silent_keeps hP (pushRegs_quiet s r)) fun _ => Keeps.pure ()

/-- The stop at the entry of a syscall. -/
theorem handleSyscallStop_enter_keeps (hs : ∀ w, P w → (w.heap r).settled) :
    Triple (fun w => P w ∧ (w.heap r).status = 0) (handleSyscallStop s handle r) (fun _ => P) E := by
  refine Triple.tracee_bind fun t => Triple.ite (fun hdisabling => ?_) fun _ => ?_
  · refine Triple.modify ?_
    rintro w ⟨⟨hw, -⟩, rfl⟩
    exact hP _ _ hw (.own ((hs w hw).disabled hdisabling))
  · refine Triple.bind (M := fun _ w => P w ∧ (w.heap r).status = 0) (Triple.modify ?_) fun _ => ?_
    · rintro w ⟨⟨hw, hstatus⟩, -⟩
      refine ⟨hP _ _ hw (.own (Own.of_shape (expectSysexit_shape _))), ?_⟩
      rw [World.update_self, (expectSysexit_frozen _).2.1]
      exact hstatus
    · refine Triple.bind (translateSyscall_enter_keeps hP hs) fun _ => ?_
      exact own_keeps hP fun w _ => Own.disabled (w.heap r)

/-- The first trap of a root that has not entered a syscall. -/
theorem firstTrap_enter_keeps (hE : ∀ w, E .exit w) :
    Triple (fun w => P w ∧ (w.heap r).status = 0 ∧ (w.heap r).isRoot = true ∧
      (w.heap r).deliverSigtrap = false) (do
        setRootOptions s r
        update r detectSeccomp
        handleSyscallStop s handle r) (fun _ => P) E := by
  have hP' : ∀ w w', P w ∧ (w.heap r).settled → Solo r w w' → P w' ∧ (w'.heap r).settled :=
    fun w w' hw h => ⟨hP w w' hw.1 h, h.settled hw.2⟩
  rw [← bind_assoc]
  refine Triple.bind (M := fun _ w => (P w ∧ (w.heap r).settled) ∧ (w.heap r).status = 0) ?_
    fun _ => ?_
  · rintro w ⟨hw, hstatus, hroot, hdeliver⟩
    rcases settle_cases (s := s) (r := r) w with ⟨w', hexit⟩ | ⟨past, supported, hmarks, hsettle⟩
    · refine ⟨fun a w'' heq => ?_, fun e w'' heq => ?_⟩
      · rw [hexit] at heq
        cases heq
      · rw [hexit] at heq
        obtain ⟨⟨rfl⟩, rfl⟩ := Prod.mk.inj heq
        exact hE _
    · have hasked : P { w with calls := past } := hP _ _ hw (.still rfl hmarks fun _ _ => rfl)
      refine Triple.of_ok hsettle ⟨⟨hP _ _ hasked (.settle hroot hdeliver), ?_⟩, ?_⟩
      · rw [World.update_self]
        exact settle_settled _ _
      · rw [World.update_self]
        exact (detectSeccomp_frozen _).2.1.trans hstatus
  · exact (handleSyscallStop_enter_keeps hP' fun _ hw => hw.2).conseq (fun _ hw => hw)
      (fun _ _ hw => hw.1) fun _ _ h => h

/-- A calm stop is handled within the record of its tracee; it gives a signal to restart it with. -/
theorem handleStop_calm {status : ℤ} (hE : ∀ w, E .exit w) (hfits : ∀ w, P w → Fits (w.heap r) status) :
    Triple (fun w => P w ∧ Calm (w.heap r) status ∧ (w.heap r).fresh)
      (handleStop s handle r (stopSignal status)) (fun signal w => P w ∧ 0 ≤ signal) E := by
  have hsignal : 0 ≤ stopSignal status := Int.emod_nonneg _ (by decide)
  have hkept : ∀ {signal : ℤ}, 0 ≤ signal →
      Triple (fun w => P w ∧ Calm (w.heap r) status ∧ (w.heap r).fresh)
        (pure signal : Prog ℤ) (fun signal w => P w ∧ 0 ≤ signal) E := fun h =>
    Triple.pure fun _ hw => ⟨hw.1, h⟩
  have habsurd : ∀ {x : Prog ℤ}, stopKind (stopSignal status) ∈
      [StopKind.seccomp, .vfork, .fork, .clone] →
      Triple (fun w => P w ∧ Calm (w.heap r) status ∧ (w.heap r).fresh) x
        (fun signal w => P w ∧ 0 ≤ signal) E := fun h _ hw => absurd h hw.2.1.kind
  unfold handleStop
  split
  · refine Triple.tracee_bind fun t => Triple.ite (fun _ => Triple.pure fun _ hw => ⟨hw.1.1, hsignal⟩)
      fun hfirst => ?_
    simp only [Bool.or_eq_true, Bool.not_eq_true', not_or, Bool.not_eq_false,
      Bool.not_eq_true] at hfirst
    rw [firstTrap_bind]
    refine Triple.bind (M := fun _ => P) ?_ fun _ => Triple.pure fun _ hw => ⟨hw, le_rfl⟩
    refine (firstTrap_enter_keeps hP hE).conseq ?_ (fun _ _ h => h) fun _ _ h => h
    rintro w ⟨⟨hw, -, hfresh⟩, rfl⟩
    exact ⟨hw, (hfresh hfirst.1).resolve_left (by simp [hfirst.2]), hfirst⟩
  · rename_i hkind
    exact habsurd (by simp [hkind])
  · rename_i hkind
    rintro w ⟨hw, hcalm, -⟩
    have hs : ∀ w, P w → (w.heap r).settled := fun w hw => hfits w hw hcalm.stopped (Or.inl hkind)
    refine Triple.bind (P := fun w => P w ∧ (w.heap r).status = 0) (M := fun _ => P)
      (handleSyscallStop_enter_keeps hP hs) (fun _ => ?_) w ⟨hw, hcalm.entry hkind⟩
    exact Triple.pure fun _ hw => ⟨hw, le_rfl⟩
  · rename_i hkind
    exact habsurd (by simp [hkind])
  · rename_i hkind
    exact habsurd (by simp [hkind])
  · rename_i hkind
    exact habsurd (by simp [hkind])
  · exact hkept le_rfl
  · exact hkept le_rfl
  · exact hkept le_rfl
  · refine Triple.bind (M := fun _ => P) ((tracee_keeps r).conseq (fun _ hw => hw.1)
      (fun _ _ h => h) fun _ _ h => h) fun t => ?_
    refine Triple.ite (fun _ => ?_) fun _ => Triple.pure fun _ hw => ⟨hw, hsignal⟩
    exact Triple.bind (own_keeps hP fun w _ => Own.allowed _) fun _ =>
      Triple.pure fun _ hw => ⟨hw, le_rfl⟩
  · exact hkept hsignal

/-- So is a calm status, and the event is not pending any more. -/
theorem handleTraceeEvent_calm {status : ℤ} (fuel : ℕ) (hE : ∀ w, E .exit w)
    (hfits : ∀ w, P w → Fits (w.heap r) status) :
    Triple (fun w => P w ∧ Calm (w.heap r) status ∧ (w.heap r).fresh)
      (handleTraceeEvent s (fuel + 1) r status)
      (fun signal w => P w ∧ 0 ≤ signal ∧ (w.heap r).asPtracee.proot.pending = false) E := by
  have hcalm : ∀ {t t' : Tracee}, t'.shape = t.shape → Calm t status ∧ t.fresh →
      Calm t' status ∧ t'.fresh := by
    intro t t' hshape ⟨⟨hstopped, hkind, hentry⟩, hfresh⟩
    have hstatus : t'.status = t.status := Tracee.of_shape hshape Tracee.status fun _ => rfl
    have hroot : t'.isRoot = t.isRoot := Tracee.of_shape hshape Tracee.isRoot fun _ => rfl
    have hdeliver : t'.deliverSigtrap = t.deliverSigtrap :=
      Tracee.of_shape hshape Tracee.deliverSigtrap fun _ => rfl
    refine ⟨⟨hstopped, hkind, hstatus.symm ▸ hentry⟩, ?_⟩
    unfold Tracee.fresh
    rw [hroot, hdeliver, hstatus]
    exact hfresh
  refine Triple.bind (M := fun _ w => P w ∧ Calm (w.heap r) status ∧ (w.heap r).fresh)
    (Triple.modify fun w hw => ⟨hP _ _ hw.1 (.mark rfl), hw.2⟩) fun _ => ?_
  refine Triple.bind (M := fun _ w => P w ∧ Calm (w.heap r) status ∧ (w.heap r).fresh)
    (Triple.modify fun w hw => ⟨hP _ _ hw.1 (.own (Own.of_shape (chooseRestart_shape _))), ?_⟩)
    fun _ => ?_
  · rw [World.update_self]
    exact hcalm (chooseRestart_shape _) hw.2
  refine Triple.bind (M := fun signal w => P w ∧ 0 ≤ signal) ?_ fun signal => ?_
  · rintro w ⟨hw, hcalm, hfresh⟩
    rw [handleStatus_stopped s hcalm.stopped]
    exact handleStop_calm hP hE hfits w ⟨hw, hcalm, hfresh⟩
  · refine Triple.bind (M := fun _ w => P w ∧ 0 ≤ signal ∧
      (w.heap r).asPtracee.proot.pending = false) (Triple.modify fun w hw => ?_)
      fun _ => Triple.pure fun _ hw => hw
    exact ⟨hP _ _ hw.1 (.own (Own.taken _)), hw.2, by rw [World.update_self]⟩

end Solo

end Abyss
