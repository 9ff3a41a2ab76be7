import Abyss.Ptrace.Removal

/-!
# One round of the event loop

A round frees what has ended, finds the tracee that a wait status is about, passes the event to
its ptracer and handles it, unless the tracee is kept stopped for the ptracer. An invariant that
survives each of these parts survives the round, and so it holds in every state of a run.
-/

namespace Abyss

open Machine

variable {s : Setup} {I : World → Prop} {gone : Option Ref} {busy : Set Ref} {r : Ref}
  {status : ℤ} {w w' : World}

/-! ## Between the handling of two events -/

/-- A change of the event that a tracee is put off with. -/
def Defers (f : Tracee → Tracee) : Prop := ∀ t, ∃ proot,
  (f t).shape = { t.shape with asPtracee := { t.shape.asPtracee with proot := proot } }

/-- The record of a process that was attached as a root. -/
def Tracee.root (pid : ℤ) (t : Tracee) : Tracee :=
  { t with pid := pid, isRoot := true, deliverSigtrap := false }

/-- An invariant that survives a round, except for the removal of tracees. -/
structure Lasting (I : World → Prop) : Prop where
  survives : Survives I
  still : ∀ {w w'}, w'.shape = w.shape → w'.marks = w.marks → I w → I w'
  defers : ∀ {w r f}, Defers f → I w → I (w.update r f)
  create : ∀ {w} pid, Linked none w → I w → I (w.create pid)
  rooted : ∀ {w r} pid, Linked none w → r ∈ w.tracees → (w.heap r).pid = 0 → I w →
    I (w.update r (Tracee.root pid))

/-- A busy tracee whose deferred event is calm, or dealt with, need not be busy. -/
theorem Orderly.idle (h : Orderly gone {r} w)
    (hcalm : (w.heap r).asPtracee.proot.pending = true →
      Calm (w.heap r) (w.heap r).asPtracee.proot.value) : Orderly gone ∅ w := by
  refine ⟨h.linked, h.fresh, h.fits, fun q hq _ hpending => ?_, h.unborn⟩
  by_cases hqr : q = r
  · subst hqr
    exact hcalm hpending
  · exact h.calm q hq hqr hpending

/-- A report to a ptracer keeps the world orderly. -/
theorem Orderly.report (h : Orderly gone busy w) (hc : Report w w') : Orderly gone busy w' :=
  h.of_kept (h.linked.report hc) fun q hq =>
    ⟨(hc.kept q).1 ▸ hq, (hc.kept q).2⟩

section Defers

variable {f : Tracee → Tracee}

/-- A field that does not depend on what is deferred. -/
theorem Defers.field (hf : Defers f) (t : Tracee) {α : Type} (g : Tracee → α)
    (hproot : ∀ t proot, g { t.shape with asPtracee := { t.shape.asPtracee with proot := proot } } =
      g t) (hg : ∀ t, g t.shape = g t) : g (f t) = g t := by
  obtain ⟨proot, hshape⟩ := hf t
  rw [← hg, hshape, hproot]

/-- A world stays orderly when the event of a tracee is set, and the tracee is busy with it. -/
theorem Orderly.defer (h : Orderly gone busy w) (hr : Born r w) (hf : Defers f)
    (hfits : Fits (w.heap r) (f (w.heap r)).asPtracee.proot.value) :
    Orderly gone (insert r busy) (w.update r f) := by
  have hfield : ∀ {α : Type} (g : Tracee → α), (∀ t proot, g { t.shape with
      asPtracee := { t.shape.asPtracee with proot := proot } } = g t) → (∀ t, g t.shape = g t) →
      g (f (w.heap r)) = g (w.heap r) := fun g hproot hg => hf.field (w.heap r) g hproot hg
  have hroot := hfield Tracee.isRoot (fun _ _ => rfl) fun _ => rfl
  have hdeliver := hfield Tracee.deliverSigtrap (fun _ _ => rfl) fun _ => rfl
  have hother : ∀ q, q ≠ r → (w.update r f).heap q = w.heap q := fun q hq => by
    rw [World.update_heap, if_neg hq]
  refine ⟨h.linked.update (hfield Tracee.links (fun _ _ => rfl) fun _ => rfl) (fun p hp => ?_) ?_,
    fun q hq => ?_, fun q hq hpending => ?_, fun q hq hidle => ?_, fun q hq hpid => ?_⟩
  · exact h.linked.parent_lt r p
      ((hfield Tracee.parent (fun _ _ => rfl) fun _ => rfl).symm.trans hp)
  · exact (hfield Tracee.sigstop (fun _ _ => rfl) fun _ => rfl).trans_ne (h.linked.sigstop r)
  · by_cases hqr : q = r
    · rw [hqr, World.update_self]
      unfold Tracee.fresh
      rw [hroot, hdeliver, hfield Tracee.status (fun _ _ => rfl) fun _ => rfl]
      exact h.fresh r hr.1
    · exact hother q hqr ▸ h.fresh q hq
  · by_cases hqr : q = r
    · rw [hqr, World.update_self]
      intro hstopped hkind
      unfold Tracee.settled
      rw [hroot, hdeliver]
      exact hfits hstopped hkind
    · rw [hother q hqr] at hpending ⊢
      exact h.fits q hq hpending
  · rw [Set.mem_insert_iff, not_or] at hidle
    rw [hother q hidle.1]
    exact h.calm q hq hidle.2
  · by_cases hqr : q = r
    · rw [hqr, World.update_self, hfield Tracee.pid (fun _ _ => rfl) fun _ => rfl] at hpid
      exact absurd hpid hr.2
    · rw [hother q hqr] at hpid ⊢
      exact h.unborn q hq hpid

end Defers

/-! ## Telling the ptracer about an event -/

/-- What holds while a tracee is dealt with. -/
def Dealt (I : World → Prop) (r : Ref) (status : ℤ) (busy : Set Ref) (w : World) : Prop :=
  (Orderly none busy w ∧ I w) ∧ Born r w ∧ Fits (w.heap r) status

/-- A handler of the events of a tracee, and an invariant that survives it and what is done
around it. -/
structure Deals (I : World → Prop) (r : Ref) (status : ℤ) (handle : Ref → ℤ → Prog ℤ)
    (E : Fault → World → Prop) : Prop where
  ordinary : Ordinary E
  report : ∀ {w w'}, Linked none w → Born r w → I w → Report w w' → I w'
  defers : ∀ {w f}, Defers f → I w → I (w.update r f)
  handles : Triple (Dealt I r status {r}) (handle r status)
    (fun _ w => Dealt I r status ∅ w ∧ (w.heap r).asPtracee.proot.pending = false) E

variable {handle : Ref → ℤ → Prog ℤ} {E : Fault → World → Prop}

/-- The handler of events, and an invariant that survives a round. -/
theorem Lasting.deals (hI : Lasting I) (fuel : ℕ) (r : Ref) (status : ℤ) :
    Deals I r status (handleTraceeEvent s fuel) Counted := by
  refine ⟨Ordinary.counted, fun {w w'} hlinked hborn hw hc => ?_, hI.defers, ?_⟩
  · exact hI.survives r w w' hborn.1 ⟨none, hlinked⟩ hw (.report hc)
  · have hborn : Survives fun w => I w ∧ Born r w ∧ Fits (w.heap r) status :=
      hI.survives.and ((born_survives r).and (fits_survives r status))
    refine (handleTraceeEvent_keeps s none fuel hborn ∅ r status).conseq ?_ ?_ fun _ _ h => h
    · rintro w ⟨⟨horderly, hw⟩, hrest⟩
      exact ⟨⟨horderly.mono fun q hq => Or.inl hq, hw, hrest⟩, hrest⟩
    · exact fun _ w ⟨⟨horderly, hw, hrest⟩, hdone⟩ => ⟨⟨⟨horderly, hw⟩, hrest⟩, hdone⟩

/-- A report keeps what is dealt with. -/
theorem Deals.reported (hD : Deals I r status handle E) (h : Dealt I r status busy w)
    (hc : Report w w') : Dealt I r status busy w' := by
  obtain ⟨⟨horderly, hw⟩, hborn, hfits⟩ := h
  have hchange : Change (fun _ => True) r w w' := .report hc
  refine ⟨⟨horderly.report hc, hD.report horderly.linked hborn hw hc⟩, ?_, ?_⟩
  · exact born_survives r r w w' hborn.1 ⟨none, horderly.linked⟩ hborn hchange
  · exact fun hstopped hkind => hc.settled (hfits hstopped hkind)

/-- So does telling a ptracer. -/
theorem Deals.telling (hD : Deals I r status handle E) : Telling (Dealt I r status busy) :=
  ⟨fun _ _ hw hc => hD.reported hw hc, fun _ hw => ⟨none, hw.1.1.linked⟩⟩

/-- A ptracer is notified, and woken if it waits for the ptracee. -/
theorem Telling.notifyPtracer_keeps {P : World → Prop} (hS : Telling P) (hE : Ordinary E)
    {p q : Ref} (hlisted : ∀ w, P w → q ∈ w.tracees)
    (handledFirst keepStopped : Bool) :
    Triple P (notifyPtracer s handle p q handledFirst keepStopped)
      (fun keep w => P w ∧ (keep = true → keepStopped = true)) E := by
  refine Triple.bind (M := fun _ => P) (tracee_keeps p) fun t => ?_
  refine Triple.bind (M := fun _ => P) (hS.ask_keeps rfl) fun _ => ?_
  refine Triple.bind (M := fun _ => P) (tracee_keeps q) fun t' => ?_
  refine Triple.ite (fun _ => ?_) fun _ => Triple.pure fun _ hw => ⟨hw, id⟩
  refine Triple.bind (M := fun _ => P) ((hS.updateWaitStatus_keeps hE).conseq
    (fun w hw => ⟨hw, Or.inl (hlisted w hw)⟩) (fun _ _ hw => hw) fun _ _ h => h) fun status => ?_
  refine Triple.bind (M := fun _ => P) (Keeps.when fun _ => hS.silent_keeps (poke_quiet s p _ _))
    fun _ => ?_
  refine Triple.bind (M := fun _ => P) (hS.silent_keeps (pushRegs_quiet s p)) fun _ => ?_
  refine Triple.bind (M := fun _ => P) (Keeps.modify fun w hw =>
    hS.report w _ hw (Report.wait fun _ => rfl)) fun _ => ?_
  refine Triple.bind (M := fun _ => P) (hS.mark_keeps nofun) fun _ => ?_
  refine Triple.bind (M := fun _ => P) (hS.restart_keeps p 0) fun restarted => ?_
  exact Triple.pure fun _ hw => ⟨hw, fun hkeep => (Bool.and_eq_true_iff.mp hkeep).1⟩

/-- An event that is passed on before it is handled is calm. -/
theorem filterEvent_calm {t t' : Tracee} {event passed : ℤ} (hstopped : wifstopped event = true)
    (h : filterEvent t event = some (passed, false)) (hstatus : t'.status = t.status) :
    Calm t' event := by
  unfold filterEvent at h
  have hoption : ∀ option : ℕ, (if t.asPtracee.options &&& option = 0 then none
      else some (event, true)) = some (passed, false) → False := by
    intro option h
    split at h
    · cases h
    · cases h
  refine ⟨hstopped, fun hmem => ?_, fun hkind => ?_⟩
  · simp only [List.mem_cons, List.not_mem_nil, or_false] at hmem
    rcases hmem with hkind | hkind | hkind | hkind
    all_goals rw [hkind] at h
    · cases h
    · exact hoption _ h
    · exact hoption _ h
    · exact hoption _ h
  · rw [hkind] at h
    dsimp only at h
    split at h
    · cases h
    · have hentry : t.isInSysenter = true := by
        simpa using (Prod.mk.inj (Option.some.inj h)).2
      rw [hstatus]
      simpa [Tracee.isInSysenter] using hentry

section Event

variable (hD : Deals I r status handle E)
include hD

/-- An event that is handled before the ptracer knows it is not deferred any more. -/
theorem Deals.handleFirst_keeps : Triple (Dealt I r status {r}) (handleFirst handle r status)
    (fun _ => Dealt I r status ∅) E := by
  refine Triple.bind hD.handles fun signal => ?_
  refine Triple.bind (M := fun _ => Dealt I r status ∅) (Triple.modify ?_) fun _ => ?_
  · rintro w ⟨⟨⟨horderly, hw⟩, hborn, hfits⟩, hdone⟩
    let f : Tracee → Tracee := fun t => { t with asPtracee := { t.asPtracee with
      proot := { t.asPtracee.proot with value := signal } } }
    have hkept : ∀ q, Kept (w.heap q) ((w.update r f).heap q) :=
      update_kept w ⟨rfl, rfl, rfl, rfl, Or.inr hdone⟩
    refine ⟨⟨horderly.of_kept ?_ fun q hq => ⟨hq, hkept q⟩, hD.defers (fun t => ⟨_, rfl⟩) hw⟩,
      ⟨hborn.1, (hkept r).pid.trans_ne hborn.2⟩,
      fun hstopped hkind => (hkept r).settled (hfits hstopped hkind)⟩
    exact horderly.linked.update rfl (fun p hp => horderly.linked.parent_lt r p hp)
      (horderly.linked.sigstop r)
  · exact assert_keeps (fun w _ => hD.ordinary _ w (by decide) (by decide)) _

/-- An event is passed to the ptracer; a ptracee that is kept stopped is not busy. -/
theorem Deals.handlePtraceeEvent_keeps :
    Triple (Dealt I r status ∅) (handlePtraceeEvent s handle r status)
      (fun keep => Dealt I r status (if keep then ∅ else {r})) E := by
  refine Triple.tracee_bind fun t => ?_
  cases t.asPtracee.ptracer with
  | none => exact Triple.fault fun w _ => hD.ordinary _ w (by decide) (by decide)
  | some p =>
    -- The event is deferred until it turns out to be calm, or is handled.
    let Put : World → Prop := fun w => Dealt I r status {r} w ∧ (w.heap r).status = t.status ∧
      (w.heap r).asPtracee.proot = ⟨status, true⟩
    have hput : ∀ {f : Tracee → Tracee}, (∀ t, (f t).shape = t.shape) →
        Keeps Put E (update r f) := by
      intro f hf
      refine Keeps.modify fun w ⟨hdealt, hstatus, hproot⟩ => ?_
      have hshape := w.update_shape r hf
      refine ⟨hD.reported hdealt (.still hshape rfl), ?_, ?_⟩
      · exact (shape_field hshape r Tracee.status fun _ => rfl).trans hstatus
      · exact (shape_field hshape r (fun t => t.asPtracee.proot) fun _ => rfl).trans hproot
    refine Triple.bind (M := fun _ => Put) (Triple.modify ?_) fun _ => ?_
    · rintro w ⟨⟨⟨horderly, hw⟩, hborn, hfits⟩, rfl⟩
      let f : Tracee → Tracee := fun t =>
        { t with asPtracee := { t.asPtracee with proot := ⟨status, true⟩ } }
      have hf : Defers f := fun t => ⟨_, rfl⟩
      have hbusy := horderly.defer hborn hf hfits
      rw [insert_empty_eq] at hbusy
      refine ⟨⟨⟨hbusy, hD.defers hf hw⟩, ⟨hborn.1, ?_⟩, ?_⟩, ?_, ?_⟩
      · rw [World.update_self]
        exact hborn.2
      · rw [World.update_self]
        exact hfits
      · rw [World.update_self]
      · rw [World.update_self]
    cases hfilter : (if wifstopped status then filterEvent t status else some (status, false)) with
    | none => exact Triple.pure fun w hw => hw.1
    | some result =>
      obtain ⟨passed, handledFirst⟩ := result
      refine Triple.bind (M := fun _ => Put) (hput fun _ => rfl) fun _ => ?_
      refine Triple.ite (fun _ => Triple.pure fun w hw => hw.1) fun _ => ?_
      refine Triple.bind
        (M := fun _ => Dealt I r status (if wifstopped status then ∅ else {r})) ?_ fun _ => ?_
      · refine Triple.ite (fun hfirst => ?_) fun hlater => Triple.pure ?_
        · refine hD.handleFirst_keeps.conseq (fun _ hw => hw.1) (fun _ w hw => ?_)
            fun _ _ h => h
          exact ⟨⟨hw.1.1.mono (Set.empty_subset _), hw.1.2⟩, hw.2⟩
        · rintro w ⟨⟨⟨horderly, hw⟩, hrest⟩, hstatus, hproot⟩
          split
          · rename_i hstopped
            rw [if_pos hstopped] at hfilter
            refine ⟨⟨horderly.idle fun _ => ?_, hw⟩, hrest⟩
            rw [hproot]
            have hfirst : handledFirst = false := by simpa using hlater
            exact filterEvent_calm hstopped (hfirst ▸ hfilter) hstatus
          · exact ⟨⟨horderly, hw⟩, hrest⟩
      · refine Triple.bind (M := fun _ => Dealt I r status (if wifstopped status then ∅ else {r}))
          (hD.telling.update_keeps fun _ => rfl) fun _ => ?_
        refine (hD.telling.notifyPtracer_keeps hD.ordinary (fun w hw => hw.2.1.1) handledFirst
          (wifstopped status)).conseq (fun _ hw => hw) ?_ fun _ _ h => h
        rintro keep w ⟨⟨⟨horderly, hw⟩, hrest⟩, hkeep⟩
        refine ⟨⟨?_, hw⟩, hrest⟩
        cases keep with
        | false => exact horderly.mono (by split <;> simp)
        | true =>
          rw [if_pos (hkeep rfl)] at horderly
          exact horderly

omit hD in
/-- A status is dealt with. -/
theorem Deals.dispatch_keeps {fuel : ℕ} (hD : Deals I r status (handleTraceeEvent s fuel) E) :
    Triple (Dealt I r status ∅) (dispatch s fuel r status) (fun _ w => Orderly none ∅ w ∧ I w) E := by
  refine Triple.bind (M := fun _ => Dealt I r status ∅) (hD.telling.update_keeps fun _ => rfl)
    fun _ => ?_
  refine Triple.bind (M := fun _ => Dealt I r status ∅) (hD.telling.mark_keeps nofun) fun _ => ?_
  refine Triple.bind (M := fun _ => Dealt I r status ∅) (tracee_keeps r) fun t => ?_
  refine Triple.bind (M := fun keep => Dealt I r status (if keep = true then ∅ else {r})) ?_
    fun keep => ?_
  · refine Triple.ite (fun _ => Triple.pure fun w hw => ?_) fun _ => hD.handlePtraceeEvent_keeps
    exact ⟨⟨hw.1.1.mono (Set.empty_subset _), hw.1.2⟩, hw.2⟩
  · cases keep with
    | true => exact Triple.pure fun w hw => hw.1
    | false =>
      refine Triple.bind (M := fun _ => Dealt I r status ∅) (hD.handles.conseq (fun _ hw => hw)
        (fun _ _ hw => hw.1) fun _ _ h => h) fun signal => ?_
      exact Triple.bind (hD.telling.restart_keeps r signal) fun _ => Triple.pure fun w hw => hw.1

end Event

/-! ## A whole round -/

/-- What the host may report: a process, and its syscalls only when the options are set that ask
for them. -/
def Input.possible (w : World) : Input → Prop
  | .stop pid status => pid ≠ 0 ∧ ∀ r ∈ w.tracees, (w.heap r).pid = pid → Fits (w.heap r) status
  | .traceNewPid _ => True

/-- An event that fits a tracee still does after the removal of others. -/
theorem Fits.outlives (pid status : ℤ) : Outlives fun t => t.pid = pid → Fits t status where
  own h ht hpid hstopped hkind hroot := by
    rw [h.deliverSigtrap]
    exact ht (h.pid.symm.trans hpid) hstopped hkind (h.isRoot.symm.trans hroot)
  detect ht hpid hstopped hkind := by
    refine detectSeccomp_settled (ht ?_ hstopped hkind)
    rw [← hpid]
    unfold detectSeccomp
    split <;> rfl
  settle _ _ _ _ _ _ _ := settle_settled _ _
  orphan ht := ht
  free ht := ht
  reset ht := ht
  tracer _ ht := ht

/-- A new root has not entered a syscall. -/
theorem Orderly.root (h : Orderly gone busy w) (hr : r ∈ w.tracees) (hpid : (w.heap r).pid = 0)
    (pid : ℤ) : Orderly gone busy (w.update r (Tracee.root pid)) := by
  obtain ⟨hstatus, hidle⟩ := h.unborn r hr hpid
  have hother : ∀ q, q ≠ r → (w.update r (Tracee.root pid)).heap q = w.heap q := fun q hq => by
    rw [World.update_heap, if_neg hq]
  have hdone : ((w.update r (Tracee.root pid)).heap r).asPtracee.proot.pending = false := by
    rw [World.update_self]
    exact hidle
  refine ⟨h.linked.update rfl (fun p hp => h.linked.parent_lt r p hp) (h.linked.sigstop r),
    fun q hq => ?_, fun q hq hpending => ?_, fun q hq hnot hpending => ?_, fun q hq hzero => ?_⟩
  · by_cases hqr : q = r
    · rw [hqr, World.update_self]
      exact fun _ => Or.inr hstatus
    · exact hother q hqr ▸ h.fresh q hq
  · by_cases hqr : q = r
    · rw [hqr, hdone] at hpending
      cases hpending
    · rw [hother q hqr] at hpending ⊢
      exact h.fits q hq hpending
  · by_cases hqr : q = r
    · rw [hqr, hdone] at hpending
      cases hpending
    · rw [hother q hqr] at hpending ⊢
      exact h.calm q hq hnot hpending
  · by_cases hqr : q = r
    · rw [hqr, World.update_self]
      exact ⟨hstatus, hidle⟩
    · rw [hother q hqr] at hzero ⊢
      exact h.unborn q hq hzero

/-- A new record is orderly. -/
theorem Orderly.create (h : Orderly gone busy w) (pid : ℤ) : Orderly gone busy (w.create pid) := by
  have hold : ∀ q ∈ (w.create pid).tracees, q ≠ w.next →
      q ∈ w.tracees ∧ (w.create pid).heap q = w.heap q := fun q hq hne => by
    rw [create_heap, if_neg hne]
    exact ⟨(List.mem_cons.mp hq).resolve_left hne, rfl⟩
  have hnew : (w.create pid).heap w.next = { pid := pid, vpid := w.nextVpid } := by
    rw [create_heap, if_pos rfl]
  refine ⟨h.linked.create pid, fun q hq => ?_, fun q hq => ?_, fun q hq hidle => ?_,
    fun q hq => ?_⟩
  · by_cases hne : q = w.next
    · rw [hne, hnew]
      exact nofun
    · obtain ⟨hlisted, heq⟩ := hold q hq hne
      exact heq ▸ h.fresh q hlisted
  · by_cases hne : q = w.next
    · rw [hne, hnew]
      exact nofun
    · obtain ⟨hlisted, heq⟩ := hold q hq hne
      exact heq ▸ h.fits q hlisted
  · by_cases hne : q = w.next
    · rw [hne, hnew]
      exact nofun
    · obtain ⟨hlisted, heq⟩ := hold q hq hne
      exact heq ▸ h.calm q hlisted hidle
  · by_cases hne : q = w.next
    · rw [hne, hnew]
      exact fun _ => ⟨rfl, rfl⟩
    · obtain ⟨hlisted, heq⟩ := hold q hq hne
      exact heq ▸ h.unborn q hlisted

/-- An entry is found, or one is created if there is none. -/
theorem getTracee_cases (s : Setup) (pid : ℤ) (w : World) :
    (∃ r, getTracee s none pid true w = (.ok (some r), w) ∧ r ∈ w.tracees ∧ (w.heap r).pid = pid) ∨
      getTracee s none pid true w = (.ok none, w.log .alloc) ∨
      getTracee s none pid true w = (.ok (some w.next), (w.log .alloc).create pid) := by
  unfold getTracee
  rw [bind_apply_ok (read_apply w)]
  cases hfind : w.tracees.find? fun r => (w.heap r).pid = pid with
  | some r =>
    refine Or.inl ⟨r, rfl, List.mem_of_find?_eq_some hfind, ?_⟩
    simpa using List.find?_some hfind
  | none => exact Or.inr (newTracee_cases s pid w)

section Loop

variable (hI : Lasting I)
include hI

/-- A process is attached as a root. -/
theorem Lasting.attachNewRoot_keeps :
    Keeps (fun w => Orderly none ∅ w ∧ I w) E (attachNewRoot s) := by
  have hlog : ∀ {w : World} {c : Call}, c.isMark = false → Orderly none ∅ w ∧ I w →
      Orderly none ∅ (w.log c) ∧ I (w.log c) := fun {w c} hc hw =>
    ⟨hw.1.of_shape (w.log_shape c), hI.still (w.log_shape c) (w.log_marks hc) hw.2⟩
  have hroot : ∀ r pid, Triple
      (fun w => (Orderly none ∅ w ∧ I w) ∧ r ∈ w.tracees ∧ (w.heap r).pid = 0)
      (do
        update r fun t => { t with pid := pid, isRoot := true, deliverSigtrap := false }
        modify fun w => { w with snewAttachPid := -1 })
      (fun _ w => Orderly none ∅ w ∧ I w) E := by
    intro r pid
    refine Triple.bind (M := fun _ w => Orderly none ∅ w ∧ I w) (Triple.modify ?_) fun _ =>
      Triple.modify fun w hw => ⟨hw.1.of_shape rfl, hI.still (w := w) rfl rfl hw.2⟩
    exact fun w ⟨⟨horderly, hw⟩, hr, hpid⟩ =>
      ⟨horderly.root hr hpid pid, hI.rooted pid horderly.linked hr hpid hw⟩
  refine Triple.read_bind ?_
  rintro w hw v rfl
  rw [bind_apply_ok (ask_apply s _ v)]
  have hasked := hlog (c := .attach v.snewAttachPid) rfl hw
  split
  · exact Triple.of_ok (pure_apply () _) hasked
  · rcases getTracee_cases s 0 (v.log (.attach v.snewAttachPid)) with
      ⟨r, hrun, hr, hpid⟩ | hrun | hrun
    · rw [bind_apply_ok hrun]
      exact hroot r _ _ ⟨hasked, hr, hpid⟩
    · rw [bind_apply_ok hrun]
      exact Triple.of_ok (pure_apply () _) (hlog rfl hasked)
    · rw [bind_apply_ok hrun]
      have halloc := hlog (c := .alloc) rfl hasked
      refine hroot _ _ _ ⟨⟨halloc.1.create 0, hI.create 0 halloc.1.linked halloc.2⟩,
        List.mem_cons_self, ?_⟩
      rw [create_heap]
      exact congrArg Tracee.pid (if_pos rfl)

/-- A round keeps the world orderly, and what survives its parts. -/
theorem Lasting.eventLoop_keeps {C : ℤ → ℤ → World → Prop} {J : List Ref → World → Prop}
    (hstart : ∀ pid status w, I w → C pid status w → J w.tracees w)
    (hskip : ∀ r rest w, (w.heap r).terminated = false → J (r :: rest) w → J rest w)
    (hfree : ∀ r rest w v, Orderly none ∅ w → (r :: rest).Nodup → (∀ q ∈ r :: rest, q ∈ w.tracees) →
      (w.heap r).terminated = true → J (r :: rest) w → Orderly none ∅ v → Removed s r w v →
      J rest (v.log (.freed r)))
    (hend : ∀ w, Orderly none ∅ w → J [] w → I w) (fuel : ℕ) (i : Input) :
    Triple (fun w => (Orderly none ∅ w ∧ I w) ∧ i.possible w ∧
        ∀ pid status, i = .stop pid status → C pid status w)
      (eventLoop s fuel i) (fun _ w => Orderly none ∅ w ∧ I w) Counted := by
  cases i with
  | traceNewPid pid =>
    exact Triple.modify fun w hw => ⟨hw.1.1.of_shape rfl, hI.still (w := w) rfl rfl hw.1.2⟩
  | stop pid status =>
    let Fit : World → Prop := fun w => ∀ r ∈ w.tracees, (w.heap r).pid = pid → Fits (w.heap r) status
    refine Triple.bind (M := fun _ w => (Orderly none ∅ w ∧ I w) ∧ pid ≠ 0 ∧ Fit w) ?_ fun _ => ?_
    · intro w ⟨⟨horderly, hw⟩, ⟨hpid, hfit⟩, hc⟩
      refine (freeTerminatedTracees_rule (I := fun refs w => J refs w ∧ Fit w)
        (fun r rest w halive hJ => ⟨hskip r rest w halive hJ.1, hJ.2⟩) ?_).conseq
        (fun _ hw => hw) (fun _ w hw => ⟨⟨hw.1, hend w hw.1 hw.2.1⟩, hpid, hw.2.2⟩) ?_ w
        ⟨horderly, hstart pid status w hw (hc pid status rfl), hfit⟩
      · intro r rest w v horderly hnodup hlisted hdead ⟨hJ, hfit⟩ hv hremoved
        refine ⟨hfree r rest w v horderly hnodup hlisted hdead hJ hv hremoved, fun q hq => ?_⟩
        rw [World.log_tracees, hremoved.tracees] at hq
        obtain ⟨hne, hq⟩ := horderly.linked.nodup.mem_erase_iff.mp hq
        exact hremoved.record (horderly.linked.listed_lt q hq) hne (Fits.outlives pid status)
          (hfit q hq)
      · rintro e w (rfl | ⟨-, rfl⟩)
        · exact nofun
        · exact nofun
    · refine Triple.read_bind ?_
      rintro w ⟨hw, hpid, hfit⟩ v rfl
      obtain ⟨known, hknown, -⟩ := getTracee_find (s := s) none pid v
      rw [bind_apply_ok hknown]
      split
      · exact hI.attachNewRoot_keeps v hw
      · rcases getTracee_cases s pid v with ⟨r, hrun, hr, heq⟩ | hrun | hrun
        · rw [bind_apply_ok hrun]
          exact (hI.deals fuel r status).dispatch_keeps v ⟨hw, ⟨hr, heq ▸ hpid⟩, hfit r hr heq⟩
        · rw [bind_apply_ok hrun]
          exact (Triple.fault (P := fun _ => True) fun _ _ => nofun) _ trivial
        · rw [bind_apply_ok hrun]
          have halloc : Orderly none ∅ (v.log .alloc) ∧ I (v.log .alloc) :=
            ⟨hw.1.of_shape rfl, hI.still (v.log_shape .alloc) (v.log_marks rfl) hw.2⟩
          have hnew : ((v.log .alloc).create pid).heap v.next =
              { pid := pid, vpid := v.nextVpid } := (create_heap ..).trans (if_pos rfl)
          refine (hI.deals fuel _ status).dispatch_keeps _
            ⟨⟨halloc.1.create pid, hI.create pid halloc.1.linked halloc.2⟩,
              ⟨List.mem_cons_self, ?_⟩, ?_⟩
          · rw [hnew]
            exact hpid
          · rw [hnew]
            exact fun _ _ => nofun

end Loop

end Abyss
