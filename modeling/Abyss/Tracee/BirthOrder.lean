import Abyss.Ptrace.Accounting
import Abyss.Tracee.ChildStops

/-!
# The order of the two events of a new process

What a new process becomes should not depend on which of its two events comes first, and none of
its syscalls should be translated before it has got everything from its parent. Both hold exactly
where it makes no stop at a syscall before the event of its parent, and gets no ptracer from it.
-/

namespace Abyss

open Machine

/-! ## Both orders -/

/-- What the record of a process says about its birth, if there is one. -/
def bornAs (pid : ℤ) (u : World) : Option Birth :=
  (u.tracees.find? fun r => (u.heap r).pid = pid).map fun r => (u.heap r).birth

/-- No stage of a syscall of a process has been handled since `w`. -/
def Untranslated (pid : ℤ) (w u : World) : Prop :=
  ∀ r ∈ u.tracees, (u.heap r).pid = pid → stagesOf r u.calls = stagesOf r w.calls

/-- The stops that the kernel may report of a process which has been restarted: it makes another
process in a syscall only, at which it has stopped before. -/
structure Reportable (stops : List ℤ) : Prop where
  stopped : ∀ stop ∈ stops, wifstopped stop = true
  entered : ∀ before stop after, stops = before ++ stop :: after →
    (stopKind (stopSignal stop)).cloneFlags ≠ none →
    ∃ entry ∈ before, stopKind (stopSignal entry) = .syscall

/-- The stops of a new process. -/
def childInputs (childPid : ℤ) (stops : List ℤ) : List Input :=
  (firstStop :: stops).map (.stop childPid)

/-- What should hold of a new process whichever of its two events comes first: no stage of its
syscalls is handled before the event of its parent, and it has become the same after both. -/
structure BornAlike (s : Setup) (fuel : ℕ) (childPid : ℤ) (stops : List ℤ)
    (w₀ w childFirst parentFirst : World) : Prop where
  untranslated : ∀ before u, before <+: stops →
    forEach (eventLoop s fuel) (childInputs childPid before) w₀ = (.ok (), u) →
    Untranslated childPid w u
  same : bornAs childPid childFirst = bornAs childPid parentFirst

section Orders

variable {s : Setup} {fuel : ℕ} {w₀ w u : World} {parent : Ref} {childPid : ℤ} {registers : Reply}
  {b : Birth} {stops : List ℤ}

/-- A child that is known is born with what is known of it. -/
theorem Known.bornAs (hu : Known childPid b w u) : bornAs childPid u = some b := by
  have hfind : (u.tracees.find? fun r => (u.heap r).pid = childPid) = some w.next := by
    rw [hu.tracees]
    exact List.find?_cons_of_pos (by simpa using hu.pid)
  rw [Abyss.bornAs, hfind, Option.map_some, hu.birth]

/-- A child that was started is born as one whose tracing has started. -/
theorem Started.bornAs (hu : Started childPid w u) :
    ∃ b, Abyss.bornAs childPid u = some b ∧ b.asPtracee.tracingStarted = true := by
  have hfind : (u.tracees.find? fun r => (u.heap r).pid = childPid) = some w.next := by
    rw [hu.tracees]
    exact List.find?_cons_of_pos (by simpa using hu.pid)
  refine ⟨(u.heap w.next).birth, ?_, hu.tracingStarted⟩
  rw [Abyss.bornAs, hfind, Option.map_some]

/-- Up to its first stop at a syscall, a process only makes calm stops. -/
theorem Reportable.split (h : Reportable stops)
    (hsyscall : ∃ stop ∈ stops, stopKind (stopSignal stop) = .syscall) :
    ∃ before stop after, stops = before ++ stop :: after ∧ stopKind (stopSignal stop) = .syscall ∧
      ∀ earlier ∈ before, (stopKind (stopSignal earlier)).calm := by
  obtain ⟨stop, hmem, hkind⟩ := hsyscall
  have hfound : (stops.find? fun stop => stopKind (stopSignal stop) = .syscall).isSome :=
    List.find?_isSome.mpr ⟨stop, hmem, by simpa using hkind⟩
  obtain ⟨entry, hentry⟩ := Option.isSome_iff_exists.mp hfound
  obtain ⟨hkind, before, after, hsplit, hbefore⟩ := List.find?_eq_some_iff_append.mp hentry
  have hno : ∀ earlier ∈ before, stopKind (stopSignal earlier) ≠ .syscall := fun earlier hmem => by
    simpa using hbefore earlier hmem
  refine ⟨before, entry, after, hsplit, by simpa using hkind, fun earlier hmem =>
    ⟨hno earlier hmem, ?_⟩⟩
  obtain ⟨init, rest, rfl⟩ := List.append_of_mem hmem
  by_contra hflags
  obtain ⟨call, hcall, hcallKind⟩ := h.entered init earlier (rest ++ entry :: after)
    (by rw [hsplit, List.append_assoc, List.cons_append]) hflags
  exact hno call (List.mem_append_left _ hcall) hcallKind

/-- Where there is no stop at a syscall, all stops are calm. -/
theorem Reportable.calm (h : Reportable stops)
    (hno : ∀ stop ∈ stops, stopKind (stopSignal stop) ≠ .syscall) :
    ∀ stop ∈ stops, (stopKind (stopSignal stop)).calm := by
  refine fun stop hmem => ⟨hno stop hmem, ?_⟩
  obtain ⟨init, rest, hsplit⟩ := List.append_of_mem hmem
  by_contra hflags
  obtain ⟨call, hcall, hcallKind⟩ := h.entered init stop rest hsplit hflags
  exact hno call (hsplit ▸ List.mem_append_left _ hcall) hcallKind

/-- The first round frees what has ended. -/
theorem eventLoop_freed {pid status : ℤ}
    (hfree : freeTerminatedTracees s (handleTraceeEvent s fuel) w₀ = (.ok (), w))
    (halive : ∀ r ∈ w.tracees, (w.heap r).terminated = false) :
    eventLoop s fuel (.stop pid status) w₀ = eventLoop s fuel (.stop pid status) w :=
  bind_apply_congr (hfree.trans (freeTerminatedTracees_alive halive).symm)

/-- After the terminated tracees are freed no one is terminated. -/
theorem freeTerminatedTracees_frees (hrun : Run (eventLoop s fuel) Input.possible World.initial w₀)
    (hfree : freeTerminatedTracees s (handleTraceeEvent s fuel) w₀ = (.ok (), w)) :
    Linked none w ∧ ∀ r ∈ w.tracees, (w.heap r).terminated = false := by
  let I : List Ref → World → Prop := fun refs v =>
    ∀ q ∈ v.tracees, (v.heap q).terminated = true → q ∈ refs
  have hrule : Triple (fun v => Orderly none ∅ v ∧ I v.tracees v)
      (freeTerminatedTracees s (handleTraceeEvent s fuel))
      (fun _ v => Orderly none ∅ v ∧ I [] v) (Stops fuel) := by
    refine freeTerminatedTracees_rule (fun r rest v halive hI q hq hdead => ?_)
      fun r rest v v' horderly _ _ _ hI _ hremoved q hq hdead => ?_
    · refine (List.mem_cons.mp (hI q hq hdead)).resolve_left ?_
      rintro rfl
      rw [halive] at hdead
      cases hdead
    · rw [World.log_tracees, hremoved.tracees] at hq
      obtain ⟨hne, hq⟩ := horderly.linked.nodup.mem_erase_iff.mp hq
      rw [World.log_heap, (hremoved.spared horderly.linked hq hne).terminated] at hdead
      exact (List.mem_cons.mp (hI q hq hdead)).resolve_left hne
  obtain ⟨horderly, hnone⟩ := (hrule w₀ ⟨orderly_of_run hrun, fun q hq _ => hq⟩).1 () w hfree
  refine ⟨horderly.linked, fun r hr => Bool.eq_false_iff.mpr fun hdead => ?_⟩
  exact absurd (hnone r hr hdead) List.not_mem_nil

/-- Nothing has happened to a child or to its parent that matters for both. -/
def Undecided (parent : Ref) (w : World) (past : List Call) : Prop :=
  stagesOf w.next past = stagesOf w.next w.calls ∧ NotRestarted parent w.calls past

/-- Before its birth nothing is decided about the child. -/
theorem Births.unborn (parent : Ref) (childPid : ℤ) (w : World) :
    Recorded (Undecided parent w) (Expecting childPid {} w) w :=
  ⟨Or.inl ⟨⟨⟨fun _ _ => rfl⟩, rfl, rfl⟩, rfl⟩, rfl, NotRestarted.refl ..⟩

/-- The calm stops of a child only allow the signal of its first one. -/
theorem Births.childInputs_calm (h : Births s w parent childPid registers)
    (hstopped : ∀ stop ∈ stops, wifstopped stop = true)
    (hcalm : ∀ stop ∈ stops, (stopKind (stopSignal stop)).calm) :
    Triple (fun u => u = w) (forEach (eventLoop s fuel) (childInputs childPid stops))
      (fun _ => Recorded (Undecided parent w) (Known childPid { sigstop := .allowed } w))
      fun _ _ => True := by
  have hskips : SkipsMinor (Undecided parent w) :=
    (stagesOf_skipsMinor _ _).and (NotRestarted.skipsMinor _ _)
  have hrestarted : ∀ how past, Undecided parent w past →
      Undecided parent w (.restarted w.next how :: past) := fun how past hpast =>
    ⟨(List.countP_cons_of_neg (by simp [Call.isStageOf])).trans hpast.1,
      hpast.2.cons (by simpa [Call.restarts] using h.parent_ne.symm)⟩
  refine Triple.bind (M := fun _ => Recorded (Undecided parent w)
    (Known childPid { sigstop := .allowed } w)) ?_ fun _ => Keeps.forEach fun i hi => ?_
  · have hround := h.calmRound (b := {}) fuel firstStop_stopped rfl hskips hrestarted
      (fun _ => by decide) firstStop_calm
    refine hround.conseq ?_ (fun _ u hu => ?_) fun _ _ h => h
    · rintro u rfl
      exact Births.unborn parent childPid u
    · rw [firstStop_kind] at hu
      exact hu
  · obtain ⟨stop, hmem, rfl⟩ := List.mem_map.mp hi
    have hround := h.calmRound (b := { sigstop := .allowed }) fuel (hstopped stop hmem) rfl hskips
      hrestarted (fun _ => by decide) (hcalm stop hmem)
    refine hround.conseq (fun u hu => ⟨Or.inr hu.1, hu.2⟩) (fun _ u hu => ?_) fun _ _ h => h
    rw [Birth.stopped, if_neg (by simp)] at hu
    exact hu

/-- No stage of a child has been handled where the count of its stages is the one before. -/
theorem Known.untranslated (hu : Known childPid b w u) (h : Births s w parent childPid registers)
    (hstages : stagesOf w.next u.calls = stagesOf w.next w.calls) :
    Untranslated childPid w u := by
  intro r hr hpid
  rw [hu.tracees] at hr
  rcases List.mem_cons.mp hr with rfl | hr
  · exact hstages
  · rw [hu.toBeside.field (h.linked.listed_lt r hr).ne Tracee.pid fun _ => rfl] at hpid
    exact absurd hpid (h.new r hr)

/-- A child with a stage of its own has been translated. -/
theorem StageAdded.translated {child : Ref}
    (hu : StageAdded childPid child (stagesOf child w.calls) u) :
    ¬Untranslated childPid w u := fun hnone =>
  hu.stages.ne' (hnone child hu.listed hu.pid)

section Announced

variable {event : ℤ} {cloneFlags : ℕ} (h : Births s w parent childPid registers)
  (hstopped : wifstopped event = true)
  (hflags : (stopKind (stopSignal event)).cloneFlags = some cloneFlags)
include h hstopped hflags

/-- The child that stops first, and not at a syscall, gets everything at the event of its parent. -/
theorem Births.childFirst_known {childFirst : World}
    (hstops : ∀ stop ∈ stops, wifstopped stop = true)
    (hcalm : ∀ stop ∈ stops, (stopKind (stopSignal stop)).calm)
    (hchildFirst : forEach (eventLoop s fuel)
      (childInputs childPid stops ++ [.stop (w.heap parent).pid event]) w = (.ok (), childFirst)) :
    Known childPid (adoptedChild s w parent registers cloneFlags { sigstop := .allowed }) w
      childFirst := by
  rw [forEach_append] at hchildFirst
  obtain ⟨_, resumed, hchild, hrest⟩ := bind_ok_iff.mp hchildFirst
  obtain ⟨_, _, hround, hdone⟩ := bind_ok_iff.mp hrest
  cases hdone
  have hresumed := (h.childInputs_calm hstops hcalm w rfl).1 _ _ hchild
  exact (h.parentRound (b := { sigstop := .allowed }) hstopped hflags (by decide) fuel resumed
    ⟨Or.inr hresumed.1, hresumed.2.2⟩).1 _ _ hround

/-- The child whose parent stops first has got everything at its first stop. -/
theorem Births.parentFirst_known {parentFirst : World}
    (hparentFirst : forEach (eventLoop s fuel)
      [.stop (w.heap parent).pid event, .stop childPid firstStop] w = (.ok (), parentFirst)) :
    ∃ announced, eventLoop s fuel (.stop childPid firstStop) announced = (.ok (), parentFirst) ∧
      Known childPid (adoptedChild s w parent registers cloneFlags {}) w announced := by
  obtain ⟨_, announced, hround, hrest⟩ := bind_ok_iff.mp hparentFirst
  obtain ⟨_, _, hchild, hdone⟩ := bind_ok_iff.mp hrest
  cases hdone
  refine ⟨announced, hchild, ?_⟩
  have hstart := Births.unborn parent childPid w
  exact (h.parentRound (b := {}) hstopped hflags (by decide) fuel w
    ⟨hstart.1, hstart.2.2⟩).1 _ _ hround

end Announced

/-- The stop of a child at a syscall before the event of its parent is a stage too early. -/
theorem Births.translated (h : Births s w parent childPid registers) (hstops : Reportable stops)
    (hsyscall : ∃ stop ∈ stops, stopKind (stopSignal stop) = .syscall) {rest : List Input}
    (hok : forEach (eventLoop s fuel) (childInputs childPid stops ++ rest) w = (.ok (), u)) :
    ∃ before v, before <+: stops ∧
      forEach (eventLoop s fuel) (childInputs childPid before) w = (.ok (), v) ∧
      ¬Untranslated childPid w v := by
  obtain ⟨before, stop, after, rfl, hkind, hcalm⟩ := hstops.split hsyscall
  have hsplit : childInputs childPid (before ++ stop :: after) ++ rest =
      childInputs childPid before ++
        .stop childPid stop :: (after.map (.stop childPid) ++ rest) := by
    simp [childInputs]
  rw [hsplit, forEach_append] at hok
  obtain ⟨_, v, hbefore, hrest⟩ := bind_ok_iff.mp hok
  obtain ⟨_, v', hstop, -⟩ := bind_ok_iff.mp hrest
  have hstopped : ∀ earlier ∈ before, wifstopped earlier = true := fun earlier hmem =>
    hstops.stopped earlier (List.mem_append_left _ hmem)
  have hv := (h.childInputs_calm hstopped hcalm w rfl).1 _ _ hbefore
  have hround := h.syscallRound (b := { sigstop := .allowed }) fuel
    (hstops.stopped stop (List.mem_append_right _ List.mem_cons_self)) rfl rfl rfl hkind v
    ⟨Or.inr hv.1, hv.2.1⟩
  refine ⟨before ++ [stop], v', ⟨after, by simp⟩, ?_, (hround.1 _ _ hstop).translated⟩
  have hlast : childInputs childPid (before ++ [stop]) =
      childInputs childPid before ++ [.stop childPid stop] := by simp [childInputs]
  rw [hlast, forEach_append, bind_apply_ok hbefore, forEach, bind_apply_ok hstop]
  rfl

/-- The children that are born alike in both orders. -/
theorem bornAlike_iff {childFirst parentFirst : World} {event : ℤ} {cloneFlags : ℕ}
    (hrun : Run (eventLoop s fuel) Input.possible World.initial w₀)
    (hfree : freeTerminatedTracees s (handleTraceeEvent s fuel) w₀ = (.ok (), w))
    (hparent : (w.tracees.find? fun r => (w.heap r).pid = (w.heap parent).pid) = some parent)
    (hnew : ∀ r ∈ w.tracees, (w.heap r).pid ≠ childPid)
    (hannounces : Announces s w parent childPid registers)
    (hstopped : wifstopped event = true)
    (hflags : (stopKind (stopSignal event)).cloneFlags = some cloneFlags)
    (hstops : Reportable stops)
    (hchildFirst : forEach (eventLoop s fuel)
      (childInputs childPid stops ++ [.stop (w.heap parent).pid event]) w₀ = (.ok (), childFirst))
    (hparentFirst : forEach (eventLoop s fuel)
      [.stop (w.heap parent).pid event, .stop childPid firstStop] w₀ = (.ok (), parentFirst)) :
    BornAlike s fuel childPid stops w₀ w childFirst parentFirst ↔
      (∀ stop ∈ stops, stopKind (stopSignal stop) ≠ .syscall) ∧
        ¬(w.heap parent).passesPtracer (announcedFlags s.target ((w.heap parent).mode s.target)
          registers cloneFlags) := by
  obtain ⟨hlinked, halive⟩ := freeTerminatedTracees_frees hrun hfree
  have h : Births s w parent childPid registers := ⟨hannounces, hlinked, halive, hparent, hnew⟩
  have hstart : ∀ before rest, forEach (eventLoop s fuel) (childInputs childPid before ++ rest) w₀ =
      forEach (eventLoop s fuel) (childInputs childPid before ++ rest) w := fun before rest =>
    bind_apply_congr (eventLoop_freed hfree halive)
  have hskip : ∀ before, forEach (eventLoop s fuel) (childInputs childPid before) w₀ =
      forEach (eventLoop s fuel) (childInputs childPid before) w := fun before =>
    bind_apply_congr (eventLoop_freed hfree halive)
  rw [hstart] at hchildFirst
  obtain ⟨announced, hchild, hannounced⟩ := h.parentFirst_known hstopped hflags
    ((bind_apply_congr (eventLoop_freed hfree halive).symm).trans hparentFirst)
  constructor
  · intro halike
    have hno : ∀ stop ∈ stops, stopKind (stopSignal stop) ≠ .syscall := by
      by_contra hsome
      push Not at hsome
      obtain ⟨before, v, hbefore, hv, htranslated⟩ := h.translated hstops hsome hchildFirst
      exact htranslated (halike.untranslated before v hbefore ((hskip before).trans hv))
    refine ⟨hno, fun hpasses => ?_⟩
    -- The ptracer gets the first stop of the child in one order only.
    have hborn := h.childFirst_known hstopped hflags hstops.stopped (hstops.calm hno) hchildFirst
    obtain ⟨ptracer, hptracer⟩ := Option.ne_none_iff_exists'.mp hpasses.1
    have hasPtracee : ∀ b : Birth, (adoptedChild s w parent registers cloneFlags b).asPtracee =
        { ptracer := (w.heap parent).asPtracee.ptracer
          options := (w.heap parent).asPtracee.options &&& 0x7f } := fun b => if_pos hpasses
    have hstarted := (h.startedRound fuel (by rw [hasPtracee, hptracer]) (by rw [hasPtracee])
      announced hannounced).1 _ _ hchild
    obtain ⟨b, hb, htracing⟩ := hstarted.bornAs
    have hsame := hborn.bornAs.symm.trans (halike.same.trans hb)
    rw [← Option.some.inj hsame, hasPtracee] at htracing
    cases htracing
  · rintro ⟨hno, hkept⟩
    have hcalm := hstops.calm hno
    have hasPtracee : (adoptedChild s w parent registers cloneFlags {}).asPtracee = {} :=
      if_neg hkept
    have hborn := h.childFirst_known hstopped hflags hstops.stopped hcalm hchildFirst
    have hround := (h.calmRound (C := fun _ => True) fuel firstStop_stopped hasPtracee
      (fun _ _ _ _ => trivial) (fun _ _ _ => trivial)
      (fun hseccomp => by simp [firstStop_kind] at hseccomp)
      firstStop_calm announced ⟨Or.inr hannounced, trivial⟩).1 _ _ hchild
    refine ⟨fun before v hbefore hv => ?_, ?_⟩
    · have hsub := hbefore.subset
      have hu := (h.childInputs_calm (fun stop hmem => hstops.stopped stop (hsub hmem))
        (fun stop hmem => hcalm stop (hsub hmem)) w rfl).1 _ _ ((hskip before).symm.trans hv)
      exact hu.1.untranslated h hu.2.1
    · rw [hborn.bornAs, hround.1.bornAs, firstStop_kind, Birth.stopped,
        if_pos ⟨rfl, rfl⟩]
      rfl

end Orders

/-! ## A process of a process -/

/-- The host of a process that makes the process 7. -/
def forkHost : Host
  | .getEventMsg _ :: _ => { value := 7 }
  | _ => {}

/-- The build for a tracee that forks. -/
def forkSetup : Setup := ⟨arm64 fun _ => .void, forkHost, false, false⟩

/-- The host announces the child. -/
theorem forkSetup_announces (w : World) (parent : Ref) : Announces forkSetup w parent 7 {} where
  message _ _ := ⟨le_rfl, (by decide : (7 : ℕ) ≠ 0), (by decide : toInt 7 = 7)⟩
  registers _ _ := rfl
  memory _ := le_rfl
  readable _ _ := le_rfl

/-- The event of a parent that has called `fork`. -/
def forkEvent : ℤ := 0x1057f

/-- The stop of a process at a syscall. -/
def syscallStop : ℤ := 0x857f

/-- The only tracee is the process 5, which nobody else traces, and both orders of events are dealt
with when it makes the process 7. -/
def Forks (stops : List ℤ) (w : World) : Prop :=
  w.tracees = [0] ∧ (w.heap 0).pid = 5 ∧ (w.heap 0).terminated = false ∧
    (w.heap 0).asPtracee.ptracer = none ∧
    runsTo World.tidy (eventLoop forkSetup 3) Input.possible (fun _ => True)
      (childInputs 7 stops ++ [.stop 5 forkEvent]) w = true ∧
    runsTo World.tidy (eventLoop forkSetup 3) Input.possible (fun _ => True)
      [.stop 5 forkEvent, .stop 7 firstStop] w = true

instance (stops : List ℤ) (w : World) : Decidable (Forks stops w) :=
  inferInstanceAs (Decidable (_ ∧ _))

set_option maxRecDepth 100000 in
/-- A run in which the tracee forks. -/
theorem forks_runsTo : runsTo World.tidy (eventLoop forkSetup 3) Input.possible (Forks [])
    [.stop 5 firstStop] World.initial = true := by
  decide_cbv

/-- In a run a tracee without a ptracer forks, and its child is born alike in both orders. -/
theorem bornAlike_iff_fork : ∃ w childFirst parentFirst,
    Run (eventLoop forkSetup 3) Input.possible World.initial w ∧
      BornAlike forkSetup 3 7 [] w w childFirst parentFirst := by
  obtain ⟨w, hrun, htracees, hpid, halive, huntraced, hchildFirst, hparentFirst⟩ :=
    Run.start.of_runsTo World.tidy_eq forks_runsTo
  have hlisted : ∀ r ∈ w.tracees, r = 0 := fun r hr => by simpa [htracees] using hr
  have hfree : freeTerminatedTracees forkSetup (handleTraceeEvent forkSetup 3) w = (.ok (), w) :=
    freeTerminatedTracees_alive fun r hr => hlisted r hr ▸ halive
  have hnew : ∀ r ∈ w.tracees, (w.heap r).pid ≠ 7 := fun r hr => by
    rw [hlisted r hr, hpid]
    decide
  have hflags : (stopKind (stopSignal forkEvent)).cloneFlags = some 0 := by decide
  have hstops : Reportable [] := ⟨List.forall_mem_nil _, fun before stop after hsplit =>
    absurd hsplit (by simp)⟩
  obtain ⟨childFirst, hchildFirst, -⟩ := forEach_of_runsTo World.tidy_eq hchildFirst
  obtain ⟨parentFirst, hparentFirst, -⟩ := forEach_of_runsTo World.tidy_eq hparentFirst
  rw [← hpid] at hchildFirst hparentFirst
  exact ⟨w, childFirst, parentFirst, hrun, (bornAlike_iff hrun hfree (by simp [htracees]) hnew
    (forkSetup_announces w 0) (by decide) hflags hstops hchildFirst hparentFirst).mpr
    ⟨List.forall_mem_nil _, fun hpasses => hpasses.1 huntraced⟩⟩

/-- The second tracee is the process 7, and has entered a syscall. -/
def HasEntered (u : World) : Prop :=
  1 ∈ u.tracees ∧ (u.heap 1).pid = 7 ∧ stagesOf 1 u.calls = 1

instance (u : World) : Decidable (HasEntered u) := inferInstanceAs (Decidable (_ ∧ _))

/-- The child enters a syscall before the event of its parent. -/
def EntersEarly (w : World) : Prop :=
  Forks [syscallStop] w ∧ stagesOf 1 w.calls = 0 ∧
    runsTo World.tidy (eventLoop forkSetup 3) Input.possible HasEntered
      (childInputs 7 [syscallStop]) w = true

instance (w : World) : Decidable (EntersEarly w) := inferInstanceAs (Decidable (_ ∧ _))

set_option maxRecDepth 100000 in
/-- A run in which the child enters a syscall before its parent is told. -/
theorem entersEarly_runsTo : runsTo World.tidy (eventLoop forkSetup 3) Input.possible EntersEarly
    [.stop 5 firstStop] World.initial = true := by
  decide_cbv

/-- A stage of a syscall of a child is translated before the event of its parent. -/
theorem not_bornAlike : ∃ w,
    Run (eventLoop forkSetup 3) Input.possible World.initial w ∧ Forks [syscallStop] w ∧
      Announces forkSetup w 0 7 {} ∧ Reportable [syscallStop] ∧ ∀ childFirst parentFirst,
        ¬BornAlike forkSetup 3 7 [syscallStop] w w childFirst parentFirst := by
  obtain ⟨w, hrun, hforks, hbefore, henters⟩ := Run.start.of_runsTo World.tidy_eq entersEarly_runsTo
  obtain ⟨u, hu, hlisted, hpid, hstages⟩ := forEach_of_runsTo World.tidy_eq henters
  refine ⟨w, hrun, hforks, forkSetup_announces w 0,
    ⟨by decide, fun before stop after hsplit hflags => ?_⟩, fun _ _ halike => ?_⟩
  · obtain rfl : stop = syscallStop := by
      have hmem : stop ∈ [syscallStop] := hsplit ▸ List.mem_append_right _ List.mem_cons_self
      simpa using hmem
    exact absurd rfl hflags
  · have hsame := halike.untranslated [syscallStop] u List.prefix_rfl hu 1 hlisted hpid
    rw [hstages, hbefore] at hsame
    cases hsame

end Abyss
