import Abyss.Ptrace.Accounting

/-!
# Ptracees whose ptracer dies

When a ptracer is removed, each of its ptracees gets a clean record, and one that is stopped
should run again, since nobody is left to resume it. The removal restarts a ptracee whose event is
still to be handled, or that its ptracer was not told about yet. A ptracee whose event was handled
first and then consumed by a wait has neither flag set, and stays stopped.
-/

namespace Abyss

open Machine

variable {s : Setup} {fuel : ℕ} {w v : World} {dead q : Ref}

/-- The restarts of a tracee are marks. -/
theorem restartsOf_marks (r : Ref) (w : World) : restartsOf r w.marks = restartsOf r w.calls := by
  unfold restartsOf World.marks
  rw [List.countP_filter]
  refine List.countP_congr fun c _ => ?_
  cases c <;> simp [Call.restarts, Call.isMark]

/-- A tracee is not waiting for a ptracee that is about to be removed. -/
def Undisturbed (w : World) (q : Ref) : Prop :=
  (w.heap q).asPtracer.waitPid = 0 ∨
    ∀ d ∈ w.tracees, (w.heap d).terminated = true → (w.heap d).asPtracee.ptracer ≠ some q

/-- What a removal does to a tracee that stays, as a ptracee. -/
structure Fate (s : Setup) (dead q : Ref) (w v : World) : Prop where
  asPtracee : (v.heap q).asPtracee =
    if (w.heap q).asPtracee.ptracer = some dead then {} else (w.heap q).asPtracee
  waitPid : (v.heap q).asPtracer.waitPid = (w.heap q).asPtracer.waitPid
  restarts : s.host.Restarts (w.heap q).pid → restartsOf q v.marks = restartsOf q w.marks +
    if (w.heap q).asPtracee.ptracer = some dead ∧ (w.heap q).released then 1 else 0

/-- Releasing the relatives restarts those that are released. -/
theorem Released.fate {rels : List Ref} (h : Released s dead rels w v) (hq : q ∈ rels) :
    Fate s dead q w v := by
  have hbereft := h.bereft q hq
  obtain ⟨past, hpast, -, hcount⟩ := h.marks
  refine ⟨hbereft.asPtracee, (congrArg AsPtracer.waitPid hbereft.asPtracer :), fun haccepts => ?_⟩
  rw [hpast, restartsOf_append, hcount q haccepts, Nat.add_comm]
  simp only [hq, true_and]

/-- A dead ptracee that leaves its ptracer disturbs nobody else, nor a ptracer that does not
wait. -/
theorem Left.undisturbed {p : Ref} (h : Left dead p w v) (hq : q < w.next) (hne : q ≠ dead)
    (hwait : (w.heap q).asPtracer.waitPid = 0 ∨ p ≠ q) :
    (v.heap q).asPtracee = (w.heap q).asPtracee ∧
      (v.heap q).asPtracer.waitPid = (w.heap q).asPtracer.waitPid ∧
      restartsOf q v.marks = restartsOf q w.marks := by
  cases h with
  | zombie =>
    have hold : (w.zombified dead p).heap q = _ := if_neg hq.ne
    have hmarks : (w.zombified dead p).marks = .created w.next :: w.marks := rfl
    rw [hold, if_neg hne, hmarks]
    refine ⟨rfl, rfl, ?_⟩
    unfold restartsOf
    rw [List.countP_cons_of_neg (by simp [Call.restarts])]
  | @lone past _ hpast hwoken =>
    have hdetached : (({ w with calls := past }.detach dead p).heap q).asPtracee =
          (w.heap q).asPtracee ∧
        (({ w with calls := past }.detach dead p).heap q).asPtracer.waitPid =
          (w.heap q).asPtracer.waitPid := by
      rw [detach_heap, if_neg hne]
      exact ⟨rfl, rfl⟩
    have hmarks : ({ w with calls := past }.detach dead p).marks = w.marks := hpast
    by_cases hqp : q = p
    · subst hqp
      have hidle := hwait.resolve_right (not_not.mpr rfl)
      rw [hwoken.idle (hdetached.2.trans hidle)]
      exact ⟨hdetached.1, hdetached.2, by rw [hmarks]⟩
    · obtain ⟨past', hpast', hrestarts⟩ := hwoken.marks
      rw [hwoken.others q hqp]
      refine ⟨hdetached.1, hdetached.2, ?_⟩
      rw [hpast', hmarks, restartsOf_append,
        restartsOf_other (fun c hc => Or.inr (hrestarts c hc)) hqp, Nat.zero_add]

/-- A removal decides the fate of the ptracees of the dead tracee, and of no others. -/
theorem Removed.fate (h : Removed s dead w v) (hl : Linked none w) (hq : q ∈ w.tracees)
    (hne : q ≠ dead) (hwait : (w.heap q).asPtracer.waitPid = 0 ∨
      (w.heap dead).asPtracee.ptracer ≠ some q) : Fate s dead q w v := by
  have hrel : q ∈ w.tracees.erase dead := hl.nodup.mem_erase_iff.mpr ⟨hne, hq⟩
  cases h with
  | free hreleased =>
    obtain ⟨hptracee, hwaitPid, hrestarts⟩ := hreleased.fate hrel
    exact ⟨hptracee, hwaitPid, hrestarts⟩
  | left hreleased hptracer hleft =>
    obtain ⟨hptracee, hwaitPid, hrestarts⟩ := hreleased.fate hrel
    obtain ⟨hptracee', hwaitPid', hrestarts'⟩ := hleft.undisturbed
      (hreleased.next.symm ▸ hl.listed_lt q hq) hne
      (hwait.imp hwaitPid.trans fun hnot heq => hnot (heq ▸ hptracer))
    exact ⟨hptracee'.trans hptracee, hwaitPid'.trans hwaitPid,
      fun haccepts => hrestarts'.trans (hrestarts haccepts)⟩

/-- How a ptracee of a terminated tracee stands while the tracees in `refs` are still to be
removed. -/
structure Doomed (s : Setup) (w : World) (p q : Ref) (refs : List Ref) (v : World) : Prop where
  listed : q ∈ v.tracees
  pid : (v.heap q).pid = (w.heap q).pid
  alive : (v.heap q).terminated = false
  waitPid : (v.heap q).asPtracer.waitPid = (w.heap q).asPtracer.waitPid
  undisturbed : Undisturbed v q
  terminated : p ∈ refs → (v.heap p).terminated = true
  before : p ∈ refs → (v.heap q).asPtracee = (w.heap q).asPtracee ∧
    (s.host.Restarts (w.heap q).pid → restartsOf q v.marks = restartsOf q w.marks)
  after : p ∉ refs → (v.heap q).asPtracee = {} ∧ (s.host.Restarts (w.heap q).pid →
    restartsOf q v.marks = restartsOf q w.marks + if (w.heap q).released then 1 else 0)

section Doomed

variable {p r : Ref} {refs : List Ref}

/-- A live ptracee of a listed and terminated tracee is doomed before the first removal. -/
theorem Doomed.start (hq : q ∈ w.tracees) (halive : (w.heap q).terminated = false)
    (hp : p ∈ w.tracees) (hdead : (w.heap p).terminated = true) (hundisturbed : Undisturbed w q) :
    Doomed s w p q w.tracees w :=
  ⟨hq, rfl, halive, rfl, hundisturbed, fun _ => hdead, fun _ => ⟨rfl, fun _ => rfl⟩,
    fun hout => absurd hp hout⟩

/-- A live tracee is passed over. -/
theorem Doomed.skip (hr : (v.heap r).terminated = false) (h : Doomed s w p q (r :: refs) v) :
    Doomed s w p q refs v := by
  refine ⟨h.listed, h.pid, h.alive, h.waitPid, h.undisturbed,
    fun hp => h.terminated (List.mem_cons_of_mem _ hp), fun hp => h.before (List.mem_cons_of_mem _ hp),
    fun hout => h.after fun hp => ?_⟩
  obtain rfl : p = r := (List.mem_cons.mp hp).resolve_right hout
  rw [h.terminated hp] at hr
  cases hr

/-- The removal of a tracee brings a ptracee to its fate if it is its ptracer. -/
theorem Doomed.step {v' : World} (hptracer : (w.heap q).asPtracee.ptracer = some p)
    (hl : Linked none v) (hnodup : (r :: refs).Nodup) (hlisted : ∀ a ∈ r :: refs, a ∈ v.tracees)
    (hdead : (v.heap r).terminated = true) (h : Doomed s w p q (r :: refs) v)
    (hremoved : Removed s r v v') : Doomed s w p q refs (v'.log (.freed r)) := by
  have hr := hlisted r List.mem_cons_self
  have hqr : q ≠ r := by
    rintro rfl
    rw [h.alive] at hdead
    cases hdead
  have hstays : ∀ {a}, a ∈ v'.tracees ↔ a ≠ r ∧ a ∈ v.tracees := by
    intro a
    rw [hremoved.tracees]
    exact hl.nodup.mem_erase_iff
  have hspared : ∀ {a}, a ∈ v'.tracees → Spared r (v.heap a) (v'.heap a) := fun ha =>
    hremoved.spared hl (hstays.mp ha).2 (hstays.mp ha).1
  have hq : q ∈ v'.tracees := hstays.mpr ⟨hqr, h.listed⟩
  obtain ⟨hptracee, hwaitPid, hrestarts⟩ := hremoved.fate hl h.listed hqr
    (h.undisturbed.imp_right fun hall => hall r hr hdead)
  have hmarks : restartsOf q (v'.log (.freed r)).marks = restartsOf q v'.marks := by
    rw [restartsOf_marks, restartsOf_marks]
    exact List.countP_cons_of_neg (by simp [Call.restarts])
  have hpid : (v'.heap q).pid = (v.heap q).pid :=
    hremoved.record (hl.listed_lt q h.listed) hqr (pid_outlives (v.heap q).pid) rfl
  refine ⟨hq, hpid.trans h.pid, (hspared hq).terminated.trans h.alive, hwaitPid.trans h.waitPid,
    ?_, fun hp => ?_,
    fun hp => ?_, fun hout => ?_⟩
  · refine h.undisturbed.imp hwaitPid.trans fun hall d hd hddead htracer => ?_
    have hd' := hspared hd
    rw [World.log_heap, hd'.terminated] at hddead
    rw [World.log_heap, hd'.ptracer] at htracer
    split at htracer
    · cases htracer
    · exact hall d (hstays.mp hd).2 hddead htracer
  · have hpr : p ≠ r := fun heq => (List.nodup_cons.mp hnodup).1 (heq ▸ hp)
    have hp' := List.mem_cons_of_mem r hp
    exact (hspared (hstays.mpr ⟨hpr, hlisted p hp'⟩)).terminated.trans (h.terminated hp')
  · have hpr : p ≠ r := fun heq => (List.nodup_cons.mp hnodup).1 (heq ▸ hp)
    obtain ⟨hsame, hcount⟩ := h.before (List.mem_cons_of_mem r hp)
    have hother : (v.heap q).asPtracee.ptracer ≠ some r := by
      rw [hsame, hptracer]
      exact fun heq => hpr (Option.some.inj heq)
    rw [if_neg hother] at hptracee
    refine ⟨hptracee.trans hsame, fun haccepts => ?_⟩
    rw [hmarks, hrestarts (h.pid.symm ▸ haccepts), if_neg fun hboth => hother hboth.1, hcount haccepts,
      Nat.add_zero]
  · by_cases hpr : p = r
    · obtain ⟨hsame, hcount⟩ := h.before (List.mem_cons.mpr (Or.inl hpr))
      have htracer : (v.heap q).asPtracee.ptracer = some r := by
        rw [hsame, hptracer, hpr]
      rw [if_pos htracer] at hptracee
      refine ⟨hptracee, fun haccepts => ?_⟩
      have hreleased : (v.heap q).released ↔ (w.heap q).released := by
        unfold Tracee.released
        rw [hsame, h.waitPid]
      rw [hmarks, hrestarts (h.pid.symm ▸ haccepts), hcount haccepts]
      simp only [htracer, hreleased, true_and]
    · obtain ⟨hclean, hcount⟩ := h.after fun hp => hout ((List.mem_cons.mp hp).resolve_left hpr)
      have hother : (v.heap q).asPtracee.ptracer ≠ some r := by
        rw [hclean]
        intro heq
        cases heq
      rw [if_neg hother] at hptracee
      refine ⟨hptracee.trans hclean, fun haccepts => ?_⟩
      rw [hmarks, hrestarts (h.pid.symm ▸ haccepts), if_neg fun hboth => hother hboth.1,
        hcount haccepts,
        Nat.add_zero]

end Doomed

/-- What should become of a ptracee when its ptracer is removed: it is nobody's ptracee, and it is
restarted once. -/
def ReleasedOnce (q : Ref) (w v : World) : Prop :=
  (v.heap q).asPtracee = {} ∧ restartsOf q v.calls = restartsOf q w.calls + 1

/-- In every run, when the terminated tracees are freed, a live ptracee of one of them that is stopped
gets a clean record and is restarted once exactly if its event is still to be handled, or was not
consumed by its ptracer. -/
theorem freeTerminatedTracees_releasedOnce_iff
    (hrun : Run (eventLoop s fuel) Input.possible World.initial w) {p q : Ref}
    (haccepts : s.host.Restarts (w.heap q).pid) (hq : q ∈ w.tracees)
    (halive : (w.heap q).terminated = false)
    (hp : p ∈ w.tracees)
    (hdead : (w.heap p).terminated = true) (hptracer : (w.heap q).asPtracee.ptracer = some p)
    (hundisturbed : Undisturbed w q) :
    Triple (fun v => v = w) (freeTerminatedTracees s (handleTraceeEvent s (fuel + 1)))
      (fun _ v => ReleasedOnce q w v ↔ (w.heap q).released) (fun e _ => e = .exit) := by
  refine (freeTerminatedTracees_rule (I := Doomed s w p q) (fun r refs v hr h => h.skip hr)
    fun r refs v v' ho hnodup hlisted hrdead h _ hremoved =>
      h.step hptracer ho.linked hnodup hlisted hrdead hremoved).conseq ?_ ?_ ?_
  · rintro v rfl
    exact ⟨orderly_of_run hrun, Doomed.start hq halive hp hdead hundisturbed⟩
  · rintro _ v ⟨-, hdoomed⟩
    obtain ⟨hclean, hcount⟩ := hdoomed.after List.not_mem_nil
    have hcount := hcount haccepts
    rw [restartsOf_marks, restartsOf_marks] at hcount
    unfold ReleasedOnce
    rw [hcount]
    by_cases hreleased : (w.heap q).released
    · simp [hclean, hreleased]
    · simp [hreleased]
  · rintro e _ (rfl | ⟨hfuel, -⟩)
    · rfl
    · cases hfuel

/-! ## A ptracer that dies before and after it waits -/

/-- The process 5 attaches to the process 7, lets it run to a syscall twice, and waits for it. -/
def syscallTracerScript : Script where
  banks := [syscallBank 117 16 7 0 0, syscallBank 117 16 7 0 0,
    syscallBank 117 24 7 0 0, syscallBank 117 24 7 0 0,
    syscallBank 117 24 7 0 0, syscallBank 117 24 7 0 0, syscallBank 1 0 0 0 0,
    syscallBank 260 (2 ^ 64 - 1) 0 0 0, syscallBank 260 (2 ^ 64 - 1) 0 0 0,
    syscallBank 1 0 0 0 0]

/-- The host restarts every process that it is asked to. -/
theorem syscallTracer_restarts (pid : ℤ) : syscallTracerScript.setup.host.Restarts pid :=
  fun _ _ _ => le_rfl

/-- The entry of a syscall of the process 7 is put off, and the process 5 dies. -/
def deferredInputs : List Input :=
  [.stop 7 0x137f, .stop 5 0x857f, .stop 5 0x857f, .stop 7 0x137f, .stop 5 0x857f,
    .stop 5 0x857f, .stop 7 0x857f, .stop 5 0]

/-- The process 5 consumes the exit of that syscall as well, and then dies. -/
def consumedInputs : List Input :=
  [.stop 7 0x137f, .stop 5 0x857f, .stop 5 0x857f, .stop 7 0x137f, .stop 5 0x857f,
    .stop 5 0x857f, .stop 7 0x857f, .stop 5 0x857f, .stop 5 0x857f, .stop 5 0x857f,
    .stop 5 0x857f, .stop 7 0x857f, .stop 5 0]

/-- The first tracee is stopped and does not wait, and its ptracer, the second, is terminated. -/
def Bereaved (w : World) : Prop :=
  (0 ∈ w.tracees ∧ (w.heap 0).terminated = false ∧ (w.heap 0).running = false ∧
      (w.heap 0).asPtracer.waitPid = 0) ∧
    1 ∈ w.tracees ∧ (w.heap 1).terminated = true ∧ (w.heap 0).asPtracee.ptracer = some 1

instance (w : World) : Decidable (Bereaved w) := inferInstanceAs (Decidable (_ ∧ _))

set_option maxRecDepth 100000 in
/-- A run in which the stop of a ptracee is deferred until its ptracer is gone. -/
theorem deferred_runsTo : runsTo World.tidy (eventLoop syscallTracerScript.setup 3) Input.possible
    (fun w => Bereaved w ∧ (w.heap 0).released) deferredInputs World.initial = true := by
  decide_cbv

/-- In a run a ptracee whose event was put off is restarted once when its ptracer is freed. -/
theorem freeTerminatedTracees_releasedOnce_deferred :
    ∃ w, Run (eventLoop syscallTracerScript.setup 3) Input.possible World.initial w ∧
      Bereaved w ∧ Triple (fun v => v = w)
        (freeTerminatedTracees syscallTracerScript.setup
          (handleTraceeEvent syscallTracerScript.setup 4))
        (fun _ v => ReleasedOnce 0 w v) (fun e _ => e = .exit) := by
  obtain ⟨w, hrun, hbereaved, hreleased⟩ := Run.start.of_runsTo World.tidy_eq deferred_runsTo
  obtain ⟨⟨hq, halive, -, hwait⟩, hp, hdead, hptracer⟩ := id hbereaved
  exact ⟨w, hrun, hbereaved, (freeTerminatedTracees_releasedOnce_iff hrun
    (syscallTracer_restarts _) hq halive hp hdead hptracer (Or.inl hwait)).conseq (fun _ hv => hv)
    (fun _ _ h => h.mpr hreleased) fun _ _ h => h⟩

/-- A program returned, and the first tracee was not restarted. -/
def Unreleased (w : World) (outcome : Except Fault Unit × World) : Prop :=
  outcome.1.isOk = true ∧ restartsOf 0 outcome.2.calls = restartsOf 0 w.calls

instance (w : World) (outcome : Except Fault Unit × World) : Decidable (Unreleased w outcome) :=
  inferInstanceAs (Decidable (_ ∧ _))

/-- The terminated tracees are freed, and the first one is not restarted. -/
def LeftStopped (s : Setup) (fuel : ℕ) (w : World) : Prop :=
  Unreleased w (freeTerminatedTracees s (handleTraceeEvent s fuel) w)

instance (s : Setup) (fuel : ℕ) (w : World) : Decidable (LeftStopped s fuel w) :=
  inferInstanceAs (Decidable (Unreleased w _))

set_option maxRecDepth 100000 in
/-- A run in which the stop was consumed before. -/
theorem consumed_runsTo : runsTo World.tidy (eventLoop syscallTracerScript.setup 3) Input.possible
    (fun w => Bereaved w ∧ LeftStopped syscallTracerScript.setup 3 w) consumedInputs
    World.initial = true := by
  decide_cbv

/-- In a run a stopped ptracee whose event was handled first and consumed is not restarted when its
ptracer is freed, and nobody is left to resume it. -/
theorem consumedEvent_leftStopped :
    ∃ w v, Run (eventLoop syscallTracerScript.setup 3) Input.possible World.initial w ∧
      Bereaved w ∧ freeTerminatedTracees syscallTracerScript.setup
        (handleTraceeEvent syscallTracerScript.setup 3) w = (.ok (), v) ∧
      ¬ReleasedOnce 0 w v := by
  obtain ⟨w, hrun, hbereaved, hok, hcount⟩ := Run.start.of_runsTo World.tidy_eq consumed_runsTo
  rcases hfree : freeTerminatedTracees syscallTracerScript.setup
    (handleTraceeEvent syscallTracerScript.setup 3) w with ⟨_ | ⟨⟩, v⟩
  · rw [hfree] at hok
    cases hok
  · rw [hfree] at hcount
    refine ⟨w, v, hrun, hbereaved, hfree, fun hreleased => ?_⟩
    have honce : restartsOf 0 v.calls = restartsOf 0 w.calls + 1 := hreleased.2
    have hnone : restartsOf 0 v.calls = restartsOf 0 w.calls := hcount
    omega

end Abyss
