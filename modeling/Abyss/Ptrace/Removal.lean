import Abyss.Tracee.Orderly

/-!
# Removing a tracee

A terminated tracee leaves the list, its children become orphans, its ptracees are released one
after the other, and its own ptracer is told. Since deferred events are calm, releasing a relative
only touches the record of that relative, so what becomes of each of them can be told apart from
the others.
-/

namespace Abyss

open Machine

/-! ## Releasing one relative -/

/-- The tracee is restarted. -/
def Call.restarts (r : Ref) : Call → Bool
  | .restarted q _ => q = r
  | _ => false

/-- How often a tracee was restarted. -/
def restartsOf (r : Ref) (calls : List Call) : ℕ := calls.countP (Call.restarts r)

/-- The host restarts a process whenever it is asked to. -/
def Host.Restarts (host : Host) (pid : ℤ) : Prop :=
  ∀ how signal past, 0 ≤ (host (.restart how pid signal :: past)).status

/-- A ptracee that is restarted when its ptracer is dead: one with an event that is still to be
handled, or that the ptracer was not told about, unless it waits for a ptracee of its own. -/
def Tracee.released (t : Tracee) : Prop :=
  t.asPtracer.waitPid = 0 ∧ (t.asPtracee.proot.pending = true ∨
    t.asPtracee.event.pending = true ∧ t.asPtracee.proot.value ≠ -1)

instance (t : Tracee) : Decidable t.released := inferInstanceAs (Decidable (_ ∧ _))

/-- A property of a record that outlives the removal of its relatives. -/
structure Outlives (Q : Tracee → Prop) : Prop extends Endures Q where
  orphan : ∀ {t}, Q t → Q { t with parent := none }
  free : ∀ {t}, Q t → Q { t with asPtracee := { t.asPtracee with ptracer := none } }
  reset : ∀ {t}, Q t → Q { t with asPtracee := {} }
  tracer : ∀ {t} asPtracer, Q t → Q { t with asPtracer := asPtracer }

/-- The record of a relative once a dead tracee is neither its parent nor its ptracer. -/
structure Bereft (dead : Ref) (t t' : Tracee) : Prop where
  record : ∀ Q, Outlives Q → Q t → Q t'
  parent : t'.parent = if t.parent = some dead then none else t.parent
  terminated : t'.terminated = t.terminated
  asPtracer : t'.ties.asPtracer = t.ties.asPtracer
  asPtracee : t'.asPtracee = if t.asPtracee.ptracer = some dead then {} else t.asPtracee

/-- A tracee stays the same process. -/
theorem pid_outlives (pid : ℤ) : Outlives fun t => t.pid = pid where
  own h ht := h.pid.trans ht
  detect ht := by
    unfold detectSeccomp
    split <;> exact ht
  settle _ _ _ ht := by
    unfold settle detectSeccomp
    split <;> exact ht
  orphan ht := ht
  free ht := ht
  reset ht := ht
  tracer _ ht := ht

/-- A property that outlives a tracer does not depend on the parent. -/
theorem Outlives.orphaned {Q : Tracee → Prop} (hQ : Outlives Q) (dead : Ref) {t : Tracee}
    (ht : Q t) : Q { t with parent := if t.parent = some dead then none else t.parent } := by
  split
  · exact hQ.orphan ht
  · exact ht

/-- What releasing the relatives of a dead tracee does. -/
structure Released (s : Setup) (dead : Ref) (rels : List Ref) (w v : World) : Prop where
  others : ∀ q, q ∉ rels → v.heap q = w.heap q
  next : v.next = w.next
  tracees : v.tracees = w.tracees
  bereft : ∀ rel ∈ rels, Bereft dead (w.heap rel) (v.heap rel)
  marks : ∃ past, v.marks = past ++ w.marks ∧
    (∀ c ∈ past, c.isStopMark = true ∨ ∃ rel ∈ rels, c.restarts rel = true) ∧
    (∀ rel, s.host.Restarts (w.heap rel).pid → restartsOf rel past =
      if rel ∈ rels ∧ (w.heap rel).asPtracee.ptracer = some dead ∧ (w.heap rel).released then 1
      else 0)

section Release

variable {s : Setup} {fuel : ℕ} {gone : Option Ref} {dead rel : Ref} {w : World}

/-- The ways in which handling an event while a tracee is removed may fail. -/
def Stops (fuel : ℕ) (e : Fault) (_ : World) : Prop := e = .exit ∨ fuel = 0 ∧ e = .outOfFuel

/-- Marks of stops are no restarts. -/
theorem Call.restarts_stopMark {c : Call} (h : c.isStopMark = true) (r : Ref) :
    c.restarts r = false := by
  cases c <;> first | rfl | cases h

/-- A stop restarts nobody. -/
theorem restartsOf_stopMarks {past : List Call} (h : ∀ c ∈ past, c.isStopMark = true) (r : Ref) :
    restartsOf r past = 0 := by
  exact List.countP_eq_zero.mpr fun c hc => by simp [Call.restarts_stopMark (h c hc)]

/-- A restart keeps the shape of the world. -/
theorem World.restart_shape (w : World) (r : Ref) : (w.restart r).shape = w.shape := by
  unfold World.restart
  exact World.update_shape _ r fun _ => rfl

/-- It leaves all other records alone. -/
theorem World.restart_heap (w : World) {r q : Ref} (hq : q ≠ r) :
    (w.restart r).heap q = w.heap q := by
  rw [World.restart, World.update_heap, if_neg hq]
  rfl

/-- It leaves a mark. -/
theorem World.restart_marks (w : World) (r : Ref) :
    (w.restart r).marks = .restarted r (w.heap r).restartHow :: w.marks := by
  simp [World.marks, World.restart, Call.isMark, List.filter_cons]

/-- Restarting a tracee touches its record only, and leaves one mark if it is restarted. -/
theorem restartTracee_spec (s : Setup) (r : Ref) (signal : ℤ) (w : World) :
    ∃ b w', restartTracee s r signal w = (.ok b, w') ∧ w'.shape = w.shape ∧
      (∀ q, q ≠ r → w'.heap q = w.heap q) ∧
      (w'.heap r).asPtracee = (w.heap r).asPtracee ∧ ∃ past, w'.marks = past ++ w.marks ∧
        (∀ c ∈ past, c.restarts r = true) ∧ (s.host.Restarts (w.heap r).pid →
          restartsOf r past = if (w.heap r).asPtracer.waitPid = 0 ∧ signal ≠ -1 then 1 else 0) := by
  rcases restartTracee_cases s r signal w with ⟨hnot, h⟩ | ⟨-, hfail, h⟩ | ⟨hready, hok, h⟩
  · refine ⟨false, w, h, rfl, fun _ _ => rfl, rfl, [], rfl, List.forall_mem_nil _,
      fun _ => (if_neg ?_).symm⟩
    rintro ⟨hwait, hsignal⟩
    exact hnot.elim (fun hne => hne hwait) fun heq => hsignal heq
  · refine ⟨false, _, h, World.log_shape _ _, fun _ _ => rfl, rfl, [], w.log_marks rfl,
      List.forall_mem_nil _, fun haccepts => ?_⟩
    exact absurd hfail (not_lt.mpr (haccepts ..))
  · refine ⟨true, _, h, World.restart_shape _ r, fun q hq => World.restart_heap _ hq, ?_,
      [.restarted r (w.heap r).restartHow], ?_, ?_, fun _ => ?_⟩
    · rw [World.restart, World.update_self]
      rfl
    · rw [World.restart_marks, World.log_marks w rfl]
      rfl
    · intro c hc
      rw [List.mem_singleton.mp hc]
      simp [Call.restarts]
    · rw [if_pos hready]
      simp [restartsOf, Call.restarts]

/-- What releasing a tracee leaves alone, and how often it is restarted. -/
structure Resumed (s : Setup) (rel : Ref) (w v : World) : Prop where
  record : ∀ Q, Endures Q → Q (w.heap rel) → Q (v.heap rel)
  others : ∀ q, q ≠ rel → v.heap q = w.heap q
  next : v.next = w.next
  tracees : v.tracees = w.tracees
  ties : (v.heap rel).ties = (w.heap rel).ties
  marks : ∃ past, v.marks = past ++ w.marks ∧
    (∀ c ∈ past, c.isStopMark = true ∨ c.restarts rel = true) ∧
    (s.host.Restarts (w.heap rel).pid → restartsOf rel past = if (w.heap rel).released then 1 else 0)

/-- The restarts of two histories add up. -/
theorem restartsOf_append (r : Ref) (past past' : List Call) :
    restartsOf r (past ++ past') = restartsOf r past + restartsOf r past' :=
  List.countP_append

/-- The marks of stops and of a restart are no restarts of another tracee. -/
theorem restartsOf_other {past : List Call} {r q : Ref}
    (h : ∀ c ∈ past, c.isStopMark = true ∨ c.restarts r = true) (hq : q ≠ r) :
    restartsOf q past = 0 := by
  refine List.countP_eq_zero.mpr fun c hc => ?_
  rcases h c hc with hstop | hrestart
  · simp [Call.restarts_stopMark hstop]
  · cases c with
    | restarted a =>
      have ha : a = r := by simpa [Call.restarts] using hrestart
      simpa [Call.restarts, ha] using hq.symm
    | _ => cases hrestart

/-- A tracee is restarted after its event was handled. -/
theorem restart_resumed {signal : ℤ} {v : World} (h : Orderly gone ∅ v) (halone : Alone rel w v)
    (hreleased : (w.heap rel).released ↔ (w.heap rel).asPtracer.waitPid = 0 ∧ signal ≠ -1) :
    ∃ v', (do let _ ← restartTracee s rel signal) v = (.ok (), v') ∧ Orderly gone ∅ v' ∧
      Resumed s rel w v' := by
  obtain ⟨b, v', hrun, hshape, hothers, -, past, hpast, hrestarts, hcount⟩ :=
    restartTracee_spec s rel signal v
  obtain ⟨hheap, hnext, htracees⟩ := shape_eq_iff.mp hshape
  obtain ⟨past', hpast', hstops⟩ := halone.marks
  have hwait : (v.heap rel).asPtracer.waitPid = (w.heap rel).asPtracer.waitPid :=
    congrArg (fun t => t.asPtracer.waitPid) halone.ties
  refine ⟨v', bind_apply_ok hrun, h.of_shape hshape, ?_⟩
  refine ⟨fun Q hQ hr => hQ.own (Own.of_shape (hheap rel)) (halone.record Q hQ hr),
    fun q hq => (hothers q hq).trans (halone.others q hq), hnext.trans halone.next,
    htracees.trans halone.tracees, ?_, past ++ past', ?_, ?_, fun haccepts => ?_⟩
  · exact (Tracee.of_shape (hheap rel) Tracee.ties fun _ => rfl).trans halone.ties
  · rw [hpast, hpast', List.append_assoc]
  · intro c hc
    exact (List.mem_append.mp hc).elim (fun hmem => Or.inr (hrestarts c hmem))
      fun hmem => Or.inl (hstops c hmem)
  · have hpid : (v.heap rel).pid = (w.heap rel).pid :=
      halone.record _ (pid_outlives (w.heap rel).pid).toEndures rfl
    rw [restartsOf_append, hcount (hpid ▸ haccepts), restartsOf_stopMarks hstops, hwait]
    simp only [hreleased, Nat.add_zero]

/-- The event of a released tracee is handled, and the tracee is restarted. -/
theorem releaseEvent_spec (h : Orderly gone ∅ w) (hrel : rel ∈ w.tracees) :
    Triple (fun v => v = w) (releaseEvent s (handleTraceeEvent s fuel) rel)
      (fun _ v => Orderly gone ∅ v ∧ Resumed s rel w v) (Stops fuel) := by
  rintro v rfl
  unfold releaseEvent
  rw [bind_apply_ok (tracee_apply rel v)]
  by_cases hpending : (v.heap rel).asPtracee.proot.pending = true
  · rw [if_pos hpending]
    have hproot : (v.heap rel).asPtracee.proot = ⟨(v.heap rel).asPtracee.proot.value, true⟩ := by
      rw [← hpending]
    refine Triple.bind (handleTraceeEvent_deferred s fuel h hrel (Set.notMem_empty rel) hproot)
      (fun signal => ?_) v rfl
    rintro v' ⟨horderly, halone, hsignal⟩
    have hreleased : (v.heap rel).released ↔
        (v.heap rel).asPtracer.waitPid = 0 ∧ signal ≠ -1 := by
      have hne : signal ≠ -1 := by omega
      simp [Tracee.released, hpending, hne]
    obtain ⟨v'', hrun, hdone⟩ := restart_resumed (s := s) horderly halone hreleased
    exact Triple.of_ok hrun hdone
  · rw [if_neg hpending]
    unfold when
    by_cases hevent : (v.heap rel).asPtracee.event.pending = true
    · rw [if_pos hevent]
      have hreleased : (v.heap rel).released ↔ (v.heap rel).asPtracer.waitPid = 0 ∧
          (v.heap rel).asPtracee.proot.value ≠ -1 := by
        simp [Tracee.released, hpending, hevent]
      obtain ⟨v', hrun, hdone⟩ := restart_resumed (s := s) h (Alone.refl rel v) hreleased
      exact Triple.of_ok hrun hdone
    · rw [if_neg hevent]
      refine Triple.of_ok (pure_apply () v) ⟨h, fun _ _ hr => hr, fun _ _ => rfl, rfl, rfl, rfl, [],
        rfl, List.forall_mem_nil _, fun _ => (if_neg ?_).symm⟩
      simp [Tracee.released, hpending, hevent]

/-- A relative without a ptracer gets a clean record as a ptracee. -/
theorem Orderly.reset (h : Orderly gone ∅ w) (hrel : rel ∈ w.tracees)
    (hfree : (w.heap rel).asPtracee.ptracer = none) :
    Orderly gone ∅ (w.update rel fun t => { t with asPtracee := {} }) := by
  have halive : (w.heap rel).asPtracee.isZombie = false := by
    have hlisted := h.linked.listed_alive rel hrel
    by_contra hne
    rw [h.linked.reported rel (by simpa using hne)] at hlisted
    cases hlisted
  refine h.of_kept (h.linked.update ?_ (fun p hp => h.linked.parent_lt rel p hp)
    (h.linked.sigstop rel)) fun q hq => ⟨hq, update_kept w ⟨rfl, rfl, rfl, rfl, Or.inr rfl⟩ q⟩
  simp [Tracee.links, hfree, halive]

/-- A relative of a dead tracee becomes an orphan, and is released if it was its ptracee. -/
theorem releaseRelative_spec (h : Orderly (some dead) ∅ w) (hrel : rel ∈ w.tracees) :
    Triple (fun v => v = w) (releaseRelative s (handleTraceeEvent s fuel) dead rel)
      (fun _ v => Orderly (some dead) ∅ v ∧ Released s dead [rel] w v) (Stops fuel) := by
  rintro v rfl
  let orphan : Tracee → Tracee := fun t =>
    { t with parent := if t.parent = some dead then none else t.parent }
  have hdead : dead ∉ v.tracees := (h.linked.gone_out dead rfl).1
  have horphan : Orderly (some dead) ∅ (v.update rel orphan) := by
    refine h.of_kept (h.linked.update rfl (fun p hp => ?_) (h.linked.sigstop rel))
      fun q hq => ⟨hq, update_kept v ⟨rfl, rfl, rfl, rfl, Or.inl rfl⟩ q⟩
    simp only [orphan] at hp
    split at hp
    · cases hp
    · exact h.linked.parent_lt rel p hp
  unfold releaseRelative
  rw [bind_apply_ok (update_apply ..), bind_apply_ok (tracee_apply ..), World.update_self]
  unfold when
  by_cases hptracer : (v.heap rel).asPtracee.ptracer = some dead
  · rw [if_pos (show (orphan (v.heap rel)).asPtracee.ptracer = some dead from hptracer)]
    let free : Tracee → Tracee := fun t =>
      { t with asPtracee := { t.asPtracee with ptracer := none } }
    have hfree : Orderly (some dead) ∅ ((v.update rel orphan).update rel free) := by
      refine horphan.of_kept (horphan.linked.unlink ?_ hrel hdead) fun q hq =>
        ⟨hq, update_kept _ ⟨rfl, rfl, rfl, rfl, Or.inl rfl⟩ q⟩
      rw [World.update_self]
      exact hptracer
    have hheap : ((v.update rel orphan).update rel free).heap rel = free (orphan (v.heap rel)) := by
      rw [World.update_self, World.update_self]
    rw [bind_apply_ok (update_apply ..)]
    refine Triple.bind (releaseEvent_spec (s := s) hfree hrel) (fun _ => ?_) _ rfl
    rintro v' ⟨horderly, hrecord, hothers, hnext, htracees, hties, hmarks⟩
    rw [hheap] at hties hmarks hrecord
    have hlost : (v'.heap rel).asPtracee.ptracer = none :=
      (congrArg (fun t => t.asPtracee.ptracer) hties :)
    refine Triple.of_ok (update_apply ..) ⟨horderly.reset (htracees ▸ hrel) hlost, ?_⟩
    refine ⟨fun q hq => ?_, hnext, htracees, fun q hq => ?_, ?_⟩
    · have hne : q ≠ rel := fun heq => hq (List.mem_singleton.mpr heq)
      rw [World.update_heap, if_neg hne, hothers q hne, World.update_heap, if_neg hne,
        World.update_heap, if_neg hne]
    · rw [List.mem_singleton.mp hq, World.update_self]
      refine ⟨fun Q hQ hr => ?_, (congrArg Tracee.parent hties :), (congrArg Tracee.terminated hties :),
        (congrArg Tracee.asPtracer hties :), (if_pos hptracer).symm⟩
      exact hQ.reset (hrecord Q hQ.toEndures (hQ.free (hQ.orphaned dead hr)))
    · obtain ⟨past, hpast, hall, hcount⟩ := hmarks
      refine ⟨past, hpast, fun c hc => (hall c hc).imp_right fun hr =>
        ⟨rel, List.mem_singleton_self rel, hr⟩, fun q haccepts => ?_⟩
      have hreleased : (free (orphan (v.heap rel))).released ↔ (v.heap rel).released := Iff.rfl
      by_cases hq : q = rel
      · rw [hq] at haccepts ⊢
        rw [hcount haccepts]
        simp only [hreleased, hptracer, true_and, List.mem_singleton]
      · rw [if_neg fun hboth => hq (List.mem_singleton.mp hboth.1)]
        exact restartsOf_other hall hq
  · rw [if_neg (show ¬(orphan (v.heap rel)).asPtracee.ptracer = some dead from hptracer)]
    refine Triple.of_ok (pure_apply ..) ⟨horphan, fun q hq => ?_, rfl, rfl, fun q hq => ?_, [], rfl,
      List.forall_mem_nil _, fun q _ => (if_neg ?_).symm⟩
    · rw [World.update_heap, if_neg fun heq => hq (List.mem_singleton.mpr heq)]
    · rw [List.mem_singleton.mp hq, World.update_self]
      exact ⟨fun Q hQ hr => hQ.orphaned dead hr, rfl, rfl, rfl, (if_neg hptracer).symm⟩
    · rintro ⟨hq, hboth, -⟩
      exact hptracer (List.mem_singleton.mp hq ▸ hboth)

/-- Releases compose along the list of relatives. -/
theorem Released.cons {rels : List Ref} {v v' : World} (h : Released s dead [rel] w v)
    (hrest : Released s dead rels v v') (hnew : rel ∉ rels) :
    Released s dead (rel :: rels) w v' := by
  have hsame : ∀ q ∈ rels, v.heap q = w.heap q := fun q hq =>
    h.others q fun hmem => hnew (List.mem_singleton.mp hmem ▸ hq)
  refine ⟨fun q hq => ?_, hrest.next.trans h.next, hrest.tracees.trans h.tracees, fun q hq => ?_, ?_⟩
  · rw [List.mem_cons, not_or] at hq
    rw [hrest.others q hq.2, h.others q fun hmem => hq.1 (List.mem_singleton.mp hmem)]
  · rcases List.mem_cons.mp hq with rfl | hmem
    · rw [hrest.others q hnew]
      exact h.bereft q (List.mem_singleton_self q)
    · rw [← hsame q hmem]
      exact hrest.bereft q hmem
  · obtain ⟨past, hpast, hall, hcount⟩ := h.marks
    obtain ⟨past', hpast', hall', hcount'⟩ := hrest.marks
    refine ⟨past' ++ past, by rw [hpast', hpast, List.append_assoc], fun c hc => ?_,
      fun q haccepts => ?_⟩
    · rcases List.mem_append.mp hc with hmem | hmem
      · exact (hall' c hmem).imp_right fun ⟨a, ha, hr⟩ => ⟨a, List.mem_cons_of_mem _ ha, hr⟩
      · refine (hall c hmem).imp_right fun ⟨a, ha, hr⟩ => ⟨a, ?_, hr⟩
        exact List.mem_cons.mpr (Or.inl (List.mem_singleton.mp ha))
    · have hpid : (v.heap q).pid = (w.heap q).pid := by
        by_cases hq : q ∈ [rel]
        · exact (h.bereft q hq).record _ (pid_outlives (w.heap q).pid) rfl
        · rw [h.others q hq]
      rw [restartsOf_append, hcount q haccepts, hcount' q (hpid ▸ haccepts)]
      by_cases hq : q = rel
      · simp [hq, hnew]
      · by_cases hmem : q ∈ rels
        · simp [hq, hmem, hsame q hmem]
        · simp [hq, hmem]

/-- The relatives of a dead tracee are released one after the other. -/
theorem releaseRelatives_spec {rels : List Ref} (h : Orderly (some dead) ∅ w)
    (hrels : ∀ q ∈ rels, q ∈ w.tracees) (hnodup : rels.Nodup) :
    Triple (fun v => v = w) (forEach (releaseRelative s (handleTraceeEvent s fuel) dead) rels)
      (fun _ v => Orderly (some dead) ∅ v ∧ Released s dead rels w v) (Stops fuel) := by
  induction rels generalizing w with
  | nil =>
    rintro v rfl
    refine Triple.of_ok (pure_apply () v) ⟨h, fun _ _ => rfl, rfl, rfl, List.forall_mem_nil _, [],
      rfl, List.forall_mem_nil _, fun q _ => ?_⟩
    simp [restartsOf]
  | cons rel rels ih =>
    obtain ⟨hnew, hnodup⟩ := List.nodup_cons.mp hnodup
    refine Triple.bind (releaseRelative_spec h (hrels rel List.mem_cons_self)) fun _ => ?_
    rintro v ⟨horderly, hreleased⟩
    have hlisted : ∀ q ∈ rels, q ∈ v.tracees := fun q hq =>
      hreleased.tracees ▸ hrels q (List.mem_cons_of_mem _ hq)
    refine (ih horderly hlisted hnodup).conseq (fun _ heq => heq) ?_ (fun _ _ h => h) v rfl
    exact fun _ v' ⟨horderly', hrest⟩ => ⟨horderly', hreleased.cons hrest hnew⟩

/-! ## Leaving the ptracer -/

/-- What a lone ptracer looks like after it was woken, or left as it is. -/
structure Woken (p : Ref) (w v : World) : Prop where
  idle : (w.heap p).asPtracer.waitPid = 0 → v = w
  record : ∀ Q, Outlives Q → Q (w.heap p) → Q (v.heap p)
  others : ∀ q, q ≠ p → v.heap q = w.heap q
  next : v.next = w.next
  tracees : v.tracees = w.tracees
  shape : ∃ waitPid, (v.heap p).shape =
    { (w.heap p).shape with asPtracer := { (w.heap p).shape.asPtracer with waitPid := waitPid } }
  event : (v.heap p).asPtracee.event = (w.heap p).asPtracee.event
  marks : ∃ past, v.marks = past ++ w.marks ∧
    ∀ c ∈ past, c.restarts p = true

/-- A ptracer may be left as it is. -/
theorem Woken.refl (p : Ref) (w : World) : Woken p w w :=
  ⟨fun _ => rfl, fun _ _ hp => hp, fun _ _ => rfl, rfl, rfl, ⟨_, rfl⟩, rfl, [], rfl,
    List.forall_mem_nil _⟩

/-- A ptracer that has nothing else to wait for is woken. -/
theorem wakeLonePtracer_spec (s : Setup) (p : Ref) (w : World) :
    ∃ v, wakeLonePtracer s p w = (.ok (), v) ∧ Woken p w v := by
  unfold wakeLonePtracer
  rw [bind_apply_ok (tracee_apply p w)]
  unfold when
  split
  · rename_i hparked
    obtain ⟨_, w₁, hpoke, hcore₁, hothers₁⟩ :=
      (poke_quiet s p .sysargResult (toWord s.target (-echild))).returns w
    obtain ⟨_, w₂, hpush, hcore₂, hothers₂⟩ := (pushRegs_quiet s p).returns w₁
    obtain ⟨b, w₃, hrun, hshape, hothers₃, hptracee, past, hpast, hrestarts, -⟩ :=
      restartTracee_spec s p 0
      (w₂.update p fun t => { t with asPtracer := { t.asPtracer with waitPid := 0 } })
    have hcore := hcore₂.trans hcore₁
    obtain ⟨hshape₂, hmarks₂⟩ := shape_of_core hcore
    obtain ⟨hheap₂, hnext₂, htracees₂⟩ := shape_eq_iff.mp hshape₂
    obtain ⟨hheap, hnext, htracees⟩ := shape_eq_iff.mp hshape
    refine ⟨w₃, ?_, fun hidle => absurd hidle hparked.2, fun Q hQ hp => ?_, fun q hq => ?_,
      hnext.trans hnext₂, htracees.trans htracees₂, ⟨0, ?_⟩, ?_, past, ?_, hrestarts⟩
    · rw [bind_apply_ok hpoke, bind_apply_ok hpush, bind_apply_ok (update_apply ..),
        bind_apply_ok hrun]
      rfl
    · refine hQ.own (Own.of_shape (hheap p)) ?_
      rw [World.update_self]
      exact hQ.tracer _ (hQ.own (Own.of_shape (hheap₂ p)) hp)
    · rw [hothers₃ q hq, World.update_heap, if_neg hq, hothers₂ q hq, hothers₁ q hq]
    · rw [hheap p, World.update_self, ← hheap₂ p]
      rfl
    · rw [hptracee, World.update_self]
      exact (congrArg (fun w => (w.heap p).asPtracee.event) hcore :)
    · rw [hpast, World.update_marks, hmarks₂]
  · exact ⟨w, rfl, Woken.refl p w⟩

/-- A world stays orderly when a ptracer is woken. -/
theorem Orderly.woken {p : Ref} {v : World} (h : Orderly gone ∅ w) (hv : Woken p w v) :
    Orderly gone ∅ v := by
  obtain ⟨waitPid, hshape⟩ := hv.shape
  have hfield : ∀ {α : Type} (f : Tracee → α), (∀ t, f { t.shape with
      asPtracer := { t.shape.asPtracer with waitPid := waitPid } } = f t) →
      (∀ t, f t.shape = f t) → ∀ q, f (v.heap q) = f (w.heap q) := by
    intro α f hwait hf q
    by_cases hq : q = p
    · rw [hq, ← hf, hshape, hwait]
    · rw [hv.others q hq]
  have hparent := hfield Tracee.parent (fun _ => rfl) fun _ => rfl
  have hsigstop := hfield Tracee.sigstop (fun _ => rfl) fun _ => rfl
  refine h.of_kept (h.linked.of_links (hfield Tracee.links (fun _ => rfl) fun _ => rfl) hv.next
    hv.tracees (fun r a ha => h.linked.parent_lt r a (hparent r ▸ ha))
    fun r => hsigstop r ▸ h.linked.sigstop r) fun q hq => ⟨hv.tracees ▸ hq, ?_⟩
  exact ⟨hfield Tracee.pid (fun _ => rfl) (fun _ => rfl) q,
    hfield Tracee.isRoot (fun _ => rfl) (fun _ => rfl) q,
    hfield Tracee.deliverSigtrap (fun _ => rfl) (fun _ => rfl) q,
    hfield Tracee.status (fun _ => rfl) (fun _ => rfl) q,
    Or.inl (hfield (fun t => t.asPtracee.proot) (fun _ => rfl) (fun _ => rfl) q)⟩

/-- A dead ptracee whose end its ptracer still has to be told about. -/
def Tracee.leavesZombie (t : Tracee) : Prop :=
  t.asPtracee.event.pending = true ∧
    (wifexited t.asPtracee.event.value = true ∨ wifsignaled t.asPtracee.event.value = true)

/-- How a dead ptracee leaves its ptracer. -/
inductive Left (dead p : Ref) (w : World) : World → Prop
  | zombie : (w.heap dead).leavesZombie → Left dead p w (w.zombified dead p)
  | lone {past : List Call} {v : World} : past.filter Call.isMark = w.marks →
      Woken p ({ w with calls := past }.detach dead p) v → Left dead p w v

/-- A dead ptracee leaves its ptracer. -/
theorem leavePtracer_spec {p : Ref} (h : Orderly (some dead) ∅ w)
    (hptracer : (w.heap dead).asPtracee.ptracer = some p) :
    ∃ v, leavePtracer s dead p w = (.ok (), v) ∧ Orderly none ∅ v ∧ Left dead p w v := by
  obtain ⟨-, hdead, halive⟩ := h.linked.gone_out dead rfl
  have hcount := h.linked.nbPtracees_pos hptracer
  have hlone : ∀ past : List Call, past.filter Call.isMark = w.marks →
      ∃ v, (do
        detachFromPtracer dead
        wakeLonePtracer s p) { w with calls := past } = (.ok (), v) ∧ Orderly none ∅ v ∧
        Left dead p w v := by
    intro past hpast
    have hlinked : Linked (some dead) { w with calls := past } := h.linked.of_shape rfl
    have hptracer' : (({ w with calls := past } : World).heap dead).asPtracee.ptracer = some p :=
      hptracer
    obtain ⟨v, hrun, hwoken⟩ := wakeLonePtracer_spec s p ({ w with calls := past }.detach dead p)
    have hgone : Linked none ({ w with calls := past }.detach dead p) :=
      hlinked.detach hptracer' halive (fun r hr => Or.inl (Option.some.inj hr).symm)
        fun d hd => nomatch hd
    have hdetached : Orderly none ∅ ({ w with calls := past }.detach dead p) :=
      h.of_kept hgone fun q hq => ⟨hq, detach_kept { w with calls := past } dead p q⟩
    refine ⟨v, ?_, hdetached.woken hwoken, .lone hpast hwoken⟩
    rw [bind_apply_ok (detachFromPtracer_apply hptracer' hcount)]
    exact hrun
  unfold leavePtracer
  rw [bind_apply_ok (tracee_apply dead w)]
  by_cases hends : ((w.heap dead).asPtracee.event.pending &&
      (wifexited (w.heap dead).asPtracee.event.value ||
        wifsignaled (w.heap dead).asPtracee.event.value)) = true
  · simp only [if_pos hends]
    rcases newDummyTracee_cases s w with hnone | hsome
    · rw [bind_apply_ok hnone]
      exact hlone (.alloc :: w.calls) rfl
    · rw [bind_apply_ok hsome]
      refine ⟨_, zombify_apply hdead (h.linked.ptracer_lt dead p hptracer).2 hptracer hcount, ?_,
        .zombie (by simpa [Tracee.leavesZombie] using hends)⟩
      refine h.of_kept (h.linked.zombified hptracer) fun q hq => ⟨hq, ?_⟩
      have hold : (w.zombified dead p).heap q = _ := if_neg (h.linked.listed_lt q hq).ne
      rw [hold]
      exact ⟨rfl, rfl, rfl, rfl, Or.inl rfl⟩
  · simp only [if_neg hends]
    exact hlone w.calls rfl

/-- What removing a tracee leaves. -/
inductive Removed (s : Setup) (dead : Ref) (w : World) : World → Prop
  | free {v : World} : Released s dead (w.tracees.erase dead)
      { w with tracees := w.tracees.erase dead } v →
      (w.heap dead).asPtracee.ptracer = none → Removed s dead w v
  | left {v v' : World} {p : Ref} : Released s dead (w.tracees.erase dead)
      { w with tracees := w.tracees.erase dead } v →
      (w.heap dead).asPtracee.ptracer = some p → Left dead p v v' → Removed s dead w v'

/-- A tracee is removed. -/
theorem removeTracee_spec (h : Orderly none ∅ w) (hdead : dead ∈ w.tracees) :
    Triple (fun v => v = w) (removeTracee s (handleTraceeEvent s fuel) dead)
      (fun _ v => Orderly none ∅ v ∧ Removed s dead w v) (Stops fuel) := by
  rintro v rfl
  have hunlisted : Orderly (some dead) ∅ { v with tracees := v.tracees.erase dead } :=
    h.of_kept (h.linked.unlist hdead) fun q hq => ⟨List.mem_of_mem_erase hq, Kept.refl _⟩
  have hout : dead ∉ v.tracees.erase dead := (hunlisted.linked.gone_out dead rfl).1
  unfold removeTracee
  rw [bind_apply_ok (modify_apply ..), bind_apply_ok (read_apply _)]
  refine Triple.bind (releaseRelatives_spec hunlisted (fun q hq => hq)
    (h.linked.nodup.erase dead)) (fun _ => ?_) _ rfl
  rintro w' ⟨horderly, hreleased⟩
  have hsame : w'.heap dead = v.heap dead := hreleased.others dead hout
  rw [bind_apply_ok (tracee_apply dead w'), hsame]
  cases hptracer : (v.heap dead).asPtracee.ptracer with
  | none =>
    refine Triple.of_ok (pure_apply () w') ⟨?_, .free hreleased hptracer⟩
    exact horderly.of_kept (horderly.linked.depart (hsame ▸ hptracer)) fun q hq => ⟨hq, Kept.refl _⟩
  | some p =>
    obtain ⟨v', hrun, horderly', hleft⟩ := leavePtracer_spec (s := s) horderly (hsame ▸ hptracer)
    exact Triple.of_ok hrun ⟨horderly', .left hreleased hptracer hleft⟩

/-- The list of tracees stays. -/
theorem Left.tracees {p : Ref} {v : World} (h : Left dead p w v) : v.tracees = w.tracees := by
  cases h with
  | zombie => rfl
  | lone _ hwoken => exact hwoken.tracees

/-- No record is lost. -/
theorem Left.next_le {p : Ref} {v : World} (h : Left dead p w v) : w.next ≤ v.next := by
  cases h with
  | zombie => exact Nat.le_succ _
  | lone _ hwoken => exact hwoken.next.ge

/-- The ptracer of a dead ptracee may get a zombie of it, but keeps its own relatives. -/
theorem Left.same {p : Ref} {v : World} (h : Left dead p w v) {q : Ref} (hq : q < w.next)
    (hne : q ≠ dead) :
    (v.heap q).parent = (w.heap q).parent ∧ (v.heap q).terminated = (w.heap q).terminated ∧
      (v.heap q).asPtracee.ptracer = (w.heap q).asPtracee.ptracer ∧
      (v.heap q).asPtracee.event = (w.heap q).asPtracee.event := by
  cases h with
  | zombie =>
    have hold : (w.zombified dead p).heap q = _ := if_neg hq.ne
    rw [hold, if_neg hne]
    exact ⟨rfl, rfl, rfl, rfl⟩
  | @lone past _ _ hwoken =>
    have hdetached : (({ w with calls := past }.detach dead p).heap q).asPtracee =
        (w.heap q).asPtracee := by
      rw [detach_heap, if_neg hne]
    have hties : (({ w with calls := past }.detach dead p).heap q).parent = (w.heap q).parent ∧
        (({ w with calls := past }.detach dead p).heap q).terminated = (w.heap q).terminated := by
      rw [detach_heap]
      exact ⟨rfl, rfl⟩
    by_cases hqp : q = p
    · obtain ⟨waitPid, hshape⟩ := hwoken.shape
      subst hqp
      refine ⟨(congrArg Tracee.parent hshape :).trans hties.1,
        (congrArg Tracee.terminated hshape :).trans hties.2, ?_, ?_⟩
      · have hptracer : (v.heap q).asPtracee.ptracer =
            (({ w with calls := past }.detach dead q).heap q).asPtracee.ptracer :=
          (congrArg (fun t => t.asPtracee.ptracer) hshape :)
        rw [hptracer, hdetached]
      · exact hwoken.event.trans (congrArg AsPtracee.event hdetached)
    · rw [hwoken.others q hqp, hdetached]
      exact ⟨hties.1, hties.2, rfl, rfl⟩

/-- The zombies of a tracee stay, but for the one of the dead ptracee. -/
theorem Left.zombies {p : Ref} {v : World} (h : Left dead p w v) {q : Ref} (hq : q < w.next) :
    (v.heap q).asPtracer.zombies = (w.heap q).asPtracer.zombies ∨
      q = p ∧ (w.heap dead).leavesZombie ∧
        (v.heap q).asPtracer.zombies = w.next :: (w.heap q).asPtracer.zombies ∧
        (v.heap w.next).parent = (w.heap dead).parent := by
  cases h with
  | zombie hends =>
    have hold : (w.zombified dead p).heap q = _ := if_neg hq.ne
    have hnew : (w.zombified dead p).heap w.next = _ := if_pos rfl
    rw [hold, hnew]
    by_cases hqp : q = p
    · exact Or.inr ⟨hqp, hends, if_pos hqp, rfl⟩
    · exact Or.inl (if_neg hqp)
  | @lone past _ _ hwoken =>
    have hdetached : (({ w with calls := past }.detach dead p).heap q).asPtracer.zombies =
        (w.heap q).asPtracer.zombies := by
      rw [detach_heap]
    left
    by_cases hqp : q = p
    · obtain ⟨waitPid, hshape⟩ := hwoken.shape
      subst hqp
      exact (congrArg (fun t => t.asPtracer.zombies) hshape :).trans hdetached
    · rw [hwoken.others q hqp]
      exact hdetached

/-- A removal frees nothing by itself. -/
theorem Left.freed {p : Ref} {v : World} (h : Left dead p w v) {q : Ref}
    (hq : Call.freed q ∈ v.marks) : Call.freed q ∈ w.marks := by
  cases h with
  | zombie =>
    have hmarks : (w.zombified dead p).marks = .created w.next :: w.marks := rfl
    rw [hmarks] at hq
    exact (List.mem_cons.mp hq).resolve_left nofun
  | lone hpast hwoken =>
    obtain ⟨past', hpast', hrestarts⟩ := hwoken.marks
    rw [hpast'] at hq
    rcases List.mem_append.mp hq with hmem | hmem
    · cases hrestarts _ hmem
    · exact hpast ▸ hmem

/-- Nobody is freed when ptracees are released. -/
theorem Released.freed {rels : List Ref} {v : World} (h : Released s dead rels w v) {q : Ref}
    (hq : Call.freed q ∈ v.marks) : Call.freed q ∈ w.marks := by
  obtain ⟨past, hpast, hall, -⟩ := h.marks
  rw [hpast] at hq
  rcases List.mem_append.mp hq with hmem | hmem
  · rcases hall _ hmem with hstop | ⟨_, -, hrestarts⟩
    · cases hstop
    · cases hrestarts
  · exact hmem

/-- A property that outlives a tracer is kept by every other record. -/
theorem Left.record {p : Ref} {v : World} (h : Left dead p w v) {q : Ref} (hq : q < w.next)
    (hne : q ≠ dead) {Q : Tracee → Prop} (hQ : Outlives Q) (ht : Q (w.heap q)) : Q (v.heap q) := by
  cases h with
  | zombie =>
    have hold : (w.zombified dead p).heap q = _ := if_neg hq.ne
    rw [hold, if_neg hne]
    exact hQ.tracer _ ht
  | @lone past _ _ hwoken =>
    have hdetached : Q (({ w with calls := past }.detach dead p).heap q) := by
      rw [detach_heap, if_neg hne]
      exact hQ.tracer _ ht
    by_cases hqp : q = p
    · rw [hqp] at hdetached ⊢
      exact hwoken.record Q hQ hdetached
    · rw [hwoken.others q hqp]
      exact hdetached

/-- So it is when ptracees are released. -/
theorem Released.record {rels : List Ref} {v : World} (h : Released s dead rels w v) (q : Ref)
    {Q : Tracee → Prop} (hQ : Outlives Q) (ht : Q (w.heap q)) : Q (v.heap q) := by
  by_cases hq : q ∈ rels
  · exact (h.bereft q hq).record Q hQ ht
  · rw [h.others q hq]
    exact ht

/-- The dead one is taken off the list of tracees. -/
theorem Removed.tracees {v : World} (h : Removed s dead w v) :
    v.tracees = w.tracees.erase dead := by
  cases h with
  | free hreleased => exact hreleased.tracees
  | left hreleased _ hleft => exact hleft.tracees.trans hreleased.tracees

section Fields

variable {v : World} {q : Ref}

/-- A relative that stays loses its pointers to the dead tracee, and nothing else of these. -/
structure Spared (dead : Ref) (t t' : Tracee) : Prop where
  parent : t'.parent = if t.parent = some dead then none else t.parent
  terminated : t'.terminated = t.terminated
  ptracer : t'.asPtracee.ptracer =
    if t.asPtracee.ptracer = some dead then none else t.asPtracee.ptracer
  leavesZombie : t'.leavesZombie → t.leavesZombie

/-- A tracee that is bereft of the dead one is spared. -/
theorem Bereft.spared {t t' : Tracee} (h : Bereft dead t t') : Spared dead t t' := by
  have hptracee := h.asPtracee
  refine ⟨h.parent, h.terminated, ?_, fun hends => ?_⟩
  · rw [hptracee]
    split <;> rfl
  · unfold Tracee.leavesZombie at hends ⊢
    rw [hptracee] at hends
    split at hends
    · cases hends.1
    · exact hends

/-- Every other tracee is spared. -/
theorem Removed.spared (h : Removed s dead w v) (hl : Linked none w) (hq : q ∈ w.tracees)
    (hne : q ≠ dead) : Spared dead (w.heap q) (v.heap q) := by
  have hrel : q ∈ w.tracees.erase dead := hl.nodup.mem_erase_iff.mpr ⟨hne, hq⟩
  cases h with
  | free hreleased => exact (hreleased.bereft q hrel).spared
  | left hreleased _ hleft =>
    obtain ⟨hparent, hterminated, hptracer, hends⟩ := (hreleased.bereft q hrel).spared
    obtain ⟨hparent', hterminated', hptracer', hevent⟩ :=
      hleft.same (hreleased.next.symm ▸ hl.listed_lt q hq) hne
    refine ⟨hparent'.trans hparent, hterminated'.trans hterminated, hptracer'.trans hptracer,
      fun h => hends ?_⟩
    unfold Tracee.leavesZombie at h ⊢
    rw [← hevent]
    exact h

/-- An unlisted record keeps its parent. -/
theorem Removed.unlisted (h : Removed s dead w v) (hdead : dead ∈ w.tracees) (hq : q < w.next)
    (hout : q ∉ w.tracees) : (v.heap q).parent = (w.heap q).parent := by
  have hrel : q ∉ w.tracees.erase dead := fun hmem => hout (List.mem_of_mem_erase hmem)
  have hne : q ≠ dead := fun heq => hout (heq ▸ hdead)
  cases h with
  | free hreleased => exact congrArg Tracee.parent (hreleased.others q hrel)
  | left hreleased _ hleft =>
    exact (hleft.same (hreleased.next.symm ▸ hq) hne).1.trans
      (congrArg Tracee.parent (hreleased.others q hrel))

/-- The zombies of a tracee that stays are its former ones, and perhaps one of the dead tracee. -/
theorem Removed.zombies (h : Removed s dead w v) (hl : Linked none w) (hq : q ∈ w.tracees) :
    (v.heap q).asPtracer.zombies = (w.heap q).asPtracer.zombies ∨
      (w.heap dead).asPtracee.ptracer = some q ∧ (w.heap dead).leavesZombie ∧
        (v.heap q).asPtracer.zombies = w.next :: (w.heap q).asPtracer.zombies ∧
        (v.heap w.next).parent = (w.heap dead).parent := by
  have hreleased : ∀ {v : World}, Released s dead (w.tracees.erase dead)
      { w with tracees := w.tracees.erase dead } v →
      (v.heap q).asPtracer.zombies = (w.heap q).asPtracer.zombies ∧ v.heap dead = w.heap dead := by
    intro v h
    refine ⟨?_, h.others dead fun hmem => (hl.nodup.mem_erase_iff.mp hmem).1 rfl⟩
    by_cases hrel : q ∈ w.tracees.erase dead
    · exact (congrArg AsPtracer.zombies (h.bereft q hrel).asPtracer :)
    · exact congrArg (fun t => t.asPtracer.zombies) (h.others q hrel)
  cases h with
  | free h => exact Or.inl (hreleased h).1
  | left h hptracer hleft =>
    obtain ⟨hzombies, hdead⟩ := hreleased h
    have hq' := hl.listed_lt q hq
    rw [← hzombies, ← hdead]
    rcases hleft.zombies (h.next.symm ▸ hq') with heq | ⟨rfl, hends, heq, hparent⟩
    · exact Or.inl heq
    · have hnext := h.next
      dsimp only at hnext
      rw [hnext] at heq hparent
      exact Or.inr ⟨(congrArg (fun t => t.asPtracee.ptracer) hdead).trans hptracer, hends, heq,
        hparent⟩

/-- Only the dead one may be freed. -/
theorem Removed.freed (h : Removed s dead w v) (hq : Call.freed q ∈ v.marks) :
    Call.freed q ∈ w.marks := by
  cases h with
  | free hreleased => exact hreleased.freed hq
  | left hreleased _ hleft => exact hreleased.freed (hleft.freed hq)

/-- No record is lost in a removal. -/
theorem Removed.next_le (h : Removed s dead w v) : w.next ≤ v.next := by
  cases h with
  | free hreleased => exact hreleased.next.ge
  | left hreleased _ hleft => exact hreleased.next.ge.trans hleft.next_le

end Fields

/-- What outlives a removal holds of the records that stay. -/
theorem Removed.record {v : World} (h : Removed s dead w v) {q : Ref} (hq : q < w.next)
    (hne : q ≠ dead) {Q : Tracee → Prop} (hQ : Outlives Q) (ht : Q (w.heap q)) : Q (v.heap q) := by
  cases h with
  | free hreleased => exact hreleased.record q hQ ht
  | left hreleased _ hleft =>
    exact hleft.record (hreleased.next.symm ▸ hq) hne hQ (hreleased.record q hQ ht)

/-! ## Freeing the terminated tracees -/

/-- A listed tracee is removed and freed. -/
theorem beforeTraceeFree_spec (h : Orderly none ∅ w) (hdead : dead ∈ w.tracees) :
    Triple (fun v => v = w) (beforeTraceeFree s (handleTraceeEvent s fuel) dead)
      (fun _ v' => ∃ v, v' = v.log (.freed dead) ∧ Orderly none ∅ v ∧ Removed s dead w v)
      (Stops fuel) := by
  rintro v rfl
  have halive : ¬(v.heap dead).isZombie = true := by
    simp [h.linked.listed_alive dead hdead]
  unfold beforeTraceeFree
  rw [bind_apply_ok (tracee_apply dead v), if_neg halive]
  refine Triple.bind (removeTracee_spec h hdead) (fun _ => Triple.modify ?_) v rfl
  exact fun v' hv' => ⟨v', rfl, hv'⟩

/-- What holds of a world and the tracees still to be looked at, and survives each removal, holds
when all terminated tracees are freed. -/
theorem freeTerminatedTracees_rule {I : List Ref → World → Prop}
    (hskip : ∀ r rest w, (w.heap r).terminated = false → I (r :: rest) w → I rest w)
    (hfree : ∀ r rest w v, Orderly none ∅ w → (r :: rest).Nodup → (∀ q ∈ r :: rest, q ∈ w.tracees) →
      (w.heap r).terminated = true → I (r :: rest) w → Orderly none ∅ v → Removed s r w v →
      I rest (v.log (.freed r))) :
    Triple (fun w => Orderly none ∅ w ∧ I w.tracees w)
      (freeTerminatedTracees s (handleTraceeEvent s fuel))
      (fun _ w => Orderly none ∅ w ∧ I [] w) (Stops fuel) := by
  have hloop : ∀ refs : List Ref, refs.Nodup → Triple
      (fun w => Orderly none ∅ w ∧ (∀ q ∈ refs, q ∈ w.tracees) ∧ I refs w)
      (forEach (fun r => do
        let t ← tracee r
        when t.terminated (beforeTraceeFree s (handleTraceeEvent s fuel) r)) refs)
      (fun _ w => Orderly none ∅ w ∧ I [] w) (Stops fuel) := by
    intro refs
    induction refs with
    | nil => exact fun _ => Triple.pure fun _ hw => ⟨hw.1, hw.2.2⟩
    | cons r rest ih =>
      intro hnodup
      obtain ⟨hnew, hnodup'⟩ := List.nodup_cons.mp hnodup
      refine Triple.bind (M := fun _ w => Orderly none ∅ w ∧ (∀ q ∈ rest, q ∈ w.tracees) ∧
        I rest w) (Triple.tracee_bind fun t => Triple.ite (fun hdead => ?_) fun halive => ?_)
        fun _ => ih hnodup'
      · rintro w ⟨⟨horderly, hlisted, hI⟩, rfl⟩
        refine (beforeTraceeFree_spec horderly (hlisted r List.mem_cons_self)).conseq
          (fun _ heq => heq) ?_ (fun _ _ h => h) w rfl
        rintro _ _ ⟨v, rfl, hv, hremoved⟩
        refine ⟨hv.of_shape rfl, fun q hq => ?_,
          hfree r rest w v horderly hnodup hlisted hdead hI hv hremoved⟩
        rw [World.log_tracees, hremoved.tracees]
        have hne : q ≠ r := fun heq => hnew (heq ▸ hq)
        exact (List.mem_erase_of_ne hne).mpr (hlisted q (List.mem_cons_of_mem _ hq))
      · refine Triple.pure ?_
        rintro w ⟨⟨horderly, hlisted, hI⟩, rfl⟩
        exact ⟨horderly, fun q hq => hlisted q (List.mem_cons_of_mem _ hq),
          hskip r rest w (by simpa using halive) hI⟩
  unfold freeTerminatedTracees
  refine Triple.read_bind ?_
  rintro w ⟨horderly, hI⟩ v rfl
  exact hloop v.tracees horderly.linked.nodup v ⟨horderly, fun _ hq => hq, hI⟩

end Release

end Abyss
