import Abyss.Ptrace.Accounting

/-!
# Pointers to freed tracees

The removal of a tracee takes it out of the parents and ptracers of the listed tracees, but not
out of the parents of zombies. A zombie therefore keeps a pointer to a parent that was freed, and
so does one that is made for a tracee whose parent is freed in the same round. Where neither
happens, every pointer of an allocated record is to a listed tracee.
-/

namespace Abyss

open Machine

variable {s : Setup} {fuel : ℕ} {w w' : World}

/-- A record that is listed, or kept as a zombie by a listed tracee. -/
def Allocated (w : World) (r : Ref) : Prop :=
  r ∈ w.tracees ∨ ∃ R ∈ w.tracees, r ∈ (w.heap R).asPtracer.zombies

/-- The parent and the ptracer of an allocated record are listed, and it was not freed. -/
structure NoDangling (w : World) : Prop where
  parent : ∀ r, Allocated w r → ∀ p, (w.heap r).parent = some p → p ∈ w.tracees
  ptracer : ∀ r, Allocated w r → ∀ p, (w.heap r).asPtracee.ptracer = some p → p ∈ w.tracees
  freed : ∀ r, Allocated w r → Call.freed r ∉ w.calls

/-- Only records that were created have been freed. -/
def FreedBelow (w : World) : Prop := ∀ r, Call.freed r ∈ w.calls → r < w.next

/-- No pointer dangles, and this is not by accident. -/
def Sound (w : World) : Prop := NoDangling w ∧ FreedBelow w

/-- That a tracee was freed is a mark. -/
theorem freed_mem_marks (w : World) (r : Ref) : Call.freed r ∈ w.marks ↔ Call.freed r ∈ w.calls := by
  simp [World.marks, Call.isMark]

/-! ## What keeps pointers sound -/

/-- Nothing is allocated anew, and pointers stay, go, or are to listed tracees. -/
structure Shrinks (w w' : World) : Prop where
  tracees : ∀ r, r ∈ w'.tracees ↔ r ∈ w.tracees
  zombies : ∀ R, ∀ z ∈ (w'.heap R).asPtracer.zombies, z ∈ (w.heap R).asPtracer.zombies
  parent : ∀ r p, (w'.heap r).parent = some p → (w.heap r).parent = some p ∨ p ∈ w.tracees
  ptracer : ∀ r p, (w'.heap r).asPtracee.ptracer = some p →
    (w.heap r).asPtracee.ptracer = some p ∨ p ∈ w.tracees
  freed : ∀ r, Call.freed r ∈ w'.calls → Call.freed r ∈ w.calls ∨ ¬Allocated w' r ∧ r < w.next
  next : w.next ≤ w'.next

/-- A tracee that is allocated has been allocated before. -/
theorem Shrinks.allocated (h : Shrinks w w') {r : Ref} (hr : Allocated w' r) : Allocated w r := by
  rcases hr with hlisted | ⟨R, hR, hz⟩
  · exact Or.inl ((h.tracees r).mp hlisted)
  · exact Or.inr ⟨R, (h.tracees R).mp hR, h.zombies R r hz⟩

/-- Pointers stay sound when none is added. -/
theorem Sound.shrinks (hs : Sound w) (h : Shrinks w w') : Sound w' := by
  obtain ⟨hd, hbelow⟩ := hs
  refine ⟨⟨fun r hr p hp => ?_, fun r hr p hp => ?_, fun r hr hf => ?_⟩, fun r hr => ?_⟩
  · exact (h.tracees p).mpr ((h.parent r p hp).elim (hd.parent r (h.allocated hr) p) id)
  · exact (h.tracees p).mpr ((h.ptracer r p hp).elim (hd.ptracer r (h.allocated hr) p) id)
  · rcases h.freed r hf with hf | ⟨hnot, -⟩
    · exact hd.freed r (h.allocated hr) hf
    · exact hnot hr
  · rcases h.freed r hr with hf | ⟨-, hlt⟩
    · exact (hbelow r hf).trans_le h.next
    · exact hlt.trans_le h.next

/-- A change of records that keeps the zombies, and sets pointers to listed tracees only. -/
theorem Shrinks.of_heap (hnext : w'.next = w.next) (htracees : w'.tracees = w.tracees)
    (hfreed : ∀ r, Call.freed r ∈ w'.calls → Call.freed r ∈ w.calls)
    (hheap : ∀ r, (w'.heap r).asPtracer.zombies = (w.heap r).asPtracer.zombies ∧
      ((w'.heap r).parent = (w.heap r).parent ∨ ∃ p ∈ w.tracees, (w'.heap r).parent = some p) ∧
      ((w'.heap r).asPtracee.ptracer = (w.heap r).asPtracee.ptracer ∨
        (w'.heap r).asPtracee.ptracer = none ∨
        ∃ p ∈ w.tracees, (w'.heap r).asPtracee.ptracer = some p)) : Shrinks w w' := by
  refine ⟨fun r => by rw [htracees], fun R z hz => (hheap R).1 ▸ hz, fun r p hp => ?_,
    fun r p hp => ?_, fun r hr => Or.inl (hfreed r hr), hnext.ge⟩
  · rcases (hheap r).2.1 with heq | ⟨a, ha, heq⟩
    · exact Or.inl (heq ▸ hp)
    · obtain rfl : a = p := Option.some.inj (heq.symm.trans hp)
      exact Or.inr ha
  · rcases (hheap r).2.2 with heq | heq | ⟨a, ha, heq⟩
    · exact Or.inl (heq ▸ hp)
    · rw [heq] at hp
      cases hp
    · obtain rfl : a = p := Option.some.inj (heq.symm.trans hp)
      exact Or.inr ha

/-- A change of one record that keeps its pointers. -/
theorem Shrinks.update {r : Ref} {f : Tracee → Tracee}
    (hzombies : (f (w.heap r)).asPtracer.zombies = (w.heap r).asPtracer.zombies)
    (hparent : (f (w.heap r)).parent = (w.heap r).parent ∨
      ∃ p ∈ w.tracees, (f (w.heap r)).parent = some p)
    (hptracer : (f (w.heap r)).asPtracee.ptracer = (w.heap r).asPtracee.ptracer) :
    Shrinks w (w.update r f) := by
  refine .of_heap rfl rfl (fun _ h => h) fun q => ?_
  rw [World.update_heap]
  split
  · subst q
    exact ⟨hzombies, hparent, Or.inl hptracer⟩
  · exact ⟨rfl, Or.inl rfl, Or.inl rfl⟩

/-- To attach a tracee to a listed one only adds a pointer to it. -/
theorem Shrinks.attach {q p : Ref} (hp : p ∈ w.tracees) : Shrinks w (w.attach q p) := by
  refine .of_heap rfl rfl (fun _ h => h) fun r => ?_
  rw [attach_heap]
  refine ⟨rfl, Or.inl rfl, ?_⟩
  by_cases hr : r = q
  · exact Or.inr (Or.inr ⟨p, hp, by simp [hr]⟩)
  · exact Or.inl (by simp [hr])

/-- To detach a tracee adds no pointer. -/
theorem Shrinks.detach (w : World) (q p : Ref) : Shrinks w (w.detach q p) := by
  refine .of_heap rfl rfl (fun _ h => h) fun r => ?_
  rw [detach_heap]
  refine ⟨rfl, Or.inl rfl, ?_⟩
  by_cases hr : r = q
  · exact Or.inr (Or.inl (by simp [hr]))
  · exact Or.inl (by simp [hr])

/-- A world of the same shape and marks has the same pointers. -/
theorem Shrinks.of_shape (hshape : w'.shape = w.shape) (hmarks : w'.marks = w.marks) :
    Shrinks w w' := by
  obtain ⟨hheap, hnext, htracees⟩ := shape_eq_iff.mp hshape
  refine .of_heap hnext htracees (fun r hr => ?_) fun r => ⟨?_, Or.inl ?_, Or.inl ?_⟩
  · rw [← freed_mem_marks, ← hmarks, freed_mem_marks]
    exact hr
  · exact Tracee.of_shape (hheap r) (fun t => t.asPtracer.zombies) fun _ => rfl
  · exact Tracee.of_shape (hheap r) Tracee.parent fun _ => rfl
  · exact Tracee.of_shape (hheap r) (fun t => t.asPtracee.ptracer) fun _ => rfl

/-- Nor does a call that frees nothing. -/
theorem Shrinks.log {c : Call} (hc : ∀ q, c ≠ .freed q) : Shrinks w (w.log c) := by
  refine .of_heap rfl rfl (fun r hr => ?_) fun _ => ⟨rfl, Or.inl rfl, Or.inl rfl⟩
  exact (List.mem_cons.mp hr).resolve_left fun heq => hc r heq.symm

/-- Nor does a change of a single record. -/
theorem Solo.shrinks {r : Ref} (h : Solo r w w') : Shrinks w w' := by
  cases h with
  | still hshape hmarks => exact .of_shape hshape hmarks
  | @mark c hc => exact .log fun q heq => by simp [heq, Call.isStopMark] at hc
  | own hown =>
    exact .update (Tracee.of_links hown.links (fun t => t.asPtracer.zombies) fun _ => rfl)
      (Or.inl hown.parent) (Tracee.of_links hown.links (fun t => t.asPtracee.ptracer) fun _ => rfl)
  | detect =>
    obtain ⟨hlinks, hparent, -⟩ := detectSeccomp_same (w.heap r)
    exact .update (Tracee.of_links hlinks (fun t => t.asPtracer.zombies) fun _ => rfl)
      (Or.inl hparent) (Tracee.of_links hlinks (fun t => t.asPtracee.ptracer) fun _ => rfl)
  | @settle supported =>
    obtain ⟨hlinks, hparent, -⟩ := detectSeccomp_same
      { w.heap r with deliverSigtrap := true, seccompEnabled := supported }
    exact .update (Tracee.of_links hlinks (fun t => t.asPtracer.zombies) fun _ => rfl)
      (Or.inl hparent) (Tracee.of_links hlinks (fun t => t.asPtracee.ptracer) fun _ => rfl)

/-- A reaped zombie is in no list any more. -/
theorem Shrinks.reap {gone : Option Ref} (h : Linked gone w) {z p : Ref}
    (hz : z ∈ (w.heap p).asPtracer.zombies) :
    Shrinks w (((w.detach z p).bury z).log (.freed z)) := by
  have hzombies : ∀ R, ((((w.detach z p).bury z).log (.freed z)).heap R).asPtracer.zombies =
      (w.heap R).asPtracer.zombies.erase z := fun R => by
    simp only [World.log_heap, World.bury, detach_heap]
  obtain ⟨hlt, hdead, -⟩ := h.zombie p z hz
  have hdetach := Shrinks.detach w z p
  refine ⟨fun _ => Iff.rfl, fun R a ha => ?_, hdetach.parent, hdetach.ptracer, fun r hr => ?_,
    le_rfl⟩
  · rw [hzombies] at ha
    exact List.mem_of_mem_erase ha
  · rcases List.mem_cons.mp hr with heq | hr
    · obtain rfl : r = z := Call.freed.inj heq
      refine Or.inr ⟨?_, hlt⟩
      rintro (hlisted | ⟨R, -, hmem⟩)
      · have halive := h.listed_alive r hlisted
        rw [hdead] at halive
        cases halive
      · rw [hzombies] at hmem
        exact ((h.zombies_nodup R).mem_erase_iff.mp hmem).1 rfl
    · exact Or.inl hr

/-- Nor does a report to a ptracer. -/
theorem Report.shrinks {gone : Option Ref} (hl : Linked gone w) (h : Report w w') :
    Shrinks w w' := by
  cases h with
  | still hshape hmarks => exact .of_shape hshape hmarks
  | mark hc => exact .log hc
  | @wait p _ f hf =>
    have hfield : ∀ {α : Type} (g : Tracee → α), (∀ t, g t.shape = g t) →
        (∀ t pid, g { t with asPtracer := { t.asPtracer with waitPid := pid } } = g t) →
        g (f (w.heap p)) = g (w.heap p) := fun g hg hwait => by
      rw [← hg, hf, hwait, hg]
    exact .update (hfield (fun t => t.asPtracer.zombies) (fun _ => rfl) fun _ _ => rfl)
      (Or.inl (hfield Tracee.parent (fun _ => rfl) fun _ _ => rfl))
      (hfield (fun t => t.asPtracee.ptracer) (fun _ => rfl) fun _ _ => rfl)
  | detach => exact .detach w _ _
  | reap hz => exact .reap hl hz

/-- A new record has no pointers, and was not freed. -/
theorem Sound.create (h : Sound w) (pid : ℤ) : Sound (w.create pid) := by
  obtain ⟨hd, hbelow⟩ := h
  have hfreed : ∀ r, Call.freed r ∈ (w.create pid).calls → Call.freed r ∈ w.calls := fun r hr =>
    (List.mem_cons.mp hr).resolve_left nofun
  have hnew : (w.create pid).heap w.next = { pid := pid, vpid := w.nextVpid } := by
    rw [create_heap, if_pos rfl]
  have hold : ∀ r, r ≠ w.next → (w.create pid).heap r = w.heap r := fun r hr => by
    rw [create_heap, if_neg hr]
  have hallocated : ∀ r, Allocated (w.create pid) r → r = w.next ∨ r ≠ w.next ∧ Allocated w r := by
    intro r hr
    by_cases hne : r = w.next
    · exact Or.inl hne
    · refine Or.inr ⟨hne, ?_⟩
      rcases hr with hlisted | ⟨R, hR, hz⟩
      · exact Or.inl ((List.mem_cons.mp hlisted).resolve_left hne)
      · by_cases hRn : R = w.next
        · rw [hRn, hnew] at hz
          cases hz
        · rw [hold R hRn] at hz
          exact Or.inr ⟨R, (List.mem_cons.mp hR).resolve_left hRn, hz⟩
  refine ⟨⟨fun r hr p hp => ?_, fun r hr p hp => ?_, fun r hr hf => ?_⟩,
    fun r hr => Nat.lt_succ_of_lt (hbelow r (hfreed r hr))⟩
  · rcases hallocated r hr with rfl | ⟨hne, hr⟩
    · rw [hnew] at hp
      cases hp
    · rw [hold r hne] at hp
      exact List.mem_cons_of_mem _ (hd.parent r hr p hp)
  · rcases hallocated r hr with rfl | ⟨hne, hr⟩
    · rw [hnew] at hp
      cases hp
    · rw [hold r hne] at hp
      exact List.mem_cons_of_mem _ (hd.ptracer r hr p hp)
  · rcases hallocated r hr with rfl | ⟨-, hr⟩
    · exact lt_irrefl _ (hbelow _ (hfreed _ hf))
    · exact hd.freed r hr (hfreed r hf)

/-- Handling an event keeps pointers sound. -/
theorem sound_survives : Survives Sound := by
  rintro r w w' hr ⟨gone, hl⟩ hs hc
  cases hc with
  | solo hc => exact hs.shrinks hc.shrinks
  | report hc => exact hs.shrinks (hc.shrinks hl)
  | terminate => exact hs.shrinks (.update rfl (Or.inl rfl) rfl)
  | hush => exact hs.shrinks (.update rfl (Or.inl rfl) rfl)
  | attach => exact hs.shrinks (.attach hr)
  | traceme _ hparent =>
    exact (hs.shrinks (.attach (hs.1.parent r (Or.inl hr) _ hparent))).shrinks
      (.update rfl (Or.inl rfl) rfl)
  | inherit _ _ hptracer => exact hs.shrinks (.attach (hs.1.ptracer r (Or.inl hr) _ hptracer))
  | create => exact hs.create _
  | adopt _ hnone =>
    refine hs.shrinks (.update rfl ?_ rfl)
    simp only [inherit]
    split
    · cases hparent : (w.heap r).parent with
      | none => exact Or.inl hnone.symm
      | some p => exact Or.inr ⟨p, hs.1.parent r (Or.inl hr) p hparent, rfl⟩
    · exact Or.inr ⟨r, hr, rfl⟩

/-- Soundness survives a round, except for the removal of tracees. -/
theorem Sound.lasting : Lasting Sound where
  survives := sound_survives
  still hshape hmarks hs := hs.shrinks (.of_shape hshape hmarks)
  defers hf hs := by
    refine hs.shrinks (.update ?_ (Or.inl ?_) ?_)
    · exact hf.field _ (fun t => t.asPtracer.zombies) (fun _ _ => rfl) fun _ => rfl
    · exact hf.field _ Tracee.parent (fun _ _ => rfl) fun _ => rfl
    · exact hf.field _ (fun t => t.asPtracee.ptracer) (fun _ _ => rfl) fun _ => rfl
  create pid _ hs := hs.create pid
  rooted _ _ _ _ hs := hs.shrinks (.update rfl (Or.inl rfl) rfl)

/-! ## Freeing the terminated tracees -/

/-- The next removals leave no zombie with a parent that is freed: neither a zombie of a tracee
that stays has a terminated parent, nor does a terminated tracee that leaves a zombie to one,
unless that parent is removed before it. -/
def Repairable (w : World) : Prop :=
  ∀ p ∈ w.tracees, (w.heap p).terminated = true →
    ∀ R ∈ w.tracees, (w.heap R).terminated = false →
      (∀ z ∈ (w.heap R).asPtracer.zombies, (w.heap z).parent ≠ some p) ∧
      ∀ d ∈ w.tracees, (w.heap d).terminated = true → (w.heap d).leavesZombie →
        (w.heap d).asPtracee.ptracer = some R → (w.heap d).parent = some p →
        [p, d].Sublist w.tracees

/-- What holds while the terminated tracees among `refs` are still to be removed. -/
structure Repairing (refs : List Ref) (w : World) : Prop where
  below : FreedBelow w
  parent : ∀ r ∈ w.tracees, ∀ p, (w.heap r).parent = some p → p ∈ w.tracees
  ptracer : ∀ r ∈ w.tracees, ∀ p, (w.heap r).asPtracee.ptracer = some p → p ∈ w.tracees
  freed : ∀ r, Allocated w r → Call.freed r ∉ w.calls
  rest : ∀ r ∈ w.tracees, (w.heap r).terminated = true → r ∈ refs
  zombies : ∀ R ∈ w.tracees, (w.heap R).terminated = false → ∀ z ∈ (w.heap R).asPtracer.zombies,
    ∀ p, (w.heap z).parent = some p → p ∈ w.tracees ∧ (w.heap p).terminated = false
  order : ∀ d ∈ w.tracees, (w.heap d).terminated = true → (w.heap d).leavesZombie →
    ∀ R, (w.heap d).asPtracee.ptracer = some R → (w.heap R).terminated = false →
    ∀ p, (w.heap d).parent = some p → (w.heap p).terminated = true → [p, d].Sublist refs

/-- At the start of a removal all tracees are still to be repaired. -/
theorem Repairing.start (hs : Sound w) (h : Repairable w) : Repairing w.tracees w := by
  obtain ⟨hd, hbelow⟩ := hs
  refine ⟨hbelow, fun r hr => hd.parent r (Or.inl hr), fun r hr => hd.ptracer r (Or.inl hr),
    hd.freed, fun r hr _ => hr, fun R hR hlive z hz p hp => ?_,
    fun d hd' hdead hends R hR hlive p hp hpdead => ?_⟩
  · have hlisted := hd.parent z (Or.inr ⟨R, hR, hz⟩) p hp
    refine ⟨hlisted, ?_⟩
    by_contra hne
    exact (h p hlisted (by simpa using hne) R hR hlive).1 z hz hp
  · exact (h p (hd.parent d (Or.inl hd') p hp) hpdead R (hd.ptracer d (Or.inl hd') R hR) hlive).2
      d hd' hdead hends hR hp

/-- A tracee that has not terminated is passed over. -/
theorem Repairing.skip {r : Ref} {rest : List Ref} (hlive : (w.heap r).terminated = false)
    (h : Repairing (r :: rest) w) : Repairing rest w := by
  refine ⟨h.below, h.parent, h.ptracer, h.freed, fun q hq hdead => ?_, h.zombies,
    fun d hd hdead hends R hR hlive' p hp hpdead => ?_⟩
  · refine (List.mem_cons.mp (h.rest q hq hdead)).resolve_left ?_
    rintro rfl
    rw [hlive] at hdead
    cases hdead
  · cases h.order d hd hdead hends R hR hlive' p hp hpdead with
    | cons _ hsub => exact hsub
    | cons_cons =>
      rw [hlive] at hpdead
      cases hpdead

/-- When all of them are removed, no pointer dangles. -/
theorem Repairing.finish {gone : Option Ref} (hl : Linked gone w) (h : Repairing [] w) :
    Sound w := by
  have hlive : ∀ R ∈ w.tracees, (w.heap R).terminated = false := fun R hR => by
    by_contra hne
    exact absurd (h.rest R hR (by simpa using hne)) List.not_mem_nil
  refine ⟨⟨fun r hr p hp => ?_, fun r hr p hp => ?_, h.freed⟩, h.below⟩
  · rcases hr with hlisted | ⟨R, hR, hz⟩
    · exact h.parent r hlisted p hp
    · exact (h.zombies R hR (hlive R hR) r hz p hp).1
  · rcases hr with hlisted | ⟨R, hR, hz⟩
    · exact h.ptracer r hlisted p hp
    · obtain ⟨-, -, -, hptracer⟩ := hl.zombie R r hz
      obtain rfl : R = p := Option.some.inj (hptracer.symm.trans hp)
      exact hR

/-- A removal keeps the tracees sound, and the zombies of those that stay. -/
theorem Repairing.step {r : Ref} {rest : List Ref} {v : World} (ho : Orderly none ∅ w)
    (hnodup : (r :: rest).Nodup) (hr : r ∈ w.tracees) (hdead : (w.heap r).terminated = true)
    (h : Repairing (r :: rest) w) (hremoved : Removed s r w v) :
    Repairing rest (v.log (.freed r)) := by
  have hl := ho.linked
  have hlisted : ∀ {q}, q ∈ v.tracees ↔ q ≠ r ∧ q ∈ w.tracees := by
    intro q
    rw [hremoved.tracees]
    exact hl.nodup.mem_erase_iff
  have hspared : ∀ {q}, q ∈ v.tracees → Spared r (w.heap q) (v.heap q) := fun hq =>
    hremoved.spared hl (hlisted.mp hq).2 (hlisted.mp hq).1
  have hparent : ∀ {q p}, q ∈ v.tracees → (v.heap q).parent = some p →
      p ≠ r ∧ (w.heap q).parent = some p := by
    intro q p hq hp
    rw [(hspared hq).parent] at hp
    split at hp
    · cases hp
    · rename_i hne
      exact ⟨fun heq => hne (heq ▸ hp), hp⟩
  have hptracer : ∀ {q p}, q ∈ v.tracees → (v.heap q).asPtracee.ptracer = some p →
      p ≠ r ∧ (w.heap q).asPtracee.ptracer = some p := by
    intro q p hq hp
    rw [(hspared hq).ptracer] at hp
    split at hp
    · cases hp
    · rename_i hne
      exact ⟨fun heq => hne (heq ▸ hp), hp⟩
  have hzombies : ∀ {R z}, R ∈ v.tracees → z ∈ (v.heap R).asPtracer.zombies →
      z ∈ (w.heap R).asPtracer.zombies ∨ z = w.next ∧
        (w.heap r).asPtracee.ptracer = some R ∧ (w.heap r).leavesZombie ∧
        (v.heap w.next).parent = (w.heap r).parent := by
    intro R z hR hz
    rcases hremoved.zombies hl (hlisted.mp hR).2 with heq | ⟨hptracer, hends, heq, hparent⟩
    · exact Or.inl (heq ▸ hz)
    · rw [heq] at hz
      exact (List.mem_cons.mp hz).elim (fun hz => Or.inr ⟨hz, hptracer, hends, hparent⟩) Or.inl
  have hfreed : ∀ {q}, Call.freed q ∈ v.calls → Call.freed q ∈ w.calls := by
    intro q hq
    rw [← freed_mem_marks] at hq ⊢
    exact hremoved.freed hq
  have hunlisted : ∀ {R z}, z ∈ (w.heap R).asPtracer.zombies → z ∉ w.tracees := by
    intro R z hz hlisted
    have halive := hl.listed_alive z hlisted
    rw [(hl.zombie R z hz).2.1] at halive
    cases halive
  have hterminated : ∀ {q}, q ∈ v.tracees → (v.heap q).terminated = (w.heap q).terminated :=
    fun hq => (hspared hq).terminated
  refine ⟨fun q hq => ?_, fun q hq p hp => ?_, fun q hq p hp => ?_, fun q hq hf => ?_,
    fun q hq hqdead => ?_, fun R hR hlive z hz p hp => ?_,
    fun d hd hddead hends R hR hlive p hp hpdead => ?_⟩
  · rcases List.mem_cons.mp hq with heq | hq
    · obtain rfl : q = r := Call.freed.inj heq
      exact (hl.listed_lt q hr).trans_le hremoved.next_le
    · exact (h.below q (hfreed hq)).trans_le hremoved.next_le
  · obtain ⟨hne, hp⟩ := hparent hq hp
    exact hlisted.mpr ⟨hne, h.parent q (hlisted.mp hq).2 p hp⟩
  · obtain ⟨hne, hp⟩ := hptracer hq hp
    exact hlisted.mpr ⟨hne, h.ptracer q (hlisted.mp hq).2 p hp⟩
  · have hallocated : q ≠ r ∧ (Allocated w q ∨ q = w.next) := by
      rcases hq with hq | ⟨R, hR, hz⟩
      · exact ⟨(hlisted.mp hq).1, Or.inl (Or.inl (hlisted.mp hq).2)⟩
      · rcases hzombies hR hz with hz | ⟨rfl, -⟩
        · exact ⟨fun heq => hunlisted hz (heq ▸ hr), Or.inl (Or.inr ⟨R, (hlisted.mp hR).2, hz⟩)⟩
        · exact ⟨fun heq => lt_irrefl _ (heq ▸ hl.listed_lt r hr), Or.inr rfl⟩
    have hold := hfreed ((List.mem_cons.mp hf).resolve_left fun heq =>
      hallocated.1 (Call.freed.inj heq))
    rcases hallocated.2 with hq | rfl
    · exact h.freed q hq hold
    · exact lt_irrefl _ (h.below _ hold)
  · rw [World.log_heap, hterminated hq] at hqdead
    exact (List.mem_cons.mp (h.rest q (hlisted.mp hq).2 hqdead)).resolve_left (hlisted.mp hq).1
  · rw [World.log_heap, hterminated hR] at hlive
    have hstays : ∀ {p}, p ∈ w.tracees → (w.heap p).terminated = false →
        p ∈ v.tracees ∧ (v.heap p).terminated = false := by
      intro p hp hplive
      have hpv : p ∈ v.tracees := hlisted.mpr ⟨fun heq => by simp [heq, hdead] at hplive, hp⟩
      exact ⟨hpv, (hterminated hpv).trans hplive⟩
    rcases hzombies hR hz with hz | ⟨rfl, htracer, hends, hsame⟩
    · rw [World.log_heap, hremoved.unlisted hr (hl.zombie R z hz).1 (hunlisted hz)] at hp
      obtain ⟨hp, hplive⟩ := h.zombies R (hlisted.mp hR).2 hlive z hz p hp
      exact hstays hp hplive
    · rw [World.log_heap, hsame] at hp
      refine hstays (h.parent r hr p hp) ?_
      by_contra hpdead
      -- The parent would have been removed before, and is not.
      have hsub := h.order r hr hdead hends R htracer hlive p hp (by simpa using hpdead)
      refine (List.nodup_cons.mp hnodup).1 ?_
      cases hsub with
      | cons _ hsub => exact hsub.subset (by simp)
      | cons_cons _ hsub => exact hsub.subset (by simp)
  · obtain ⟨hRr, hR⟩ := hptracer hd hR
    obtain ⟨hpr, hp⟩ := hparent hd hp
    have hRv := hlisted.mpr ⟨hRr, h.ptracer d (hlisted.mp hd).2 R hR⟩
    have hpv := hlisted.mpr ⟨hpr, h.parent d (hlisted.mp hd).2 p hp⟩
    rw [World.log_heap, hterminated hd] at hddead
    rw [World.log_heap, hterminated hRv] at hlive
    rw [World.log_heap, hterminated hpv] at hpdead
    cases h.order d (hlisted.mp hd).2 hddead ((hspared hd).leavesZombie hends) R hR hlive p hp
      hpdead with
    | cons _ hsub => exact hsub
    | cons_cons => exact absurd rfl hpr

/-! ## Runs -/

/-- A round frees nothing that a zombie still points to. -/
def Input.repairable (w : World) : Input → Prop
  | .stop _ _ => Repairable w
  | .traceNewPid _ => True

/-- In a run in which no round frees the parent of a zombie that stays, no pointer of an allocated
record dangles. -/
theorem noDangling_of_repairable
    (h : Run (eventLoop s fuel) (fun w i => i.possible w ∧ i.repairable w) World.initial w) :
    NoDangling w := by
  have hstart : Sound World.initial :=
    ⟨⟨nofun, nofun, fun r hr => List.not_mem_nil⟩, nofun⟩
  have hstep : ∀ i : Input, Triple
      (fun w => (Orderly none ∅ w ∧ Sound w) ∧ i.possible w ∧ i.repairable w)
      (eventLoop s fuel i) (fun _ w => Orderly none ∅ w ∧ Sound w) Counted := by
    intro i
    refine (Sound.lasting.eventLoop_keeps (C := fun _ _ => Repairable) (J := Repairing)
      (fun _ _ _ => Repairing.start) (fun _ _ _ => Repairing.skip) ?_
      (fun _ ho => Repairing.finish ho.linked) fuel i).conseq ?_ (fun _ _ hw => hw) fun _ _ h => h
    · exact fun _ _ _ _ ho hnodup hlisted hdead hrest _ =>
        hrest.step ho hnodup (hlisted _ List.mem_cons_self) hdead
    · rintro w ⟨hw, hpossible, hrepairable⟩
      refine ⟨hw, hpossible, ?_⟩
      rintro pid status rfl
      exact hrepairable
  exact (h.invariant (I := fun w => Orderly none ∅ w ∧ Sound w) ⟨Orderly.initial, hstart⟩
    hstep).2.1

instance (t : Tracee) : Decidable t.leavesZombie := inferInstanceAs (Decidable (_ ∧ _))

instance (w : World) : Decidable (Repairable w) := inferInstanceAs (Decidable (∀ _ ∈ _, _))

instance (w : World) : ∀ i : Input, Decidable (i.repairable w)
  | .stop _ _ => inferInstanceAs (Decidable (Repairable w))
  | .traceNewPid _ => inferInstanceAs (Decidable True)

/-- The process 5 forks the process 7, to which the process 9 attaches. -/
def orphanScript : Script where
  banks := [syscallBank 1 0 0 0 0, syscallBank 117 16 7 0 0, syscallBank 117 16 7 0 0]
  messages := [7]

/-- The fork, the request, and the end of the process 7. -/
def orphanInputs : List Input :=
  [.stop 5 0x137f, .stop 5 0x1057f, .stop 9 0x137f, .stop 9 0x857f, .stop 9 0x857f, .stop 7 0,
    .stop 9 0x137f]

set_option maxRecDepth 100000 in
/-- A run in which a zombie is left behind by its parent. -/
theorem orphan_runsTo : runsTo World.tidy (eventLoop orphanScript.setup 3)
    (fun w i => i.possible w ∧ i.repairable w)
    (fun w => 2 ∈ w.tracees ∧ 3 ∈ (w.heap 2).asPtracer.zombies ∧ (w.heap 3).parent = some 0)
    orphanInputs World.initial = true := by
  decide_cbv

/-- In a run a zombie is kept whose parent is still listed. -/
theorem noDangling_of_repairable_orphan :
    ∃ w, Run (eventLoop orphanScript.setup 3) (fun w i => i.possible w ∧ i.repairable w)
      World.initial w ∧ Allocated w 3 ∧ (w.heap 3).parent = some 0 ∧ 0 ∈ w.tracees := by
  obtain ⟨w, hrun, hlisted, hzombie, hparent⟩ := Run.start.of_runsTo World.tidy_eq orphan_runsTo
  have hallocated : Allocated w 3 := Or.inr ⟨2, hlisted, hzombie⟩
  exact ⟨w, hrun, hallocated, hparent, (noDangling_of_repairable hrun).parent 3 hallocated 0 hparent⟩

/-- Whether a call is the mark that a tracee was freed. -/
def Call.frees (r : Ref) : Call → Bool
  | .freed q => q = r
  | _ => false

set_option maxRecDepth 100000 in
/-- The parent is freed, and the zombie keeps the pointer to it. -/
theorem freedParent_runsTo : runsTo World.tidy (eventLoop orphanScript.setup 3) Input.possible
    (fun w => 2 ∈ w.tracees ∧ 3 ∈ (w.heap 2).asPtracer.zombies ∧ (w.heap 3).parent = some 0 ∧
      0 ∉ w.tracees ∧ w.calls.any (Call.frees 0) = true)
    (orphanInputs ++ [.stop 5 0, .stop 9 0x137f]) World.initial = true := by
  decide_cbv

/-- In a run the zombie of a listed ptracer points to its parent, which was freed. -/
theorem zombie_freedParent :
    ∃ w, Run (eventLoop orphanScript.setup 3) Input.possible World.initial w ∧
      Allocated w 3 ∧ (w.heap 3).parent = some 0 ∧ w.calls.any (Call.frees 0) = true ∧
      ¬NoDangling w := by
  obtain ⟨w, hrun, hlisted, hzombie, hparent, hout, hfreed⟩ :=
    Run.start.of_runsTo World.tidy_eq freedParent_runsTo
  have hallocated : Allocated w 3 := Or.inr ⟨2, hlisted, hzombie⟩
  exact ⟨w, hrun, hallocated, hparent, hfreed,
    fun hd => hout (hd.parent 3 hallocated 0 hparent)⟩

end Abyss
