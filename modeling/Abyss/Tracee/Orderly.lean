import Abyss.Tracee.Deferred

/-!
# Orderly worlds

In an orderly world the links are sound, a root has not entered a syscall before its options are
set, and every deferred event is calm. While a tracee's own event is being handled, its record may
say otherwise; such a tracee is busy. Handling an event keeps the world orderly, together with
whatever invariant survives the changes it is made of.
-/

namespace Abyss

open Machine

/-- A record of no process yet has seen no event. -/
def Tracee.unborn (t : Tracee) : Prop := t.status = 0 ∧ t.asPtracee.proot.pending = false

/-- A world whose links are sound and whose deferred events are calm, but for the busy tracees. -/
structure Orderly (gone : Option Ref) (busy : Set Ref) (w : World) : Prop where
  linked : Linked gone w
  fresh : ∀ q ∈ w.tracees, (w.heap q).fresh
  fits : ∀ q ∈ w.tracees, (w.heap q).asPtracee.proot.pending = true →
    Fits (w.heap q) (w.heap q).asPtracee.proot.value
  calm : ∀ q ∈ w.tracees, q ∉ busy → (w.heap q).asPtracee.proot.pending = true →
    Calm (w.heap q) (w.heap q).asPtracee.proot.value
  unborn : ∀ q ∈ w.tracees, (w.heap q).pid = 0 → (w.heap q).unborn

/-! ## The links survive the changes -/

section Linked

variable {asks : Ref → Prop} {r : Ref} {gone : Option Ref} {w w' : World}

/-- To detect the filter leaves the links of a tracee alone. -/
theorem detectSeccomp_same (t : Tracee) : (detectSeccomp t).links = t.links ∧
    (detectSeccomp t).parent = t.parent ∧ (detectSeccomp t).sigstop = t.sigstop := by
  unfold detectSeccomp
  split <;> exact ⟨rfl, rfl, rfl⟩

/-- A change of one record alone keeps the links. -/
theorem Linked.solo (h : Linked gone w) (hc : Solo r w w') : Linked gone w' := by
  cases hc with
  | still hshape => exact h.of_shape hshape
  | mark => exact h.of_shape rfl
  | own hown =>
    exact h.update hown.links (fun p hp => h.parent_lt r p (hown.parent ▸ hp))
      (hown.sigstop (h.sigstop r))
  | detect =>
    obtain ⟨hlinks, hparent, hsigstop⟩ := detectSeccomp_same (w.heap r)
    exact h.update hlinks (fun p hp => h.parent_lt r p (hparent ▸ hp)) (hsigstop ▸ h.sigstop r)
  | @settle supported =>
    obtain ⟨hlinks, hparent, hsigstop⟩ := detectSeccomp_same
      { w.heap r with deliverSigtrap := true, seccompEnabled := supported }
    exact h.update hlinks (fun p hp => h.parent_lt r p (hparent ▸ hp)) (hsigstop ▸ h.sigstop r)

/-- So does a report to a ptracer. -/
theorem Linked.report (h : Linked gone w) (hc : Report w w') : Linked gone w' := by
  cases hc with
  | still hshape => exact h.of_shape hshape
  | mark => exact h.of_shape rfl
  | wait hf =>
    refine h.update ?_ (fun p hp => ?_) ?_
    · exact (congrArg Tracee.links (hf _) :)
    · exact h.parent_lt _ p ((congrArg Tracee.parent (hf (w.heap _)) :).symm.trans hp)
    · exact (congrArg Tracee.sigstop (hf (w.heap _)) :).trans_ne (h.sigstop _)
  | detach hlisted hptracer =>
    exact h.detach hptracer (h.listed_alive _ hlisted) (fun _ hr => Or.inr hr) fun _ hd => hd
  | reap hzombie => exact (h.reap (h.zombie _ _ hzombie).2.2.2).of_shape rfl

/-- The links stay sound. -/
theorem Linked.change (h : Linked gone w) (hr : r ∈ w.tracees) (hc : Change asks r w w') :
    Linked gone w' := by
  cases hc with
  | solo hc => exact h.solo hc
  | report hc => exact h.report hc
  | terminate => exact h.update rfl (fun p hp => h.parent_lt r p hp) (h.sigstop r)
  | hush => exact h.update rfl (fun p hp => h.parent_lt _ p hp) nofun
  | attach _ hlisted hfree => exact h.attach hlisted hfree (h.listed_lt r hr)
  | traceme hfree hparent =>
    have hattached := h.attach hr hfree (h.parent_lt r _ hparent)
    exact hattached.update rfl (fun p hp => hattached.parent_lt r p hp) (hattached.sigstop r)
  | inherit hlisted hfree hptracer => exact h.attach hlisted hfree (h.ptracer_lt r _ hptracer).2
  | create => exact h.create _
  | adopt =>
    refine h.update rfl (fun p hp => ?_) (h.sigstop _)
    simp only [inherit] at hp
    split at hp
    · exact h.parent_lt r p hp
    · obtain rfl : r = p := Option.some.inj hp
      exact h.listed_lt r hr

end Linked

/-! ## The records survive the changes -/

/-- What a change leaves of the state of a tracee's events. -/
structure Kept (t t' : Tracee) : Prop where
  pid : t'.pid = t.pid
  isRoot : t'.isRoot = t.isRoot
  deliverSigtrap : t'.deliverSigtrap = t.deliverSigtrap
  status : t'.status = t.status
  proot : t'.asPtracee.proot = t.asPtracee.proot ∨ t'.asPtracee.proot.pending = false

section Kept

variable {t t' : Tracee}

/-- A record is kept where nothing is done. -/
theorem Kept.refl (t : Tracee) : Kept t t := ⟨rfl, rfl, rfl, rfl, Or.inl rfl⟩

/-- A record of the same shape is kept. -/
theorem Kept.of_shape (h : t'.shape = t.shape) : Kept t t' :=
  ⟨Tracee.of_shape h Tracee.pid fun _ => rfl, Tracee.of_shape h Tracee.isRoot fun _ => rfl,
    Tracee.of_shape h Tracee.deliverSigtrap fun _ => rfl,
    Tracee.of_shape h Tracee.status fun _ => rfl,
    Or.inl (Tracee.of_shape h (fun t => t.asPtracee.proot) fun _ => rfl)⟩

/-- What is kept twice is kept. -/
theorem Kept.trans {t'' : Tracee} (h : Kept t t') (h' : Kept t' t'') : Kept t t'' :=
  ⟨h'.pid.trans h.pid, h'.isRoot.trans h.isRoot, h'.deliverSigtrap.trans h.deliverSigtrap,
    h'.status.trans h.status, h'.proot.elim (fun heq => heq ▸ h.proot) Or.inr⟩

/-- A settled record that is kept is settled. -/
theorem Kept.settled (h : Kept t t') (ht : t.settled) : t'.settled := by
  unfold Tracee.settled
  rw [h.isRoot, h.deliverSigtrap]
  exact ht

/-- A fresh record that is kept is fresh. -/
theorem Kept.fresh (h : Kept t t') (ht : t.fresh) : t'.fresh := by
  unfold Tracee.fresh
  rw [h.isRoot, h.deliverSigtrap, h.status]
  exact ht

/-- A status that is calm for a record is calm for one that is kept. -/
theorem Kept.calm {status : ℤ} (h : Kept t t') (ht : Calm t status) : Calm t' status :=
  ⟨ht.stopped, ht.kind, fun hkind => h.status.trans (ht.entry hkind)⟩

/-- An unborn tracee that is kept is unborn. -/
theorem Kept.unborn (h : Kept t t') (ht : t.unborn) : t'.unborn :=
  ⟨h.status.trans ht.1, h.proot.elim (fun heq => heq ▸ ht.2) id⟩

end Kept

section Change

variable {asks : Ref → Prop} {r q : Ref} {gone : Option Ref} {busy : Set Ref} {w w' : World}

/-- A change of a record that keeps it keeps all of them. -/
theorem update_kept (w : World) {a : Ref} {f : Tracee → Tracee}
    (hf : Kept (w.heap a) (f (w.heap a))) (q : Ref) :
    Kept (w.heap q) ((w.update a f).heap q) := by
  rw [World.update_heap]
  split
  · subst q
    exact hf
  · exact Kept.refl _

/-- To attach a tracee keeps all records. -/
theorem attach_kept (w : World) (a p q : Ref) : Kept (w.heap q) ((w.attach a p).heap q) := by
  rw [attach_heap]
  refine ⟨rfl, rfl, rfl, rfl, ?_⟩
  by_cases hq : q = a
  · simp [hq]
  · simp [hq]

/-- To detach a tracee keeps all records. -/
theorem detach_kept (w : World) (a p q : Ref) : Kept (w.heap q) ((w.detach a p).heap q) := by
  rw [detach_heap]
  exact ⟨rfl, rfl, rfl, rfl, Or.inl rfl⟩

/-- Other records than the tracee's own are kept by a change of the latter. -/
theorem Solo.kept (h : Solo r w w') (hq : q ≠ r) : Kept (w.heap q) (w'.heap q) := by
  have hupdate : ∀ f : Tracee → Tracee, Kept (w.heap q) ((w.update r f).heap q) := fun f => by
    rw [World.update_heap, if_neg hq]
    exact Kept.refl _
  cases h with
  | still hshape => exact Kept.of_shape ((shape_eq_iff.mp hshape).1 q)
  | mark => exact Kept.refl _
  | own => exact hupdate _
  | detect => exact hupdate _
  | settle => exact hupdate _

/-- A report keeps the list and the events of all tracees. -/
theorem Report.kept (h : Report w w') (q : Ref) :
    w'.tracees = w.tracees ∧ Kept (w.heap q) (w'.heap q) := by
  cases h with
  | still hshape =>
    obtain ⟨hheap, -, htracees⟩ := shape_eq_iff.mp hshape
    exact ⟨htracees, Kept.of_shape (hheap q)⟩
  | mark => exact ⟨rfl, Kept.refl _⟩
  | wait hf =>
    refine ⟨rfl, update_kept w ⟨?_, ?_, ?_, ?_, Or.inl ?_⟩ q⟩
    · exact (congrArg Tracee.pid (hf _) :)
    · exact (congrArg Tracee.isRoot (hf _) :)
    · exact (congrArg Tracee.deliverSigtrap (hf _) :)
    · exact (congrArg Tracee.status (hf _) :)
    · exact (congrArg (fun t => t.asPtracee.proot) (hf _) :)
  | detach => exact ⟨rfl, detach_kept w _ _ q⟩
  | @reap z p =>
    obtain ⟨hpid, hroot, hdeliver, hstatus, hproot⟩ := detach_kept w z p q
    exact ⟨rfl, hpid, hroot, hdeliver, hstatus, hproot⟩

/-- The record of a listed tracee is its own one after a change of it, is kept, or is new. -/
theorem Change.record (h : Change asks r w w') (hq : q ∈ w'.tracees) :
    q ∈ w.tracees ∧ (q = r ∧ Solo r w w' ∨ Kept (w.heap q) (w'.heap q)) ∨
      q = w.next ∧ (w'.heap q).isRoot = false ∧ (w'.heap q).unborn := by
  cases h with
  | solo h =>
    have hlisted : q ∈ w.tracees := by
      cases h with
      | still hshape => exact (shape_eq_iff.mp hshape).2.2 ▸ hq
      | mark => exact hq
      | own => exact hq
      | detect => exact hq
      | settle => exact hq
    by_cases hqr : q = r
    · exact Or.inl ⟨hlisted, Or.inl ⟨hqr, h⟩⟩
    · exact Or.inl ⟨hlisted, Or.inr (h.kept hqr)⟩
  | report h =>
    obtain ⟨htracees, hkept⟩ := h.kept q
    exact Or.inl ⟨htracees ▸ hq, Or.inr hkept⟩
  | terminate => exact Or.inl ⟨hq, Or.inr (update_kept w ⟨rfl, rfl, rfl, rfl, Or.inl rfl⟩ q)⟩
  | hush => exact Or.inl ⟨hq, Or.inr (update_kept w ⟨rfl, rfl, rfl, rfl, Or.inl rfl⟩ q)⟩
  | attach => exact Or.inl ⟨hq, Or.inr (attach_kept w _ _ q)⟩
  | traceme =>
    refine Or.inl ⟨hq, Or.inr ?_⟩
    exact (attach_kept w r _ q).trans (update_kept _ ⟨rfl, rfl, rfl, rfl, Or.inl rfl⟩ q)
  | inherit => exact Or.inl ⟨hq, Or.inr (attach_kept w _ _ q)⟩
  | create =>
    rw [create_heap]
    split
    · exact Or.inr ⟨‹q = w.next›, rfl, rfl, rfl⟩
    · rename_i hne
      exact Or.inl ⟨(List.mem_cons.mp hq).resolve_left hne, Or.inr (Kept.refl _)⟩
  | adopt => exact Or.inl ⟨hq, Or.inr (update_kept w ⟨rfl, rfl, rfl, rfl, Or.inl rfl⟩ q)⟩

/-- A settled or fresh tracee stays so by a change of its own. -/
theorem Solo.fresh (h : Solo r w w') (hq : (w.heap r).fresh) : (w'.heap r).fresh := by
  cases h with
  | still hshape => exact (Kept.of_shape ((shape_eq_iff.mp hshape).1 r)).fresh hq
  | mark => exact hq
  | own hown =>
    rw [World.update_self]
    intro hroot
    rw [hown.isRoot] at hroot
    rw [hown.deliverSigtrap]
    by_cases hdeliver : (w.heap r).deliverSigtrap = true
    · exact Or.inl hdeliver
    · refine Or.inr ((hown.status hroot (by simpa using hdeliver)).trans ?_)
      exact (hq hroot).resolve_left hdeliver
  | detect =>
    rw [World.update_self]
    unfold detectSeccomp
    split
    · exact hq
    · exact hq
  | settle =>
    rw [World.update_self]
    exact fun hroot => Or.inl (settle_settled _ _ hroot)

/-- The event that a tracee was put off with stays, or is dealt with. -/
theorem Solo.proot (h : Solo r w w') :
    (w'.heap r).asPtracee.proot = (w.heap r).asPtracee.proot ∨
      (w'.heap r).asPtracee.proot.pending = false := by
  have hdetect : ∀ t, (detectSeccomp t).asPtracee = t.asPtracee := fun t => by
    unfold detectSeccomp
    split <;> rfl
  cases h with
  | still hshape => exact (Kept.of_shape ((shape_eq_iff.mp hshape).1 r)).proot
  | mark => exact Or.inl rfl
  | own hown =>
    rw [World.update_self]
    exact hown.proot
  | detect =>
    rw [World.update_self, hdetect]
    exact Or.inl rfl
  | settle =>
    rw [World.update_self, Abyss.settle, hdetect]
    exact Or.inl rfl

/-- A tracee of a process stays one by a change of its own. -/
theorem Solo.pid (h : Solo r w w') : (w'.heap r).pid = (w.heap r).pid := by
  have hdetect : ∀ t, (detectSeccomp t).pid = t.pid := fun t => by
    unfold detectSeccomp
    split <;> rfl
  cases h with
  | still hshape => exact (Kept.of_shape ((shape_eq_iff.mp hshape).1 r)).pid
  | mark => rfl
  | own hown => exact (congrArg Tracee.pid (World.update_self ..)).trans hown.pid
  | detect => exact (congrArg Tracee.pid (World.update_self ..)).trans (hdetect _)
  | settle => exact (congrArg Tracee.pid (World.update_self ..)).trans (hdetect _)

/-- A listed tracee of a process. -/
def Born (r : Ref) (w : World) : Prop := r ∈ w.tracees ∧ (w.heap r).pid ≠ 0

/-- A tracee with a deferred event is one of a process. -/
theorem Orderly.born (h : Orderly gone busy w) (hr : r ∈ w.tracees)
    (hpending : (w.heap r).asPtracee.proot.pending = true) : Born r w := by
  refine ⟨hr, fun hpid => ?_⟩
  rw [(h.unborn r hr hpid).2] at hpending
  cases hpending

/-- A world stays orderly while a busy tracee is handled. -/
theorem Orderly.change (h : Orderly gone busy w) (hr : Born r w) (hbusy : r ∈ busy)
    (hc : Change asks r w w') : Orderly gone busy w' := by
  refine ⟨h.linked.change hr.1 hc, fun q hq => ?_, fun q hq hpending => ?_,
    fun q hq hidle hpending => ?_, fun q hq hpid => ?_⟩
  · rcases hc.record hq with ⟨hlisted, ⟨rfl, hsolo⟩ | hkept⟩ | ⟨-, hroot, -⟩
    · exact hsolo.fresh (h.fresh q hlisted)
    · exact hkept.fresh (h.fresh q hlisted)
    · exact fun htrue => absurd htrue (by simp [hroot])
  · rcases hc.record hq with ⟨hlisted, hsame⟩ | ⟨-, -, hdone⟩
    · have hproot : (w'.heap q).asPtracee.proot = (w.heap q).asPtracee.proot ∨
          (w'.heap q).asPtracee.proot.pending = false := by
        rcases hsame with ⟨rfl, hsolo⟩ | hkept
        · exact hsolo.proot
        · exact hkept.proot
      rcases hproot with heq | hdone
      · rw [heq] at hpending ⊢
        exact fun hstopped hkind => hc.settled (h.fits q hlisted hpending hstopped hkind)
      · rw [hdone] at hpending
        cases hpending
    · rw [hdone.2] at hpending
      cases hpending
  · rcases hc.record hq with ⟨hlisted, ⟨rfl, -⟩ | hkept⟩ | ⟨-, -, hdone⟩
    · exact absurd hbusy hidle
    · rcases hkept.proot with heq | hdone
      · rw [heq] at hpending ⊢
        exact hkept.calm (h.calm q hlisted hidle hpending)
      · rw [hdone] at hpending
        cases hpending
    · rw [hdone.2] at hpending
      cases hpending
  · rcases hc.record hq with ⟨hlisted, ⟨rfl, hsolo⟩ | hkept⟩ | ⟨-, -, hnew⟩
    · exact absurd (hsolo.pid.symm.trans hpid) hr.2
    · exact hkept.unborn (h.unborn q hlisted (hkept.pid.symm.trans hpid))
    · exact hnew

/-- More tracees may be busy. -/
theorem Orderly.mono {busy' : Set Ref} (h : Orderly gone busy w) (hsub : busy ⊆ busy') :
    Orderly gone busy' w :=
  ⟨h.linked, h.fresh, h.fits, fun q hq hidle => h.calm q hq fun hbusy => hidle (hsub hbusy),
    h.unborn⟩

/-- A world stays orderly when its listed records are kept and its links are sound. -/
theorem Orderly.of_kept (h : Orderly gone busy w) {gone' : Option Ref} (hlinked : Linked gone' w')
    (hk : ∀ q ∈ w'.tracees, q ∈ w.tracees ∧ Kept (w.heap q) (w'.heap q)) :
    Orderly gone' busy w' := by
  refine ⟨hlinked, fun q hq => (hk q hq).2.fresh (h.fresh q (hk q hq).1), fun q hq hpending => ?_,
    fun q hq hidle hpending => ?_, fun q hq hpid => ?_⟩
  · obtain ⟨hlisted, hkept⟩ := hk q hq
    rcases hkept.proot with heq | hdone
    · rw [heq] at hpending ⊢
      exact fun hstopped hkind => hkept.settled (h.fits q hlisted hpending hstopped hkind)
    · rw [hdone] at hpending
      cases hpending
  · obtain ⟨hlisted, hkept⟩ := hk q hq
    rcases hkept.proot with heq | hdone
    · rw [heq] at hpending ⊢
      exact hkept.calm (h.calm q hlisted hidle hpending)
    · rw [hdone] at hpending
      cases hpending
  · obtain ⟨hlisted, hkept⟩ := hk q hq
    exact hkept.unborn (h.unborn q hlisted (hkept.pid.symm.trans hpid))

/-- A world of the same shape is orderly, too. -/
theorem Orderly.of_shape (h : Orderly gone busy w) (hshape : w'.shape = w.shape) :
    Orderly gone busy w' := by
  obtain ⟨hheap, -, htracees⟩ := shape_eq_iff.mp hshape
  exact h.of_kept (h.linked.of_shape hshape) fun q hq => ⟨htracees ▸ hq, Kept.of_shape (hheap q)⟩

end Change

/-! ## Handling an event -/

/-- An invariant that every change of a soundly linked world preserves. -/
def Survives (I : World → Prop) : Prop :=
  ∀ r w w', r ∈ w.tracees → (∃ gone, Linked gone w) → I w → Change (fun _ => True) r w w' → I w'

section Survives

variable {I I' : World → Prop} {r : Ref}

/-- Two properties that survive. -/
theorem Survives.and (h : Survives I) (h' : Survives I') : Survives fun w => I w ∧ I' w :=
  fun r w w' hr hl hw hc => ⟨h r w w' hr hl hw.1 hc, h' r w w' hr hl hw.2 hc⟩

/-- The list of tracees stays. -/
theorem Solo.tracees {w w' : World} (h : Solo r w w') : w'.tracees = w.tracees := by
  cases h with
  | still hshape => exact (shape_eq_iff.mp hshape).2.2
  | mark => rfl
  | own => rfl
  | detect => rfl
  | settle => rfl

/-- No change takes a tracee from the list. -/
theorem Change.listed {asks : Ref → Prop} {w w' : World} (h : Change asks r w w') {q : Ref}
    (hq : q ∈ w.tracees) : q ∈ w'.tracees := by
  cases h with
  | solo h => exact h.tracees ▸ hq
  | report h => exact (h.kept q).1 ▸ hq
  | terminate => exact hq
  | hush => exact hq
  | attach => exact hq
  | traceme => exact hq
  | inherit => exact hq
  | create => exact List.mem_cons_of_mem _ hq
  | adopt => exact hq

/-- A listed tracee keeps its process. -/
theorem born_survives (r : Ref) : Survives (Born r) := by
  rintro a w w' - ⟨gone, hlinked⟩ ⟨hlisted, hpid⟩ hc
  refine ⟨hc.listed hlisted, ?_⟩
  rcases hc.record (hc.listed hlisted) with ⟨-, ⟨rfl, hsolo⟩ | hkept⟩ | ⟨hnew, -⟩
  · exact hsolo.pid.trans_ne hpid
  · exact hkept.pid.trans_ne hpid
  · exact absurd hnew (hlinked.listed_lt r hlisted).ne

/-- That a tracee is settled survives. -/
theorem settled_survives (r : Ref) : Survives fun w => (w.heap r).settled :=
  fun _ _ _ _ _ hw hc => hc.settled hw

/-- That a status fits a tracee survives. -/
theorem fits_survives (r : Ref) (status : ℤ) : Survives fun w => Fits (w.heap r) status :=
  fun _ _ _ _ _ hw hc hstopped hkind => hc.settled (hw hstopped hkind)

/-- What holds while an event of a tracee is handled. -/
structure Handling (gone : Option Ref) (I Z : World → Prop) (busy : Set Ref) (r : Ref) (status : ℤ)
    (w : World) : Prop where
  orderly : Orderly gone (insert r busy) w
  kept : I w
  own : Z w
  born : Born r w
  fits : Fits (w.heap r) status

/-- A property of a world that survives the handling of an event of one tracee. -/
def Own.Survives (r : Ref) (Z : World → Prop) : Prop :=
  ∀ w w', Z w → Change (fun _ => True) r w w' → Z w'

variable {gone : Option Ref} {Z : World → Prop} {busy : Set Ref} {status : ℤ}

/-- A change keeps the state of the handling. -/
theorem Handling.change (hI : Survives I) (hZ : Own.Survives r Z) {w w' : World}
    (h : Handling gone I Z busy r status w) (hc : Change (fun _ => True) r w w') :
    Handling gone I Z busy r status w' :=
  ⟨h.orderly.change h.born (Set.mem_insert r busy) hc,
    hI r w w' h.born.1 ⟨gone, h.orderly.linked⟩ h.kept hc, hZ w w' h.own hc,
    born_survives r r w w' h.born.1 ⟨gone, h.orderly.linked⟩ h.born hc,
    fun hstopped hkind => hc.settled (h.fits hstopped hkind)⟩

/-- What is known of a deferred event that is handled while another tracee is busy. -/
theorem Handling.deferred {w : World} (h : Handling gone I Z busy r status w) {q : Ref} {st : ℤ}
    (hq : q ∈ w.tracees) (hproot : (w.heap q).asPtracee.proot = ⟨st, true⟩) :
    Born q w ∧ Fits (w.heap q) st := by
  have hfits := h.orderly.fits q hq
  rw [hproot] at hfits
  exact ⟨h.orderly.born hq (by rw [hproot]), hfits rfl⟩

/-- Handling an event keeps the world orderly, and what survives its changes, if the handling of
deferred events does; the event is not pending any more. -/
theorem handleTraceeEvent_step {s : Setup} {E : Fault → World → Prop} (hE : Ordinary E)
    (hI : Survives I) (hZ : Own.Survives r Z) {T : Ref → Prop} {fuel : ℕ}
    (hT : ∀ w q, Z w → (w.heap q).asPtracee.ptracer = some r → T q)
    (hnested : ∀ {K : World → Prop}, Survives K → ∀ q st, T q → Triple
      (fun w => (Handling gone I Z busy r status w ∧ K w) ∧ q ∈ w.tracees ∧
        (w.heap q).asPtracee.proot = ⟨st, true⟩)
      (handleTraceeEvent s fuel q st)
      (fun _ w => Handling gone I Z busy r status w ∧ K w) E) :
    Triple (Handling gone I Z busy r status) (handleTraceeEvent s (fuel + 1) r status)
      (fun _ w => (Orderly gone busy w ∧ I w ∧ Z w) ∧
        (w.heap r).asPtracee.proot.pending = false) E := by
  have hS : Stable (fun _ => True) r (Handling gone I Z busy r status) :=
    Stable.of_change (fun w w' hw hc => hw.change hI hZ hc) (fun w hw => ⟨gone, hw.orderly.linked⟩)
      fun w hw => hw.born.1
  have hhandle : ∀ q st, T q → Triple
      (fun w => Handling gone I Z busy r status w ∧ q ∈ w.tracees ∧
        (w.heap q).asPtracee.proot = ⟨st, true⟩)
      (handleTraceeEvent s fuel q st) (fun _ => Handling gone I Z busy r status) E :=
    fun q st hq => (hnested (fun _ _ _ _ _ _ _ => trivial : Survives fun _ => True) q st hq).conseq
      (fun w hw => ⟨⟨hw.1, trivial⟩, hw.2⟩) (fun _ _ hw => hw.1) fun _ _ h => h
  intro w hw
  have hstart : Handling gone I Z busy r status w ∧ Frozen r w w := ⟨hw, Frozen.refl r w⟩
  revert hstart
  refine Triple.bind (P := fun v => Handling gone I Z busy r status v ∧ Frozen r w v)
    (M := fun _ v => Handling gone I Z busy r status v ∧ Frozen r w v)
    (Triple.modify fun v hv => ⟨hS.change _ _ hv.1 (.mark (c := .handled r status) nofun),
      hv.2.log _⟩) (fun _ => ?_) w
  refine Triple.bind (M := fun _ v => Handling gone I Z busy r status v ∧ Frozen r w v)
    (Triple.modify fun v hv => ⟨hS.change _ _ hv.1 (.still (v.update_shape r chooseRestart_shape) rfl),
      hv.2.update chooseRestart_frozen⟩) fun _ => ?_
  refine Triple.bind (M := fun _ => Handling gone I Z busy r status)
    (hS.handleStatus_keeps hE (fun v q hv _ hptracer => hT v q hv.own hptracer) hhandle
      (fun q st hq => hnested (settled_survives r) q st hq) (fun _ _ _ => trivial)
      fun hstopped hkind v hv => hv.fits hstopped hkind) fun signal => ?_
  refine Triple.bind (M := fun _ w => (Orderly gone busy w ∧ I w ∧ Z w) ∧
    (w.heap r).asPtracee.proot.pending = false) (Triple.modify fun v hv => ?_)
    fun _ => Keeps.pure signal
  obtain ⟨horderly, hkept, hown, -, -⟩ := hS.change v _ hv (.solo (.own (f := fun t =>
    { t with asPtracee := { t.asPtracee with
      proot := { t.asPtracee.proot with pending := false } } }) (Own.taken _)))
  refine ⟨⟨⟨horderly.linked, horderly.fresh, horderly.fits, fun q hq hidle hpending => ?_,
    horderly.unborn⟩, hkept, hown⟩, by rw [World.update_self]⟩
  by_cases hqr : q = r
  · rw [hqr, World.update_self] at hpending
    cases hpending
  · exact horderly.calm q hq (fun hbusy => hidle (hbusy.resolve_left hqr)) hpending

/-- So it does, however deep the handling of deferred events may go. -/
theorem handleTraceeEvent_keeps (s : Setup) (gone : Option Ref) (fuel : ℕ) : ∀ {I : World → Prop},
    Survives I → ∀ (busy : Set Ref) (r : Ref) (status : ℤ),
      Triple (fun w => (Orderly gone (insert r busy) w ∧ I w) ∧ Born r w ∧ Fits (w.heap r) status)
        (handleTraceeEvent s fuel r status) (fun _ w => (Orderly gone busy w ∧ I w) ∧
          (w.heap r).asPtracee.proot.pending = false) Counted := by
  induction fuel with
  | zero => exact fun _ _ _ _ => Triple.fault fun _ _ => nofun
  | succ fuel ih =>
    intro I hI busy r status
    refine Triple.conseq (P := Handling gone I (fun _ => True) busy r status)
      (handleTraceeEvent_step (T := fun _ => True) Ordinary.counted hI (fun _ _ _ _ => trivial)
        (fun _ _ _ _ => trivial) ?_) (fun w hw => ⟨hw.1.1, hw.1.2, trivial, hw.2.1, hw.2.2⟩)
      (fun _ w hw => ⟨⟨hw.1.1, hw.1.2.1⟩, hw.2⟩) fun _ _ h => h
    intro K hK q st _
    refine (ih ((hI.and ((born_survives r).and (fits_survives r status))).and hK)
      (insert r busy) q st).conseq ?_ ?_ fun _ _ h => h
    · rintro w ⟨⟨hw, hk⟩, hq, hproot⟩
      exact ⟨⟨hw.orderly.mono fun a ha => Set.mem_insert_of_mem q ha,
        ⟨hw.kept, hw.born, hw.fits⟩, hk⟩, hw.deferred hq hproot⟩
    · exact fun _ w ⟨⟨horderly, ⟨hw, hborn, hfits⟩, hk⟩, _⟩ =>
        ⟨⟨horderly, hw, trivial, hborn, hfits⟩, hk⟩

end Survives

/-! ## Handling a deferred event -/

/-- The links of a record, and what else only other tracees or its end change. -/
def Tracee.ties (t : Tracee) : Tracee where
  terminated := t.terminated
  parent := t.parent
  asPtracer :=
    { nbPtracees := t.asPtracer.nbPtracees
      zombies := t.asPtracer.zombies
      waitPid := t.asPtracer.waitPid }
  asPtracee := { ptracer := t.asPtracee.ptracer, isZombie := t.asPtracee.isZombie }
  isZombie := t.isZombie

/-- The ties of a record do not change in its own events. -/
theorem Own.ties {t t' : Tracee} (h : Own t t') : t'.ties = t.ties := by
  have hlink : ∀ {α : Type} (f : Tracee → α), (∀ t, f t.links = f t) → f t' = f t :=
    fun f hf => Tracee.of_links h.links f hf
  unfold Tracee.ties
  rw [h.terminated, h.parent, h.waitPid, hlink (fun t => t.asPtracer.nbPtracees) fun _ => rfl,
    hlink (fun t => t.asPtracer.zombies) fun _ => rfl,
    hlink (fun t => t.asPtracee.ptracer) fun _ => rfl,
    hlink (fun t => t.asPtracee.isZombie) fun _ => rfl, hlink Tracee.isZombie fun _ => rfl]

/-- A property of a record that every change of its own preserves. -/
structure Endures (Q : Tracee → Prop) : Prop where
  own : ∀ {t t'}, Own t t' → Q t → Q t'
  detect : ∀ {t}, Q t → Q (detectSeccomp t)
  settle : ∀ {t} supported, t.isRoot = true → t.deliverSigtrap = false → Q t →
    Q (settle supported t)

/-- A property that endures is kept by a change of one record alone. -/
theorem Endures.solo {Q : Tracee → Prop} (hQ : Endures Q) {r : Ref} {w w' : World}
    (h : Solo r w w') (hr : Q (w.heap r)) : Q (w'.heap r) := by
  cases h with
  | still hshape => exact hQ.own (Own.of_shape ((shape_eq_iff.mp hshape).1 r)) hr
  | mark => exact hr
  | own hown =>
    rw [World.update_self]
    exact hQ.own hown hr
  | detect =>
    rw [World.update_self]
    exact hQ.detect hr
  | settle hroot hdeliver =>
    rw [World.update_self]
    exact hQ.settle _ hroot hdeliver hr

/-- Only the record of one tracee changed, without its links, and the handling of a stop left its
marks. -/
structure Alone (r : Ref) (w v : World) : Prop where
  others : ∀ q, q ≠ r → v.heap q = w.heap q
  next : v.next = w.next
  tracees : v.tracees = w.tracees
  ties : (v.heap r).ties = (w.heap r).ties
  record : ∀ Q, Endures Q → Q (w.heap r) → Q (v.heap r)
  marks : ∃ past, v.marks = past ++ w.marks ∧ ∀ c ∈ past, c.isStopMark = true

section Alone

variable {r : Ref} {w v v' : World}

/-- Nothing was changed. -/
theorem Alone.refl (r : Ref) (w : World) : Alone r w w :=
  ⟨fun _ _ => rfl, rfl, rfl, rfl, fun _ _ hr => hr, [], rfl, List.forall_mem_nil _⟩

/-- To detect the filter leaves the ties of a tracee alone. -/
theorem detectSeccomp_ties (t : Tracee) : (detectSeccomp t).ties = t.ties := by
  unfold detectSeccomp
  split <;> rfl

/-- A change of a record keeps its links. -/
theorem Solo.ties (h : Solo r w v) : (v.heap r).ties = (w.heap r).ties := by
  cases h with
  | still hshape => exact Tracee.of_shape ((shape_eq_iff.mp hshape).1 r) Tracee.ties fun _ => rfl
  | mark => rfl
  | own hown => exact (congrArg Tracee.ties (World.update_self ..)).trans hown.ties
  | detect => exact (congrArg Tracee.ties (World.update_self ..)).trans (detectSeccomp_ties _)
  | settle => exact (congrArg Tracee.ties (World.update_self ..)).trans (detectSeccomp_ties _)

/-- All other records stay. -/
theorem Solo.others (h : Solo r w v) {q : Ref} (hq : q ≠ r) : v.heap q = w.heap q := by
  have hupdate : ∀ f : Tracee → Tracee, (w.update r f).heap q = w.heap q := fun f => by
    rw [World.update_heap, if_neg hq]
  cases h with
  | still _ _ hothers => exact hothers q hq
  | mark => rfl
  | own => exact hupdate _
  | detect => exact hupdate _
  | settle => exact hupdate _

/-- No record is added. -/
theorem Solo.next (h : Solo r w v) : v.next = w.next := by
  cases h with
  | still hshape => exact (shape_eq_iff.mp hshape).2.1
  | mark => rfl
  | own => rfl
  | detect => rfl
  | settle => rfl

/-- A change of a record leaves no mark, or one of the handling of a stop. -/
theorem Solo.marks (h : Solo r w v) :
    ∃ past, v.marks = past ++ w.marks ∧ ∀ c ∈ past, c.isStopMark = true := by
  cases h with
  | still _ hmarks => exact ⟨[], hmarks, List.forall_mem_nil _⟩
  | @mark c hc =>
    have hmark : c.isMark = true := by
      cases c <;> first | rfl | cases hc
    refine ⟨[c], ?_, fun d hd => List.mem_singleton.mp hd ▸ hc⟩
    simp [World.marks, hmark]
  | own => exact ⟨[], rfl, List.forall_mem_nil _⟩
  | detect => exact ⟨[], rfl, List.forall_mem_nil _⟩
  | settle => exact ⟨[], rfl, List.forall_mem_nil _⟩

/-- A change of one record alone may follow. -/
theorem Alone.solo (h : Alone r w v) (hc : Solo r v v') : Alone r w v' := by
  obtain ⟨past, hpast, hall⟩ := h.marks
  obtain ⟨past', hpast', hall'⟩ := hc.marks
  refine ⟨fun q hq => (hc.others hq).trans (h.others q hq), hc.next.trans h.next,
    hc.tracees.trans h.tracees, hc.ties.trans h.ties,
    fun Q hQ hr => hQ.solo hc (h.record Q hQ hr), past' ++ past, ?_, fun c hmem => ?_⟩
  · rw [hpast', hpast, List.append_assoc]
  · exact (List.mem_append.mp hmem).elim (hall' c) (hall c)

end Alone

/-- A deferred event is handled within the record of its tracee. -/
theorem handleTraceeEvent_deferred (s : Setup) {gone : Option Ref} {busy : Set Ref} (fuel : ℕ)
    {r : Ref} {status : ℤ} {w : World} (h : Orderly gone busy w) (hr : r ∈ w.tracees)
    (hidle : r ∉ busy) (hproot : (w.heap r).asPtracee.proot = ⟨status, true⟩) :
    Triple (fun v => v = w) (handleTraceeEvent s fuel r status)
      (fun signal v => Orderly gone busy v ∧ Alone r w v ∧ 0 ≤ signal)
      fun e _ => e = .exit ∨ fuel = 0 ∧ e = .outOfFuel := by
  cases fuel with
  | zero => exact Triple.fault fun _ _ => Or.inr ⟨rfl, rfl⟩
  | succ fuel =>
    have hcalm := h.calm r hr hidle
    have hfits := h.fits r hr
    rw [hproot] at hcalm hfits
    let P : World → Prop := fun v => Orderly gone (insert r busy) v ∧ Born r v ∧
      Fits (v.heap r) status ∧ Alone r w v
    have hP : ∀ v v', P v → Solo r v v' → P v' := fun v v' ⟨horderly, hlisted, hfits, halone⟩ hc =>
      have hchange : Change (fun _ => True) r v v' := .solo hc
      ⟨horderly.change hlisted (Set.mem_insert r busy) hchange,
        born_survives r r v v' hlisted.1 ⟨gone, horderly.linked⟩ hlisted hchange,
        fun hstopped hkind => hc.settled (hfits hstopped hkind), halone.solo hc⟩
    have hstart : P w := by
      refine ⟨⟨h.linked, h.fresh, h.fits, fun q hq hnot => ?_, h.unborn⟩,
        h.born hr (by rw [hproot]), hfits rfl, Alone.refl r w⟩
      exact h.calm q hq fun hbusy => hnot (Set.mem_insert_of_mem r hbusy)
    refine (handleTraceeEvent_calm (E := fun e _ => e = .exit ∨ fuel + 1 = 0 ∧ e = .outOfFuel) hP
      fuel (fun _ => Or.inl rfl) fun v hv => hv.2.2.1).conseq ?_ ?_ fun _ _ h => h
    · rintro v rfl
      exact ⟨hstart, hcalm rfl, h.fresh r hr⟩
    · rintro signal v ⟨⟨horderly, -, -, halone⟩, hsignal, hdone⟩
      refine ⟨⟨horderly.linked, horderly.fresh, horderly.fits, fun q hq hnot hpending => ?_,
        horderly.unborn⟩, halone, hsignal⟩
      by_cases hqr : q = r
      · rw [hqr, hdone] at hpending
        cases hpending
      · exact horderly.calm q hq (fun hbusy => hnot (hbusy.resolve_left hqr)) hpending

end Abyss
