import Abyss.Tracee.Links

/-!
# What handling a tracee may change

Handling an event of a tracee changes the shape of the world in a few ways: the state of its own
events and of its acceleration, and the links of the tracees it attaches, detaches, makes or
reaps. Everything else that the tracer does leaves the shape as it is. An invariant that survives
these changes survives the handling of the event.
-/

namespace Abyss

open Machine

/-! ## Changes of one record -/

/-- What handling a stop may do to the record of the stopped tracee, apart from detecting the
acceleration. -/
structure Own (t t' : Tracee) : Prop where
  pid : t'.pid = t.pid
  links : t'.links = t.links
  waitPid : t'.asPtracer.waitPid = t.asPtracer.waitPid
  parent : t'.parent = t.parent
  terminated : t'.terminated = t.terminated
  isRoot : t'.isRoot = t.isRoot
  deliverSigtrap : t'.deliverSigtrap = t.deliverSigtrap
  seccompDetected : t'.seccompDetected = t.seccompDetected
  seccompEnabled : t'.seccompEnabled = t.seccompEnabled
  sigstop : t.sigstop ≠ .pending → t'.sigstop ≠ .pending
  proot : t'.asPtracee.proot = t.asPtracee.proot ∨ t'.asPtracee.proot.pending = false
  status : t.isRoot = true → t.deliverSigtrap = false → t'.status = t.status
  seccomp : t'.seccomp = t.seccomp ∨ t.seccomp = .disabling ∧ t'.seccomp = .disabled

/-- The options of a root are set, and the acceleration is detected. -/
def settle (supported : Bool) (t : Tracee) : Tracee :=
  detectSeccomp { t with deliverSigtrap := true, seccompEnabled := supported }

/-- A mark of the handling of a stop. -/
def Call.isStopMark : Call → Bool
  | .handled .. | .enterStage .. | .exitStage .. | .contextStored .. | .unreadable .. |
    .onSysexit .. => true
  | _ => false

/-- A change of the record of one tracee. -/
inductive Solo (r : Ref) (w : World) : World → Prop
  | still {w' : World} : w'.shape = w.shape → w'.marks = w.marks →
      (∀ q, q ≠ r → w'.heap q = w.heap q) → Solo r w w'
  | mark {c : Call} : c.isStopMark = true → Solo r w (w.log c)
  | own {f : Tracee → Tracee} : Own (w.heap r) (f (w.heap r)) → Solo r w (w.update r f)
  | detect : Solo r w (w.update r detectSeccomp)
  | settle {supported : Bool} : (w.heap r).isRoot = true → (w.heap r).deliverSigtrap = false →
      Solo r w (w.update r (settle supported))

/-- A change by telling a ptracer about a ptracee: its wait begins or ends, and a ptracee that
has ended leaves it. -/
inductive Report (w : World) : World → Prop
  | still {w' : World} : w'.shape = w.shape → w'.marks = w.marks → Report w w'
  | mark {c : Call} : (∀ q, c ≠ .freed q) → Report w (w.log c)
  | wait {p : Ref} {pid : ℤ} {f : Tracee → Tracee} : (∀ t, (f t).shape =
      { t.shape with asPtracer := { t.shape.asPtracer with waitPid := pid } }) →
      Report w (w.update p f)
  | detach {q p : Ref} : q ∈ w.tracees → (w.heap q).asPtracee.ptracer = some p →
      Report w (w.detach q p)
  | reap {z p : Ref} : z ∈ (w.heap p).asPtracer.zombies →
      Report w (((w.detach z p).bury z).log (.freed z))

/-- A change by the handling of an event of a tracee; it only attaches to those it asks for. -/
inductive Change (asks : Ref → Prop) (r : Ref) (w : World) : World → Prop
  | solo {w' : World} : Solo r w w' → Change asks r w w'
  | report {w' : World} : Report w w' → Change asks r w w'
  | terminate : Change asks r w (w.update r fun t => { t with terminated := true })
  | hush {p : Ref} : Change asks r w (w.update p fun t => { t with sigstop := .ignored })
  | attach {q : Ref} : asks q → q ∈ w.tracees → (w.heap q).asPtracee.ptracer = none → q ≠ r →
      Change asks r w (w.attach q r)
  | traceme {p : Ref} : (w.heap r).asPtracee.ptracer = none → (w.heap r).parent = some p → p ≠ r →
      Change asks r w ((w.attach r p).update r fun t =>
        { t with seccomp := if t.seccomp = .enabled then .disabling else t.seccomp })
  | inherit {child p : Ref} : child ∈ w.tracees → (w.heap child).asPtracee.ptracer = none →
      (w.heap r).asPtracee.ptracer = some p → (w.heap child).seccomp = (w.heap r).seccomp →
      Change asks r w (w.attach child p)
  | create {pid : ℤ} : Change asks r w (w.create pid)
  | adopt {child : Ref} {cpu : Cpu} {cloneFlags : ℕ} : child ∈ w.tracees →
      (w.heap child).parent = none → (w.heap child).asPtracee.ptracer = none →
      Change asks r w (w.update child (inherit cpu r (w.heap r) cloneFlags))

section Shape

/-- A call does not change the shape of the world. -/
theorem World.log_shape (w : World) (c : Call) : (w.log c).shape = w.shape := rfl

/-- A change of a record leaves no mark. -/
theorem World.update_marks (w : World) (r : Ref) (f : Tracee → Tracee) :
    (w.update r f).marks = w.marks := rfl

/-- What only depends on the shape is the same for records of the same shape. -/
theorem Tracee.of_shape {t t' : Tracee} (h : t'.shape = t.shape) {α : Type} (f : Tracee → α)
    (hf : ∀ t, f t.shape = f t) : f t' = f t := by
  rw [← hf, h, hf]

/-- A field of the shape is the same in worlds of the same shape. -/
theorem shape_field {w w' : World} (h : w'.shape = w.shape) (r : Ref) {α : Type} (f : Tracee → α)
    (hf : ∀ t, f t.shape = f t) : f (w'.heap r) = f (w.heap r) :=
  Tracee.of_shape ((shape_eq_iff.mp h).1 r) f hf

end Shape

/-- A record that keeps its shape is a change of its own. -/
theorem Own.of_shape {t t' : Tracee} (h : t'.shape = t.shape) : Own t t' := by
  have hfield : ∀ {α : Type} (f : Tracee → α), (∀ t, f t.shape = f t) → f t' = f t :=
    fun f hf => Tracee.of_shape h f hf
  exact ⟨hfield Tracee.pid fun _ => rfl, hfield Tracee.links fun _ => rfl,
    hfield (fun t => t.asPtracer.waitPid) fun _ => rfl,
    hfield Tracee.parent fun _ => rfl,
    hfield Tracee.terminated fun _ => rfl, hfield Tracee.isRoot fun _ => rfl,
    hfield Tracee.deliverSigtrap fun _ => rfl, hfield Tracee.seccompDetected fun _ => rfl,
    hfield Tracee.seccompEnabled fun _ => rfl,
    fun hs => (hfield Tracee.sigstop fun _ => rfl).symm ▸ hs,
    Or.inl (hfield (fun t => t.asPtracee.proot) fun _ => rfl),
    fun _ _ => hfield Tracee.status fun _ => rfl, Or.inl (hfield Tracee.seccomp fun _ => rfl)⟩

/-- A root that the tracer has seen stop at a trap has its options set. -/
def Tracee.settled (t : Tracee) : Prop := t.isRoot = true → t.deliverSigtrap = true

/-- A tracee that is settled stays so when the filter is detected. -/
theorem detectSeccomp_settled {t : Tracee} (h : t.settled) : (detectSeccomp t).settled := by
  unfold detectSeccomp
  split
  · exact h
  · exact h

/-- A tracee that was settled is. -/
theorem settle_settled (supported : Bool) (t : Tracee) : (settle supported t).settled :=
  detectSeccomp_settled fun _ => rfl

/-- Worlds of the same shape have the same settled tracees. -/
theorem settled_shape {w w' : World} (h : w'.shape = w.shape) {q : Ref}
    (hq : (w.heap q).settled) : (w'.heap q).settled := by
  have hroot := shape_field h q Tracee.isRoot fun _ => rfl
  have hdeliver := shape_field h q Tracee.deliverSigtrap fun _ => rfl
  unfold Tracee.settled
  rw [hroot, hdeliver]
  exact hq

/-- Settled tracees stay settled. -/
theorem Solo.settled {r : Ref} {w w' : World} (h : Solo r w w') {q : Ref}
    (hq : (w.heap q).settled) : (w'.heap q).settled := by
  have hupdate : ∀ {f : Tracee → Tracee}, (q = r → (f (w.heap r)).settled) →
      ((w.update r f).heap q).settled := by
    intro f hf
    rw [World.update_heap]
    split
    · exact hf ‹_›
    · exact hq
  cases h with
  | still hshape => exact settled_shape hshape hq
  | mark => exact hq
  | own hown =>
    refine hupdate fun heq => ?_
    unfold Tracee.settled
    rw [hown.isRoot, hown.deliverSigtrap]
    exact heq ▸ hq
  | detect => exact hupdate fun heq => detectSeccomp_settled (heq ▸ hq)
  | settle => exact hupdate fun _ => settle_settled _ _

/-- A change that leaves the root alone keeps them. -/
theorem update_settled {w : World} {a q : Ref} {f : Tracee → Tracee}
    (hf : ∀ t, (f t).isRoot = t.isRoot ∧ (f t).deliverSigtrap = t.deliverSigtrap)
    (hq : (w.heap q).settled) : ((w.update a f).heap q).settled := by
  obtain ⟨hroot, hdeliver⟩ := hf (w.heap a)
  rw [World.update_heap]
  split
  · subst q
    unfold Tracee.settled
    rw [hroot, hdeliver]
    exact hq
  · exact hq

/-- So does a report to a ptracer. -/
theorem Report.settled {w w' : World} (h : Report w w') {q : Ref} (hq : (w.heap q).settled) :
    (w'.heap q).settled := by
  have hdetach : ∀ a p, ((w.detach a p).heap q).settled := fun a p => by
    rw [detach_heap]
    exact hq
  cases h with
  | still hshape => exact settled_shape hshape hq
  | mark => exact hq
  | wait hf =>
    refine update_settled (fun t => ?_) hq
    exact ⟨(congrArg Tracee.isRoot (hf t) :), (congrArg Tracee.deliverSigtrap (hf t) :)⟩
  | detach => exact hdetach _ _
  | reap => exact hdetach _ _

/-- So does every change. -/
theorem Change.settled {asks : Ref → Prop} {r : Ref} {w w' : World} (h : Change asks r w w')
    {q : Ref} (hq : (w.heap q).settled) : (w'.heap q).settled := by
  have hattach : ∀ a p, ((w.attach a p).heap q).settled := fun a p => by
    rw [attach_heap]
    exact hq
  cases h with
  | solo h => exact h.settled hq
  | report h => exact h.settled hq
  | terminate =>
    refine update_settled (fun _ => ?_) hq
    exact ⟨rfl, rfl⟩
  | hush =>
    refine update_settled (fun _ => ?_) hq
    exact ⟨rfl, rfl⟩
  | attach => exact hattach _ _
  | traceme =>
    refine update_settled (fun _ => ?_) (hattach _ _)
    exact ⟨rfl, rfl⟩
  | inherit => exact hattach _ _
  | create =>
    rw [create_heap]
    split
    · exact nofun
    · exact hq
  | adopt =>
    refine update_settled (fun _ => ?_) hq
    exact ⟨rfl, rfl⟩

section Report

variable {asks : Ref → Prop} {r : Ref} {w : World}

/-- Worlds of the same shape and marks are the same but for this. -/
theorem Change.still {w' : World} (hshape : w'.shape = w.shape) (hmarks : w'.marks = w.marks) :
    Change asks r w w' := .report (.still hshape hmarks)

/-- A mark is a change, unless it frees a tracee. -/
theorem Change.mark {c : Call} (hc : ∀ q, c ≠ .freed q) : Change asks r w (w.log c) :=
  .report (.mark hc)

/-- So is it to detach a ptracee. -/
theorem Change.detach {q p : Ref} (hq : q ∈ w.tracees)
    (hp : (w.heap q).asPtracee.ptracer = some p) : Change asks r w (w.detach q p) :=
  .report (.detach hq hp)

end Report

/-! ## Invariants that survive the changes -/

/-- No fault is the assertion on the number of ptracees. -/
def Counted (e : Fault) (_ : World) : Prop := e ≠ .noPtracees

/-- A condition on faults that only that assertion or the end of the fuel may fail. -/
def Ordinary (E : Fault → World → Prop) : Prop :=
  ∀ e w, e ≠ .noPtracees → e ≠ .outOfFuel → E e w

/-- The condition only fails on that assertion. -/
theorem Ordinary.counted : Ordinary Counted := fun _ _ h _ => h

/-- An invariant that survives telling a ptracer about a ptracee. -/
structure Telling (P : World → Prop) : Prop where
  report : ∀ w w', P w → Report w w' → P w'
  linked : ∀ w, P w → ∃ gone, Linked gone w

/-- An invariant that survives the handling of an event of a tracee. -/
structure Stable (asks : Ref → Prop) (r : Ref) (P : World → Prop) : Prop extends Telling P where
  change : ∀ w w', P w → Change asks r w w' → P w'
  listed : ∀ w, P w → r ∈ w.tracees

/-- What survives all changes survives reports. -/
theorem Stable.of_change {asks : Ref → Prop} {r : Ref} {P : World → Prop}
    (hchange : ∀ w w', P w → Change asks r w w' → P w') (hlinked : ∀ w, P w → ∃ gone, Linked gone w)
    (hlisted : ∀ w, P w → r ∈ w.tracees) : Stable asks r P :=
  ⟨⟨fun w w' hw h => hchange w w' hw (.report h), hlinked⟩, hchange, hlisted⟩

end Abyss
