import Abyss.Library.RefCount
import Abyss.Tracee.Frame

/-!
# The links between tracees

Records point to their parent and to their ptracer, a ptracer counts its ptracees and keeps its
zombies in a list of its own. The shape of the world is what remains of the records when only
these links and the state of their own events are looked at. While a tracee is being removed it
is in no list any more, but may still be counted; such a tracee is the exception `gone`.
-/

namespace Abyss

open Machine RefCount

/-! ## The shape of the world -/

/-- The links of a record and the state of its own events. -/
def Tracee.shape (t : Tracee) : Tracee where
  pid := t.pid
  terminated := t.terminated
  parent := t.parent
  asPtracer :=
    { nbPtracees := t.asPtracer.nbPtracees
      zombies := t.asPtracer.zombies
      waitPid := t.asPtracer.waitPid }
  asPtracee :=
    { ptracer := t.asPtracee.ptracer, proot := t.asPtracee.proot, isZombie := t.asPtracee.isZombie }
  status := t.status
  sigstop := t.sigstop
  seccomp := t.seccomp
  isZombie := t.isZombie
  isRoot := t.isRoot
  deliverSigtrap := t.deliverSigtrap
  seccompDetected := t.seccompDetected
  seccompEnabled := t.seccompEnabled

/-- The world with nothing but the shape of its records. -/
def World.shape (w : World) : World where
  heap r := (w.heap r).shape
  next := w.next
  tracees := w.tracees
  nextVpid := 0
  lastExitStatus := 0
  snewAttachPid := 0
  calls := []

/-- The marks left so far, newest first. -/
def World.marks (w : World) : List Call := w.calls.filter Call.isMark

/-- Two worlds with the same shape have the same lists and the same shapes of records. -/
theorem shape_eq_iff {w w' : World} :
    w'.shape = w.shape ↔
      (∀ r, (w'.heap r).shape = (w.heap r).shape) ∧ w'.next = w.next ∧ w'.tracees = w.tracees := by
  constructor
  · intro h
    have hheap : w'.shape.heap = w.shape.heap := congrArg World.heap h
    have hnext : w'.shape.next = w.shape.next := congrArg World.next h
    have htracees : w'.shape.tracees = w.shape.tracees := congrArg World.tracees h
    exact ⟨fun r => congrFun hheap r, hnext, htracees⟩
  · rintro ⟨hheap, hnext, htracees⟩
    unfold World.shape
    rw [hnext, htracees, funext hheap]

/-- A change within a record that keeps its shape keeps the shape of the world. -/
theorem World.update_shape (w : World) (r : Ref) {f : Tracee → Tracee}
    (h : ∀ t, (f t).shape = t.shape) : (w.update r f).shape = w.shape := by
  refine shape_eq_iff.mpr ⟨fun q => ?_, rfl, rfl⟩
  rw [World.update_heap]
  split
  · subst q
    exact h _
  · rfl

/-- What keeps the core keeps the shape and the marks. -/
theorem shape_of_core {w w' : World} (h : w'.core = w.core) :
    w'.shape = w.shape ∧ w'.marks = w.marks := by
  have hheap : w'.core.heap = w.core.heap := congrArg World.heap h
  have hnext : w'.core.next = w.core.next := congrArg World.next h
  have htracees : w'.core.tracees = w.core.tracees := congrArg World.tracees h
  have hcalls : w'.core.calls = w.core.calls := congrArg World.calls h
  refine ⟨shape_eq_iff.mpr ⟨fun r => ?_, hnext, htracees⟩, hcalls⟩
  have hshape : (w'.core.heap r).shape = (w.core.heap r).shape :=
    congrArg Tracee.shape (congrFun hheap r)
  exact hshape

/-! ## Well-linked worlds -/

/-- The ptracer of each record. -/
def World.ptracerOf (w : World) (r : Ref) : Option Ref := (w.heap r).asPtracee.ptracer

/-- How many records are traced by a ptracer. -/
def World.traced (w : World) (ptracer : Ref) : ℕ := uses w.next w.ptracerOf ptracer

/-- The links are sound: listed tracees are alive, zombies are traced by the tracee that keeps
them, and the count of a ptracer covers its ptracees, exactly so for a listed one, whose
ptracees are all listed or among its zombies. -/
structure Linked (gone : Option Ref) (w : World) : Prop where
  listed_lt : ∀ r ∈ w.tracees, r < w.next
  nodup : w.tracees.Nodup
  listed_alive : ∀ r ∈ w.tracees, (w.heap r).isZombie = false
  reported : ∀ r, (w.heap r).asPtracee.isZombie = true → (w.heap r).isZombie = true
  parent_lt : ∀ r p, (w.heap r).parent = some p → p < w.next
  ptracer_lt : ∀ r p, (w.heap r).asPtracee.ptracer = some p → r < w.next ∧ p < w.next
  counted : ∀ R, w.traced R ≤ (w.heap R).asPtracer.nbPtracees
  exact : ∀ R ∈ w.tracees, (w.heap R).asPtracer.nbPtracees = w.traced R
  zombie : ∀ R, ∀ z ∈ (w.heap R).asPtracer.zombies, z < w.next ∧ (w.heap z).isZombie = true ∧
    (w.heap z).asPtracee.isZombie = true ∧ (w.heap z).asPtracee.ptracer = some R
  zombies_nodup : ∀ R, (w.heap R).asPtracer.zombies.Nodup
  entry : ∀ r R, (w.heap r).asPtracee.ptracer = some R → R ∈ w.tracees →
    r ∈ w.tracees ∨ r ∈ (w.heap R).asPtracer.zombies ∨ gone = some r
  gone_out : ∀ d, gone = some d → d ∉ w.tracees ∧ d < w.next ∧ (w.heap d).isZombie = false
  sigstop : ∀ r, (w.heap r).sigstop ≠ .pending

/-- Soundness of the links is a matter of the shape. -/
theorem linked_shape {gone : Option Ref} {w : World} : Linked gone w.shape ↔ Linked gone w :=
  ⟨fun ⟨h₁, h₂, h₃, h₄, h₅, h₆, h₇, h₈, h₉, h₁₀, h₁₁, h₁₂, h₁₃⟩ =>
      ⟨h₁, h₂, h₃, h₄, h₅, h₆, h₇, h₈, h₉, h₁₀, h₁₁, h₁₂, h₁₃⟩,
    fun ⟨h₁, h₂, h₃, h₄, h₅, h₆, h₇, h₈, h₉, h₁₀, h₁₁, h₁₂, h₁₃⟩ =>
      ⟨h₁, h₂, h₃, h₄, h₅, h₆, h₇, h₈, h₉, h₁₀, h₁₁, h₁₂, h₁₃⟩⟩

section Linked

variable {gone : Option Ref} {w w' : World}

/-- The links between ptracers and ptracees. -/
def Tracee.links (t : Tracee) : Tracee where
  asPtracer := { nbPtracees := t.asPtracer.nbPtracees, zombies := t.asPtracer.zombies }
  asPtracee := { ptracer := t.asPtracee.ptracer, isZombie := t.asPtracee.isZombie }
  isZombie := t.isZombie

/-- What only depends on the links is the same for records with the same links. -/
theorem Tracee.of_links {t t' : Tracee} (h : t'.links = t.links) {α : Type} (f : Tracee → α)
    (hf : ∀ t, f t.links = f t) : f t' = f t := by
  rw [← hf, h, hf]

/-- A change of everything but these links, to a sound parent, keeps the links sound. -/
theorem Linked.of_links (h : Linked gone w) (hlinks : ∀ r, (w'.heap r).links = (w.heap r).links)
    (hnext : w'.next = w.next) (htracees : w'.tracees = w.tracees)
    (hparent : ∀ r p, (w'.heap r).parent = some p → p < w.next)
    (hsigstop : ∀ r, (w'.heap r).sigstop ≠ .pending) : Linked gone w' := by
  have htracer : ∀ r, (w'.heap r).asPtracee.ptracer = (w.heap r).asPtracee.ptracer := fun r =>
    Tracee.of_links (hlinks r) (fun t => t.asPtracee.ptracer) fun _ => rfl
  have hreported : ∀ r, (w'.heap r).asPtracee.isZombie = (w.heap r).asPtracee.isZombie :=
    fun r => Tracee.of_links (hlinks r) (fun t => t.asPtracee.isZombie) fun _ => rfl
  have hzombie : ∀ r, (w'.heap r).isZombie = (w.heap r).isZombie := fun r =>
    Tracee.of_links (hlinks r) (fun t => t.isZombie) fun _ => rfl
  have hcount : ∀ r, (w'.heap r).asPtracer.nbPtracees = (w.heap r).asPtracer.nbPtracees :=
    fun r => Tracee.of_links (hlinks r) (fun t => t.asPtracer.nbPtracees) fun _ => rfl
  have hzombies : ∀ r, (w'.heap r).asPtracer.zombies = (w.heap r).asPtracer.zombies := fun r =>
    Tracee.of_links (hlinks r) (fun t => t.asPtracer.zombies) fun _ => rfl
  have htraced : ∀ R, w'.traced R = w.traced R := by
    intro R
    unfold World.traced
    rw [hnext]
    exact uses_congr (fun r _ => htracer r) R
  refine ⟨?_, ?_, ?_, ?_, hnext ▸ hparent, ?_, ?_, ?_, ?_, ?_, ?_, ?_, hsigstop⟩
  · rw [htracees, hnext]
    exact h.listed_lt
  · rw [htracees]
    exact h.nodup
  · simpa only [htracees, hzombie] using h.listed_alive
  · simpa only [hreported, hzombie] using h.reported
  · simpa only [htracer, hnext] using h.ptracer_lt
  · simpa only [htraced, hcount] using h.counted
  · simpa only [htracees, htraced, hcount] using h.exact
  · simpa only [hzombies, hnext, hzombie, hreported, htracer] using h.zombie
  · simpa only [hzombies] using h.zombies_nodup
  · simpa only [htracer, htracees, hzombies] using h.entry
  · simpa only [htracees, hnext, hzombie] using h.gone_out

/-- So does such a change within one record. -/
theorem Linked.update (h : Linked gone w) {r : Ref} {f : Tracee → Tracee}
    (hlinks : (f (w.heap r)).links = (w.heap r).links)
    (hparent : ∀ p, (f (w.heap r)).parent = some p → p < w.next)
    (hsigstop : (f (w.heap r)).sigstop ≠ .pending) : Linked gone (w.update r f) := by
  refine h.of_links (fun q => ?_) rfl rfl (fun q p hp => ?_) fun q => ?_
  · rw [World.update_heap]
    split
    · subst q
      exact hlinks
    · rfl
  · rw [World.update_heap] at hp
    split at hp
    · exact hparent p hp
    · exact h.parent_lt q p hp
  · rw [World.update_heap]
    split
    · exact hsigstop
    · exact h.sigstop q

/-- A world of the same shape is linked in the same way. -/
theorem Linked.of_shape (h : Linked gone w) (hshape : w'.shape = w.shape) : Linked gone w' := by
  rw [← linked_shape, hshape, linked_shape]
  exact h

/-- A listed ptracer's ptracees are its entries in the two kinds of lists. -/
theorem Linked.countP (h : Linked none w) {R : Ref} (hR : R ∈ w.tracees) :
    (w.tracees ++ (w.heap R).asPtracer.zombies).countP
        (fun r => (w.heap r).asPtracee.ptracer = some R) =
      (w.heap R).asPtracer.nbPtracees := by
  rw [h.exact R hR]
  refine countP_eq_uses ?_ fun r hr => ?_
  · refine List.nodup_append.mpr ⟨h.nodup, h.zombies_nodup R, fun r hr z hz heq => ?_⟩
    subst heq
    have halive := h.listed_alive r hr
    rw [(h.zombie R r hz).2.1] at halive
    cases halive
  · rw [List.mem_append]
    constructor
    · rintro (hlisted | hzombie)
      · exact h.listed_lt r hlisted
      · exact (h.zombie R r hzombie).1
    · intro _
      rcases h.entry r R hr hR with hlisted | hzombie | hgone
      · exact Or.inl hlisted
      · exact Or.inr hzombie
      · cases hgone

/-- A ptracer with a ptracee counts it. -/
theorem Linked.nbPtracees_pos (h : Linked gone w) {q p : Ref}
    (hq : (w.heap q).asPtracee.ptracer = some p) : 0 < (w.heap p).asPtracer.nbPtracees :=
  (uses_pos (h.ptracer_lt q p hq).1 hq).trans_le (h.counted p)

end Linked

/-! ## Changes of the links -/

/-- A ptracee gets a ptracer. -/
def World.attach (w : World) (q p : Ref) : World :=
  (w.update q fun t => { t with asPtracee := { ptracer := some p } }).update p fun t =>
    { t with asPtracer := { t.asPtracer with nbPtracees := t.asPtracer.nbPtracees + 1 } }

/-- A ptracee loses its ptracer. -/
def World.detach (w : World) (q p : Ref) : World :=
  (w.update q fun t => { t with asPtracee := { t.asPtracee with ptracer := none } }).update p
    fun t => { t with asPtracer := { t.asPtracer with nbPtracees := t.asPtracer.nbPtracees - 1 } }

/-- A zombie leaves the list it is in. -/
def World.bury (w : World) (z : Ref) : World :=
  { w with heap := fun r =>
    { w.heap r with asPtracer :=
      { (w.heap r).asPtracer with zombies := (w.heap r).asPtracer.zombies.erase z } } }

section Fields

variable (w : World) (q p r : Ref)

/-- The records after a tracee was attached. -/
theorem attach_heap : (w.attach q p).heap r =
    { w.heap r with
      asPtracee := if r = q then { ptracer := some p } else (w.heap r).asPtracee
      asPtracer := { (w.heap r).asPtracer with
        nbPtracees := (w.heap r).asPtracer.nbPtracees + if r = p then 1 else 0 } } := by
  unfold World.attach
  rw [World.update_heap, World.update_heap, World.update_heap]
  by_cases hp : r = p
  · subst hp
    by_cases hq : r = q
    · subst hq
      simp
    · simp [hq]
  · by_cases hq : r = q
    · subst hq
      simp [hp]
    · simp [hp, hq]

/-- The records after a tracee was detached. -/
theorem detach_heap : (w.detach q p).heap r =
    { w.heap r with
      asPtracee := { (w.heap r).asPtracee with
        ptracer := if r = q then none else (w.heap r).asPtracee.ptracer }
      asPtracer := { (w.heap r).asPtracer with
        nbPtracees := (w.heap r).asPtracer.nbPtracees - if r = p then 1 else 0 } } := by
  unfold World.detach
  rw [World.update_heap, World.update_heap, World.update_heap]
  by_cases hp : r = p
  · subst hp
    by_cases hq : r = q
    · subst hq
      simp
    · simp [hq]
  · by_cases hq : r = q
    · subst hq
      simp [hp]
    · simp [hp, hq]

end Fields

section Linked

variable {gone : Option Ref} {w : World}

/-- A listed tracee without a ptracer may be attached to any tracee. -/
theorem Linked.attach (h : Linked gone w) {q p : Ref} (hq : q ∈ w.tracees)
    (hfree : (w.heap q).asPtracee.ptracer = none) (hp : p < w.next) :
    Linked gone (w.attach q p) := by
  have halive := h.listed_alive q hq
  have htraced : ∀ R, (w.attach q p).traced R = w.traced R + if R = p then 1 else 0 := by
    intro R
    have hnone : w.ptracerOf q = none := hfree
    change uses w.next (w.attach q p).ptracerOf R = uses w.next w.ptracerOf R + _
    refine uses_link (h.listed_lt q hq) hnone ?_ (fun r hr => ?_) R
    · simp [World.ptracerOf, attach_heap]
    · simp [World.ptracerOf, attach_heap, hr]
  refine ⟨h.listed_lt, h.nodup, fun r hr => ?_, fun r hr => ?_, fun r a hr => ?_, fun r a hr => ?_,
    fun R => ?_, fun R hR => ?_, fun R z hz => ?_, fun R => ?_, fun r R hr hR => ?_, fun d hd => ?_,
    fun r => ?_⟩
  · rw [attach_heap]
    exact h.listed_alive r hr
  · rw [attach_heap] at hr ⊢
    by_cases hrq : r = q
    · simp [hrq] at hr
    · exact h.reported r (by simpa [hrq] using hr)
  · rw [attach_heap] at hr
    exact h.parent_lt r a hr
  · rw [attach_heap] at hr
    by_cases hrq : r = q
    · subst hrq
      have hpa : p = a := by simpa using hr
      exact hpa ▸ ⟨h.listed_lt r hq, hp⟩
    · exact h.ptracer_lt r a (by simpa [hrq] using hr)
  · rw [htraced, attach_heap]
    exact Nat.add_le_add_right (h.counted R) _
  · rw [htraced, attach_heap]
    exact congrArg (· + _) (h.exact R hR)
  · rw [attach_heap] at hz
    obtain ⟨hlt, hzombie, hreported, htracer⟩ := h.zombie R z hz
    have hzq : z ≠ q := by
      rintro rfl
      rw [hfree] at htracer
      cases htracer
    rw [attach_heap]
    simpa [hzq] using ⟨hlt, hzombie, hreported, htracer⟩
  · rw [attach_heap]
    exact h.zombies_nodup R
  · rw [attach_heap] at hr ⊢
    by_cases hrq : r = q
    · exact Or.inl (hrq ▸ hq)
    · exact h.entry r R (by simpa [hrq] using hr) hR
  · rw [attach_heap]
    exact h.gone_out d hd
  · rw [attach_heap]
    exact h.sigstop r

/-- A ptracee may lose its ptracer, and its place among the zombies, if a listed ptracer does not
count it any more. -/
theorem Linked.clear (h : Linked gone w) {w' : World} {gone' : Option Ref} {q p : Ref}
    (hq : (w.heap q).asPtracee.ptracer = some p) (hnext : w'.next = w.next)
    (htracees : w'.tracees = w.tracees)
    (hheap : ∀ r, (w'.heap r).asPtracee.ptracer =
        (if r = q then none else (w.heap r).asPtracee.ptracer) ∧
      (w'.heap r).asPtracer.zombies = (w.heap r).asPtracer.zombies.erase q ∧
      (w'.heap r).asPtracee.isZombie = (w.heap r).asPtracee.isZombie ∧
      (w'.heap r).isZombie = (w.heap r).isZombie ∧ (w'.heap r).parent = (w.heap r).parent ∧
      (w'.heap r).sigstop = (w.heap r).sigstop)
    (hle : ∀ R, (w.heap R).asPtracer.nbPtracees ≤
      (w'.heap R).asPtracer.nbPtracees + if R = p then 1 else 0)
    (heq : ∀ R ∈ w.tracees, (w'.heap R).asPtracer.nbPtracees =
      (w.heap R).asPtracer.nbPtracees - if R = p then 1 else 0)
    (hgone : ∀ r, gone = some r → r = q ∨ gone' = some r)
    (hgone' : ∀ d, gone' = some d → gone = some d) : Linked gone' w' := by
  have htraced : ∀ R, w.traced R = w'.traced R + if R = p then 1 else 0 := by
    intro R
    have hsome : w.ptracerOf q = some p := hq
    unfold World.traced
    rw [hnext]
    refine uses_unlink (h.ptracer_lt q p hq).1 hsome ?_ (fun r hr => ?_) R
    · simp [World.ptracerOf, hheap]
    · simp [World.ptracerOf, hheap, hr]
  have hold : ∀ {r a}, (w'.heap r).asPtracee.ptracer = some a →
      r ≠ q ∧ (w.heap r).asPtracee.ptracer = some a := by
    intro r a hr
    rw [(hheap r).1] at hr
    by_cases hrq : r = q
    · simp [hrq] at hr
    · exact ⟨hrq, by simpa [hrq] using hr⟩
  have herase : ∀ {R z}, z ∈ (w'.heap R).asPtracer.zombies ↔
      z ≠ q ∧ z ∈ (w.heap R).asPtracer.zombies := by
    intro R z
    rw [(hheap R).2.1]
    exact (h.zombies_nodup R).mem_erase_iff
  refine ⟨?_, ?_, ?_, fun r hr => ?_, fun r a hr => ?_, fun r a hr => ?_, fun R => ?_,
    fun R hR => ?_, fun R z hz => ?_, fun R => ?_, fun r R hr hR => ?_, fun d hd => ?_,
    fun r => ?_⟩
  · rw [htracees, hnext]
    exact h.listed_lt
  · rw [htracees]
    exact h.nodup
  · intro r hr
    rw [(hheap r).2.2.2.1]
    exact h.listed_alive r (htracees ▸ hr)
  · rw [(hheap r).2.2.1] at hr
    rw [(hheap r).2.2.2.1]
    exact h.reported r hr
  · rw [(hheap r).2.2.2.2.1] at hr
    exact hnext ▸ h.parent_lt r a hr
  · exact hnext ▸ h.ptracer_lt r a (hold hr).2
  · have hcount := h.counted R
    have hR := htraced R
    have hR' := hle R
    omega
  · have hcount := h.exact R (htracees ▸ hR)
    have hR' := htraced R
    rw [heq R (htracees ▸ hR)]
    omega
  · obtain ⟨hzq, hmem⟩ := herase.mp hz
    obtain ⟨hlt, hzombie, hreported, htracer⟩ := h.zombie R z hmem
    rw [hnext, (hheap z).2.2.2.1, (hheap z).2.2.1, (hheap z).1, if_neg hzq]
    exact ⟨hlt, hzombie, hreported, htracer⟩
  · rw [(hheap R).2.1]
    exact (h.zombies_nodup R).erase q
  · obtain ⟨hrq, hr⟩ := hold hr
    rw [htracees] at hR ⊢
    rcases h.entry r R hr hR with hlisted | hzombie | hr
    · exact Or.inl hlisted
    · exact Or.inr (Or.inl (herase.mpr ⟨hrq, hzombie⟩))
    · exact Or.inr (Or.inr ((hgone r hr).resolve_left hrq))
  · rw [htracees, hnext, (hheap d).2.2.2.1]
    exact h.gone_out d (hgone' d hd)
  · rw [(hheap r).2.2.2.2.2]
    exact h.sigstop r

/-- A zombie is in no other list, and a tracee that is no zombie in none of the zombies'. -/
theorem Linked.erase_alive (h : Linked gone w) {q : Ref} (halive : (w.heap q).isZombie = false)
    (R : Ref) : (w.heap R).asPtracer.zombies.erase q = (w.heap R).asPtracer.zombies := by
  refine List.erase_of_not_mem fun hmem => ?_
  rw [(h.zombie R q hmem).2.1] at halive
  cases halive

/-- A ptracee that is no zombie may lose its ptracer; a tracee that is being removed is then gone
for good. -/
theorem Linked.detach (h : Linked gone w) {gone' : Option Ref} {q p : Ref}
    (hq : (w.heap q).asPtracee.ptracer = some p) (halive : (w.heap q).isZombie = false)
    (hgone : ∀ r, gone = some r → r = q ∨ gone' = some r)
    (hgone' : ∀ d, gone' = some d → gone = some d) : Linked gone' (w.detach q p) := by
  refine h.clear hq rfl rfl (fun r => ?_) (fun R => ?_) (fun R _ => ?_) hgone hgone'
  · rw [detach_heap, h.erase_alive halive]
    exact ⟨rfl, rfl, rfl, rfl, rfl, rfl⟩
  · rw [detach_heap]
    dsimp only
    omega
  · rw [detach_heap]

/-- A zombie may be freed once it is detached. -/
theorem Linked.reap (h : Linked gone w) {z p : Ref} (hp : (w.heap z).asPtracee.ptracer = some p) :
    Linked gone ((w.detach z p).bury z) := by
  have hheap : ∀ r, ((w.detach z p).bury z).heap r =
      { w.heap r with
        asPtracee := { (w.heap r).asPtracee with
          ptracer := if r = z then none else (w.heap r).asPtracee.ptracer }
        asPtracer := { (w.heap r).asPtracer with
          nbPtracees := (w.heap r).asPtracer.nbPtracees - if r = p then 1 else 0
          zombies := (w.heap r).asPtracer.zombies.erase z } } := by
    intro r
    simp only [World.bury, detach_heap]
  refine h.clear hp rfl rfl (fun r => ?_) (fun R => ?_) (fun R _ => ?_) (fun r hr => Or.inr hr)
    fun d hd => hd
  · rw [hheap]
    exact ⟨rfl, rfl, rfl, rfl, rfl, rfl⟩
  · rw [hheap]
    dsimp only
    omega
  · rw [hheap]

/-! ## New tracees -/

/-- A new record is allocated and listed. -/
def World.create (w : World) (pid : ℤ) : World :=
  { w.allocate.update w.next fun t => { t with pid := pid, vpid := w.nextVpid } with
    tracees := w.next :: w.tracees, nextVpid := w.nextVpid + 1 }

/-- The records after a tracee was created. -/
theorem create_heap (w : World) (pid : ℤ) (r : Ref) : (w.create pid).heap r =
    if r = w.next then { pid := pid, vpid := w.nextVpid } else w.heap r := by
  simp only [World.create, World.update_heap, World.allocate, World.log, Function.update_self,
    Function.update_apply]
  split <;> rfl

/-- Creating a tracee either fails, or lists a new record. -/
theorem newTracee_cases (s : Setup) (pid : ℤ) (w : World) :
    newTracee s pid w = (.ok none, w.log .alloc) ∨
      newTracee s pid w = (.ok (some w.next), (w.log .alloc).create pid) := by
  unfold newTracee
  rcases newDummyTracee_cases s w with h | h
  · rw [bind_apply_ok h]
    exact Or.inl rfl
  · rw [bind_apply_ok h]
    exact Or.inr rfl

/-- A new tracee has no links. -/
theorem Linked.create (h : Linked gone w) (pid : ℤ) : Linked gone (w.create pid) := by
  have hold : ∀ r, r ≠ w.next → (w.create pid).heap r = w.heap r := fun r hr => by
    rw [create_heap, if_neg hr]
  have hnew : (w.create pid).heap w.next = { pid := pid, vpid := w.nextVpid } := by
    rw [create_heap, if_pos rfl]
  have htraced : ∀ R, (w.create pid).traced R = w.traced R := by
    intro R
    have hnone : (w.create pid).ptracerOf w.next = none := by
      unfold World.ptracerOf
      rw [hnew]
    have hlt : ∀ r < w.next, (w.create pid).ptracerOf r = w.ptracerOf r := fun r hr => by
      unfold World.ptracerOf
      rw [hold r hr.ne]
    exact (uses_succ hnone R).trans (uses_congr hlt R)
  have hunused : w.traced w.next = 0 := by
    refine uses_eq_zero fun r _ hr => ?_
    exact lt_irrefl _ (h.ptracer_lt r w.next hr).2
  refine ⟨fun r hr => ?_, ?_, fun r hr => ?_, fun r hr => ?_, fun r a hr => ?_, fun r a hr => ?_,
    fun R => ?_, fun R hR => ?_, fun R z hz => ?_, fun R => ?_, fun r R hr hR => ?_, fun d hd => ?_,
    fun r => ?_⟩
  · rcases List.mem_cons.mp hr with rfl | hr
    · exact Nat.lt_succ_self _
    · exact Nat.lt_succ_of_lt (h.listed_lt r hr)
  · exact List.nodup_cons.mpr ⟨fun hmem => lt_irrefl _ (h.listed_lt _ hmem), h.nodup⟩
  · rw [create_heap]
    split
    · rfl
    · rename_i hne
      exact h.listed_alive r ((List.mem_cons.mp hr).resolve_left hne)
  · rw [create_heap] at hr ⊢
    split at hr
    · cases hr
    · rename_i hne
      rw [if_neg hne]
      exact h.reported r hr
  · rw [create_heap] at hr
    split at hr
    · cases hr
    · exact Nat.lt_succ_of_lt (h.parent_lt r a hr)
  · rw [create_heap] at hr
    split at hr
    · cases hr
    · exact (h.ptracer_lt r a hr).imp Nat.lt_succ_of_lt Nat.lt_succ_of_lt
  · rw [htraced, create_heap]
    split
    · rename_i heq
      rw [heq, hunused]
    · exact h.counted R
  · rw [htraced, create_heap]
    split
    · rename_i heq
      rw [heq, hunused]
    · rename_i hne
      exact h.exact R ((List.mem_cons.mp hR).resolve_left hne)
  · rw [create_heap] at hz
    split at hz
    · cases hz
    · obtain ⟨hlt, hrest⟩ := h.zombie R z hz
      rw [hold z hlt.ne]
      exact ⟨Nat.lt_succ_of_lt hlt, hrest⟩
  · rw [create_heap]
    split
    · exact List.nodup_nil
    · exact h.zombies_nodup R
  · rw [create_heap] at hr
    split at hr
    · cases hr
    · have hlt := (h.ptracer_lt r R hr).2
      rw [hold R hlt.ne]
      have hlisted := h.entry r R hr ((List.mem_cons.mp hR).resolve_left hlt.ne)
      exact hlisted.imp_left (List.mem_cons_of_mem _)
  · obtain ⟨hout, hlt, halive⟩ := h.gone_out d hd
    rw [hold d hlt.ne]
    exact ⟨fun hmem => hout ((List.mem_cons.mp hmem).resolve_left hlt.ne),
      Nat.lt_succ_of_lt hlt, halive⟩
  · rw [create_heap]
    split
    · exact nofun
    · exact h.sigstop r

/-! ## Removed tracees -/

/-- Before the first event there is nothing to link. -/
theorem Linked.initial : Linked none World.initial := by
  have htraced : ∀ R, World.initial.traced R = 0 := fun R => uses_eq_zero nofun
  refine ⟨nofun, List.nodup_nil, nofun, nofun, nofun, nofun, fun R => ?_, nofun, nofun,
    fun _ => List.nodup_nil, nofun, nofun, fun _ => nofun⟩
  rw [htraced]
  exact Nat.zero_le _

/-- A tracee that leaves the list is gone, but still linked to its ptracer. -/
theorem Linked.unlist (h : Linked none w) {dead : Ref} (hdead : dead ∈ w.tracees) :
    Linked (some dead) { w with tracees := w.tracees.erase dead } := by
  have hmem : ∀ {r}, r ∈ w.tracees.erase dead → r ∈ w.tracees := List.mem_of_mem_erase
  refine ⟨fun r hr => h.listed_lt r (hmem hr), h.nodup.erase dead,
    fun r hr => h.listed_alive r (hmem hr), h.reported, h.parent_lt, h.ptracer_lt, h.counted,
    fun R hR => h.exact R (hmem hR), h.zombie, h.zombies_nodup, fun r R hr hR => ?_, ?_,
    h.sigstop⟩
  · rcases h.entry r R hr (hmem hR) with hlisted | hzombie | hgone
    · by_cases hrd : r = dead
      · exact Or.inr (Or.inr (congrArg some hrd.symm))
      · exact Or.inl (h.nodup.mem_erase_iff.mpr ⟨hrd, hlisted⟩)
    · exact Or.inr (Or.inl hzombie)
    · cases hgone
  · rintro d ⟨rfl⟩
    exact ⟨fun hin => (h.nodup.mem_erase_iff.mp hin).1 rfl, h.listed_lt _ hdead,
      h.listed_alive _ hdead⟩

/-- A listed ptracee of a tracee that is in no list loses its ptracer, which is not counted. -/
theorem Linked.unlink (h : Linked gone w) {q p : Ref}
    (hq : (w.heap q).asPtracee.ptracer = some p) (hlisted : q ∈ w.tracees) (hp : p ∉ w.tracees) :
    Linked gone (w.update q fun t => { t with asPtracee := { t.asPtracee with ptracer := none } })
    := by
  have hheap : ∀ r, (w.update q fun t =>
      { t with asPtracee := { t.asPtracee with ptracer := none } }).heap r =
      { w.heap r with asPtracee := { (w.heap r).asPtracee with
        ptracer := if r = q then none else (w.heap r).asPtracee.ptracer } } := by
    intro r
    rw [World.update_heap]
    by_cases hrq : r = q
    · subst hrq
      simp
    · simp [hrq]
  refine h.clear hq rfl rfl (fun r => ?_) (fun R => ?_) (fun R hR => ?_) (fun r hr => Or.inr hr)
    fun d hd => hd
  · rw [hheap, h.erase_alive (h.listed_alive q hlisted)]
    exact ⟨rfl, rfl, rfl, rfl, rfl, rfl⟩
  · rw [hheap]
    exact Nat.le_add_right _ _
  · have hne : R ≠ p := fun heq => hp (heq ▸ hR)
    rw [hheap, if_neg hne]
    rfl

/-- A removed tracee without a ptracer is gone for good. -/
theorem Linked.depart {d : Ref} (h : Linked (some d) w) (hd : (w.heap d).asPtracee.ptracer = none) :
    Linked none w := by
  refine ⟨h.listed_lt, h.nodup, h.listed_alive, h.reported, h.parent_lt, h.ptracer_lt, h.counted,
    h.exact, h.zombie, h.zombies_nodup, fun r R hr hR => ?_, nofun, h.sigstop⟩
  rcases h.entry r R hr hR with hlisted | hzombie | hgone
  · exact Or.inl hlisted
  · exact Or.inr (Or.inl hzombie)
  · cases hgone
    rw [hd] at hr
    cases hr

/-! ## The programs that change the links -/

/-- To attach to a ptracer that is there. -/
theorem attachToPtracer_apply (w : World) (q p : Ref) :
    attachToPtracer q (some p) w = (.ok (), w.attach q p) := rfl

/-- A ptracee whose ptracer counts it is detached. -/
theorem detachFromPtracer_apply {q p : Ref} (hq : (w.heap q).asPtracee.ptracer = some p)
    (hp : 0 < (w.heap p).asPtracer.nbPtracees) :
    detachFromPtracer q w = (.ok (), w.detach q p) := by
  have hcount : ((w.update q fun t =>
      { t with asPtracee := { t.asPtracee with ptracer := none } }).heap p).asPtracer.nbPtracees ≠
      0 := by
    rw [World.update_heap]
    split
    · subst q
      exact hp.ne'
    · exact hp.ne'
  unfold detachFromPtracer
  rw [bind_apply_ok (tracee_apply ..), bind_apply_ok (update_apply ..), hq]
  rw [bind_apply_ok (show deref (some p) _ = (.ok p, _) from rfl), bind_apply_ok (tracee_apply ..),
    when, if_neg hcount]
  rfl

/-- A tracee without a ptracer cannot be detached. -/
theorem detachFromPtracer_none {q : Ref} (hq : (w.heap q).asPtracee.ptracer = none) :
    detachFromPtracer q w = (.error .nullPointer, w.update q fun t =>
      { t with asPtracee := { t.asPtracee with ptracer := none } }) := by
  unfold detachFromPtracer
  rw [bind_apply_ok (tracee_apply ..), bind_apply_ok (update_apply ..), hq]
  rfl

/-- The world after a zombie was made of a dead ptracee. -/
def World.zombified (w : World) (dead p : Ref) : World :=
  { (w.log .alloc).allocate with heap := fun r =>
      if r = w.next then
        { isZombie := true
          parent := (w.heap dead).parent
          clone := (w.heap dead).clone
          pid := (w.heap dead).pid
          asPtracee :=
            { ptracer := some p
              event := ⟨(w.heap dead).asPtracee.event.value, true⟩
              isZombie := true } }
      else
        { w.heap r with
          asPtracee := { (w.heap r).asPtracee with
            ptracer := if r = dead then none else (w.heap r).asPtracee.ptracer }
          asPtracer := { (w.heap r).asPtracer with
            zombies := if r = p then w.next :: (w.heap r).asPtracer.zombies
              else (w.heap r).asPtracer.zombies } } }

/-- Worlds that only might differ in their heaps. -/
theorem World.eq_of_heap {w w' : World} (hheap : ∀ r, w.heap r = w'.heap r)
    (hrest : { w with heap := w'.heap } = w') : w = w' := by
  rw [← hrest, ← funext hheap]

/-- The zombie takes the place of the dead ptracee. -/
theorem zombify_apply {dead p : Ref} (hdead : dead < w.next) (hp : p < w.next)
    (hptracer : (w.heap dead).asPtracee.ptracer = some p)
    (hcount : 0 < (w.heap p).asPtracer.nbPtracees) :
    zombify dead p w.next (w.log .alloc).allocate = (.ok (), w.zombified dead p) := by
  have hold : ∀ r, r ≠ w.next → (w.log .alloc).allocate.heap r = w.heap r := fun r hr => by
    simp [World.allocate, World.log, Function.update_of_ne hr]
  have hnew : (w.log .alloc).allocate.heap w.next = {} := by
    simp [World.allocate, World.log]
  unfold zombify
  rw [bind_apply_ok (tracee_apply ..), bind_apply_ok (update_apply ..),
    bind_apply_ok (update_apply ..), hold dead hdead.ne]
  generalize hw₃ : ((w.log .alloc).allocate.update p _).update w.next _ = w₃
  have hw₃' : ∀ r, w₃.heap r =
      if r = w.next then
        { isZombie := true
          parent := (w.heap dead).parent
          clone := (w.heap dead).clone
          pid := (w.heap dead).pid }
      else
        { w.heap r with asPtracer := { (w.heap r).asPtracer with
            zombies := if r = p then w.next :: (w.heap r).asPtracer.zombies
              else (w.heap r).asPtracer.zombies } } := by
    intro r
    rw [← hw₃, World.update_heap]
    by_cases hr : r = w.next
    · subst hr
      simp [World.update_heap, hp.ne', hnew]
    · by_cases hrp : r = p
      · subst hrp
        simp [hr, hold r hr]
      · simp [hr, hrp, hold r hr]
  have htraced : (w₃.heap dead).asPtracee.ptracer = some p := by
    rw [hw₃', if_neg hdead.ne]
    exact hptracer
  have hnb : 0 < (w₃.heap p).asPtracer.nbPtracees := by
    rw [hw₃', if_neg hp.ne]
    exact hcount
  rw [bind_apply_ok (detachFromPtracer_apply htraced hnb),
    bind_apply_ok (attachToPtracer_apply ..), update_apply]
  refine congrArg (Prod.mk _) (World.eq_of_heap (fun r => ?_) (by rw [← hw₃]; rfl))
  rw [World.update_heap, attach_heap, detach_heap, attach_heap, detach_heap, hw₃', hw₃',
    World.zombified]
  by_cases hr : r = w.next
  · subst hr
    simp [hp.ne']
  · by_cases hrp : r = p
    · subst hrp
      simp [hr]
      omega
    · simp [hr, hrp]

/-- The zombie is sound, and the dead ptracee is gone for good. -/
theorem Linked.zombified {dead p : Ref} (h : Linked (some dead) w)
    (hptracer : (w.heap dead).asPtracee.ptracer = some p) : Linked none (w.zombified dead p) := by
  obtain ⟨hout, hdead, halive⟩ := h.gone_out dead rfl
  have hp : p < w.next := (h.ptracer_lt dead p hptracer).2
  have hnext : (w.zombified dead p).next = w.next + 1 := rfl
  have hnew : (w.zombified dead p).heap w.next =
      { isZombie := true
        parent := (w.heap dead).parent
        clone := (w.heap dead).clone
        pid := (w.heap dead).pid
        asPtracee :=
          { ptracer := some p
            event := ⟨(w.heap dead).asPtracee.event.value, true⟩
            isZombie := true } } := if_pos rfl
  have hold : ∀ r, r ≠ w.next → (w.zombified dead p).heap r =
      { w.heap r with
        asPtracee := { (w.heap r).asPtracee with
          ptracer := if r = dead then none else (w.heap r).asPtracee.ptracer }
        asPtracer := { (w.heap r).asPtracer with
          zombies := if r = p then w.next :: (w.heap r).asPtracer.zombies
            else (w.heap r).asPtracer.zombies } } := fun r hr => if_neg hr
  have hfresh : w.traced w.next = 0 := uses_eq_zero fun r _ hr =>
    lt_irrefl _ (h.ptracer_lt r w.next hr).2
  -- The zombie adds the use of the ptracer that the dead ptracee takes away.
  have htraced : ∀ R, (w.zombified dead p).traced R = w.traced R := by
    intro R
    let undead : Ref → Option Ref := fun r => if r = dead then none else w.ptracerOf r
    let cleared : Ref → Option Ref := fun r => if r = w.next then none else undead r
    have hdrop : uses w.next w.ptracerOf R = uses w.next undead R + if R = p then 1 else 0 :=
      uses_unlink hdead hptracer (if_pos rfl) (fun r hr => if_neg hr) R
    have hcleared : uses w.next cleared R = uses w.next undead R :=
      uses_congr (fun r hr => if_neg hr.ne) R
    have hsucc : uses (w.next + 1) cleared R = uses w.next cleared R := uses_succ (if_pos rfl) R
    have hadd : uses (w.next + 1) (w.zombified dead p).ptracerOf R =
        uses (w.next + 1) cleared R + if R = p then 1 else 0 := by
      refine uses_link (Nat.lt_succ_self w.next) (if_pos rfl) ?_ (fun r hr => ?_) R
      · rw [World.ptracerOf, hnew]
      · rw [World.ptracerOf, hold r hr]
        simp [cleared, undead, hr, World.ptracerOf]
    unfold World.traced
    rw [hnext]
    omega
  refine ⟨fun r hr => Nat.lt_succ_of_lt (h.listed_lt r hr), h.nodup, fun r hr => ?_, fun r hr => ?_,
    fun r a hr => ?_, fun r a hr => ?_, fun R => ?_, fun R hR => ?_, fun R z hz => ?_, fun R => ?_,
    fun r R hr hR => ?_, nofun, fun r => ?_⟩
  · rw [hold r (h.listed_lt r hr).ne]
    exact h.listed_alive r hr
  · by_cases hrn : r = w.next
    · rw [hrn, hnew]
    · rw [hold r hrn] at hr ⊢
      exact h.reported r hr
  · by_cases hrn : r = w.next
    · rw [hrn, hnew] at hr
      exact Nat.lt_succ_of_lt (h.parent_lt dead a hr)
    · rw [hold r hrn] at hr
      exact Nat.lt_succ_of_lt (h.parent_lt r a hr)
  · by_cases hrn : r = w.next
    · rw [hrn, hnew] at hr
      obtain rfl : p = a := Option.some.inj hr
      exact ⟨hrn ▸ Nat.lt_succ_self _, Nat.lt_succ_of_lt hp⟩
    · rw [hold r hrn] at hr
      by_cases hrd : r = dead
      · simp [hrd] at hr
      · exact (h.ptracer_lt r a (by simpa [hrd] using hr)).imp Nat.lt_succ_of_lt Nat.lt_succ_of_lt
  · rw [htraced]
    by_cases hRn : R = w.next
    · rw [hRn, hfresh]
      exact Nat.zero_le _
    · rw [hold R hRn]
      exact h.counted R
  · rw [htraced, hold R (h.listed_lt R hR).ne]
    exact h.exact R hR
  · by_cases hRn : R = w.next
    · rw [hRn, hnew] at hz
      cases hz
    · rw [hold R hRn] at hz
      have hkept : z ∈ (w.heap R).asPtracer.zombies → z < w.next + 1 ∧
          ((w.zombified dead p).heap z).isZombie = true ∧
          ((w.zombified dead p).heap z).asPtracee.isZombie = true ∧
          ((w.zombified dead p).heap z).asPtracee.ptracer = some R := by
        intro hmem
        obtain ⟨hlt, hzombie, hreported, htracer⟩ := h.zombie R z hmem
        have hzd : z ≠ dead := by
          rintro rfl
          rw [halive] at hzombie
          cases hzombie
        rw [hold z hlt.ne]
        refine ⟨Nat.lt_succ_of_lt hlt, ?_⟩
        simpa [hzd] using ⟨hzombie, hreported, htracer⟩
      by_cases hRp : R = p
      · rcases List.mem_cons.mp (by simpa [hRp] using hz) with hzn | hmem
        · rw [hzn, hnew]
          exact ⟨Nat.lt_succ_self _, rfl, rfl, congrArg some hRp.symm⟩
        · exact hkept (hRp ▸ hmem)
      · exact hkept (by simpa [hRp] using hz)
  · by_cases hRn : R = w.next
    · rw [hRn, hnew]
      exact List.nodup_nil
    · rw [hold R hRn]
      dsimp only
      split
      · refine List.nodup_cons.mpr ⟨fun hmem => ?_, h.zombies_nodup R⟩
        exact lt_irrefl _ (h.zombie R _ hmem).1
      · exact h.zombies_nodup R
  · have hRn := (h.listed_lt R hR).ne
    rw [hold R hRn]
    by_cases hrn : r = w.next
    · rw [hrn, hnew] at hr
      obtain rfl : p = R := Option.some.inj hr
      exact Or.inr (Or.inl (by simp [hrn]))
    · rw [hold r hrn] at hr
      by_cases hrd : r = dead
      · simp [hrd] at hr
      · have hkept : r ∈ (w.heap R).asPtracer.zombies → r ∈ (if R = p then
            w.next :: (w.heap R).asPtracer.zombies else (w.heap R).asPtracer.zombies) := by
          intro hmem
          split
          · exact List.mem_cons_of_mem _ hmem
          · exact hmem
        rcases h.entry r R (by simpa [hrd] using hr) hR with hlisted | hmem | hgone
        · exact Or.inl hlisted
        · exact Or.inr (Or.inl (hkept hmem))
        · exact absurd (Option.some.inj hgone).symm hrd
  · by_cases hrn : r = w.next
    · rw [hrn, hnew]
      exact nofun
    · rw [hold r hrn]
      exact h.sigstop r

end Linked

end Abyss
