import Abyss.Tracee.Round

/-!
# The number of ptracees

A ptracer counts its ptracees, and a wait of it is emulated only while it has some. The count is
changed wherever a ptracee is attached, inherited, declared, detached, hidden, reaped or removed;
since each of these keeps the links sound, the count is that of the entries that name the ptracer,
whatever the order of events.
-/

namespace Abyss

open Machine

variable {s : Setup} {fuel : ℕ}

instance (t : Tracee) : Decidable t.settled := inferInstanceAs (Decidable (_ → _))

instance (t : Tracee) (status : ℤ) : Decidable (Fits t status) :=
  inferInstanceAs (Decidable (_ → _ → _))

instance (w : World) : ∀ i : Input, Decidable (i.possible w)
  | .stop _ _ => inferInstanceAs (Decidable (_ ∧ _))
  | .traceNewPid _ => inferInstanceAs (Decidable True)

/-- Being anything at all survives everything. -/
theorem Lasting.trivial : Lasting fun _ => True :=
  ⟨fun _ _ _ _ _ _ _ => True.intro, fun _ _ _ => True.intro, fun _ _ => True.intro,
    fun _ _ _ => True.intro, fun _ _ _ _ _ => True.intro⟩

/-- Before the first event the world is orderly. -/
theorem Orderly.initial : Orderly none ∅ World.initial :=
  ⟨Linked.initial, nofun, nofun, nofun, nofun⟩

/-- A round keeps the world orderly. -/
theorem eventLoop_orderly (s : Setup) (fuel : ℕ) (i : Input) :
    Triple (fun w => Orderly none ∅ w ∧ i.possible w) (eventLoop s fuel i)
      (fun _ => Orderly none ∅) Counted :=
  (Lasting.trivial.eventLoop_keeps (C := fun _ _ _ => True) (J := fun _ _ => True)
    (fun _ _ _ _ _ => True.intro) (fun _ _ _ _ _ => True.intro)
    (fun _ _ _ _ _ _ _ _ _ _ _ => True.intro) (fun _ _ _ => True.intro) fuel i).conseq
    (fun _ hw => ⟨⟨hw.1, True.intro⟩, hw.2, fun _ _ _ => True.intro⟩) (fun _ _ hw => hw.1)
    fun _ _ h => h

/-- Every run goes through orderly worlds. -/
theorem orderly_of_run {w : World} (h : Run (eventLoop s fuel) Input.possible World.initial w) :
    Orderly none ∅ w :=
  h.invariant Orderly.initial (E := Counted) (eventLoop_orderly s fuel)

/-- Between the rounds of every run, the count of a tracee is that of the entries in the list of
tracees and among its zombies whose ptracer it is, and no round fails since a count is zero. -/
theorem nbPtracees_eq_countP {w : World}
    (h : Run (eventLoop s fuel) Input.possible World.initial w) :
    (∀ R ∈ w.tracees, (w.heap R).asPtracer.nbPtracees =
      (w.tracees ++ (w.heap R).asPtracer.zombies).countP
        fun r => (w.heap r).asPtracee.ptracer = some R) ∧
      ∀ i : Input, i.possible w → (eventLoop s fuel i w).1 ≠ .error .noPtracees := by
  refine ⟨fun R hR => ((orderly_of_run h).linked.countP hR).symm, fun i hi heq => ?_⟩
  exact (eventLoop_orderly s fuel i w ⟨orderly_of_run h, hi⟩).2 _ _ (Prod.ext heq rfl) rfl

/-- The process 5 attaches to the process 7. -/
def attachScript : Script where
  banks := [syscallBank 117 16 7 0 0, syscallBank 117 16 7 0 0]

/-- Both processes stop, and the first one enters and leaves the request. -/
def attachInputs : List Input :=
  [.stop 7 0x137f, .stop 5 0x137f, .stop 5 0x857f, .stop 5 0x857f]

set_option maxRecDepth 100000 in
/-- A run in which a tracee attaches to another one. -/
theorem attach_runsTo : runsTo World.tidy (eventLoop attachScript.setup 3) Input.possible
    (fun w => 1 ∈ w.tracees ∧ (w.heap 1).asPtracer.nbPtracees = 1) attachInputs World.initial =
    true := by
  decide_cbv

/-- In a run a ptracer has attached to one ptracee, and counts the one entry that names it. -/
theorem nbPtracees_eq_countP_attach :
    ∃ w, Run (eventLoop attachScript.setup 3) Input.possible World.initial w ∧
      (World.heap w 1).asPtracer.nbPtracees = 1 ∧
      (w.tracees ++ (w.heap 1).asPtracer.zombies).countP
        (fun r => (w.heap r).asPtracee.ptracer = some 1) = 1 := by
  obtain ⟨w, hrun, hlisted, hcount⟩ := Run.start.of_runsTo World.tidy_eq attach_runsTo
  exact ⟨w, hrun, hcount, ((nbPtracees_eq_countP hrun).1 1 hlisted).symm.trans hcount⟩

end Abyss
