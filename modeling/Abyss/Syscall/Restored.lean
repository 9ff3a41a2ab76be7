import Abyss.Syscall.EnterRegisters

/-!
# The registers that an exit finds again

The registers that are saved at the entry of a syscall are those that the kernel has reported there.
Whatever was set since, the exit pushes them again, except for the result, the instruction pointer
and what only the kernel changes. A wait that is restarted has its instruction pointer moved back to
its trap.
-/

namespace Abyss

open Machine

/-! ## What the entry saves -/

section Saved

variable {s : Setup} {r : Ref} {handle : Ref → ℤ → Prog ℤ}

/-- Pushing registers does not touch the saved ones. -/
theorem pushRegs_original (w : World) :
    ((pushRegs s r w).2.heap r).regs.original = (w.heap r).regs.original := by
  rw [pushRegs_heap]
  change (pushedRegs s (w.heap r)).original = _
  unfold pushedRegs
  split
  · exact restoreOriginalRegs_original _ _
  · rfl

/-- The entry of a syscall saves the registers that are reported. -/
theorem translateSyscall_saves {u v : World} (h : AtEntry s r u)
    (hv : enterStage s r (u.fetched r (fetchReply s r u).bank) = (.ok (), v)) :
    ((translateSyscall s handle r u).2.heap r).regs.original = (fetchReply s r u).bank := by
  obtain ⟨status, u', -, hentering, rfl⟩ := enterStage_entering h hv
  rw [translateSyscall_enter h hv, pushRegs_original]
  exact (hentering.finished status).original

/-- In the world `w` a tracee still has the registers that it has saved in the world `u`, in which it
entered a syscall. -/
structure EnteredAt (s : Setup) (handle : Ref → ℤ → Prog ℤ) (r : Ref) (u w : World) : Prop where
  entry : AtEntry s r u
  succeeded : ∃ v, enterStage s r (u.fetched r (fetchReply s r u).bank) = (.ok (), v)
  kept : (w.heap r).regs.original = ((translateSyscall s handle r u).2.heap r).regs.original

/-- These are the registers that were reported there. -/
theorem EnteredAt.original {u w : World} (h : EnteredAt s handle r u w) :
    (w.heap r).regs.original = (fetchReply s r u).bank := by
  obtain ⟨v, hv⟩ := h.succeeded
  exact h.kept.trans (translateSyscall_saves h.entry hv)

end Saved

/-! ## What the exit restores -/

/-- If anything was changed since the entry, the register file after the exit is that of the entry up
to the result, the instruction pointer and what only the kernel changes; that of the entry is the one
that was reported there. -/
theorem translateSyscall_restoresEntry (s : Setup) {r : Ref} {w : World} (h : AtExit s r w)
    (fuel : ℕ) {v : World}
    (hv : exitStage s (handleTraceeEvent s fuel) r (w.fetched r (fetchReply s r w).bank) =
      (.ok (), v))
    (hchanged : (v.heap r).regs.wereChanged = true) :
    (∃ pokes, (v.heap r).regs =
        pokeAll ((w.heap r).mode s.target) ((enteredExit s r w).heap r).regs pokes) ∧
      RestoresEntry ((w.heap r).mode s.target) (w.heap r).regs.original (fetchReply s r w).bank
        (v.heap r).regs.current
        (registerFile s (w.heap r).pid
          (translateSyscall s (handleTraceeEvent s fuel) r w).2.calls) ∧
      ∀ handle u, EnteredAt s handle r u w → (w.heap r).regs.original = (fetchReply s r u).bank := by
  obtain ⟨pokes, hpokes, hpushed⟩ := translateSyscall_pushes s h fuel hv hchanged
  refine ⟨⟨pokes, hpokes⟩, ?_, fun handle u hentered => hentered.original⟩
  rw [enteredExit_heap] at hpokes
  rw [hpushed, hpokes]
  exact restoreOriginalRegs_restoresEntry { (w.heap r).regs with
    current := (fetchReply s r w).bank, restoreOriginal := true } rfl

/-! ## A wait that is restarted -/

/-- The registers of a wait for any child. -/
def waitBank : Bank :=
  (Mode.mk .arm64 false).setWord (syscallBank 260 (2 ^ 64 - 1) 0 0 0) .instrPointer 0x1000

/-- A process forks the process 7, attaches to it and waits for it. -/
def endedChildScript : Script where
  banks := [syscallBank 220 0 0 0 0, syscallBank 117 16 7 0 0, syscallBank 117 16 7 0 0,
    waitBank, waitBank]
  messages := [7]

/-- The child exits before its parent enters the wait. -/
def endedChildInputs : List Input :=
  [.stop 5 0x137f, .stop 5 0x1057f, .stop 7 0x137f, .stop 5 0x857f, .stop 5 0x857f, .stop 7 0,
    .stop 5 0x857f]

/-- The exit stage has moved the instruction pointer of the first tracee back. -/
def MovedBack (exit : Except Fault Unit × World) : Prop :=
  exit.1.isOk = true ∧ (exit.2.heap 0).regs.wereChanged = true ∧
    (exit.2.heap 0).regs.current 64 = 0xffc

instance (exit : Except Fault Unit × World) : Decidable (MovedBack exit) :=
  inferInstanceAs (Decidable (_ ∧ _))

/-- What the exit stage of the first tracee makes of a world. -/
def exitOf (s : Setup) (w : World) : Except Fault Unit × World :=
  exitStage s (handleTraceeEvent s 3) 0 (w.fetched 0 (fetchReply s 0 w).bank)

/-- The first tracee is a process that nobody traces, and it has entered a syscall. -/
def Entered (w : World) : Prop :=
  0 ∈ w.tracees ∧ (w.heap 0).pid = 5 ∧ (w.heap 0).asPtracee.ptracer = none ∧
    (w.heap 0).status = 1 ∧ (w.heap 0).chain.syscalls = .null ∧ (w.heap 0).isAarch32 = false

instance (w : World) : Decidable (Entered w) := inferInstanceAs (Decidable (_ ∧ _))

/-- The registers of the first tracee are reported, with this instruction pointer. -/
def Reports (s : Setup) (w : World) : Prop :=
  0 ≤ (fetchReply s 0 w).status ∧ (fetchReply s 0 w).bank 64 = 0x1000

instance (s : Setup) (w : World) : Decidable (Reports s w) :=
  inferInstanceAs (Decidable (_ ∧ _))

section EndedChild

set_option maxRecDepth 100000

/-- The run leads to the exit of a wait. -/
theorem endedChild_runsTo_entered : runsTo World.tidy (eventLoop endedChildScript.setup 3)
    Input.possible Entered endedChildInputs World.initial = true := by
  decide_cbv

/-- The syscall is a wait. -/
theorem endedChild_runsTo_wait : runsTo World.tidy (eventLoop endedChildScript.setup 3)
    Input.possible (fun w => enteredSysnum endedChildScript.setup (w.heap 0) = .wait4)
    endedChildInputs World.initial = true := by
  decide_cbv

/-- The host reports the registers that were pushed. -/
theorem endedChild_runsTo_reports : runsTo World.tidy (eventLoop endedChildScript.setup 3)
    Input.possible (Reports endedChildScript.setup) endedChildInputs World.initial = true := by
  decide_cbv

/-- The exit moves the instruction pointer back. -/
theorem endedChild_runsTo_movedBack : runsTo World.tidy (eventLoop endedChildScript.setup 3)
    Input.possible (fun w => MovedBack (exitOf endedChildScript.setup w)) endedChildInputs
    World.initial = true := by
  decide_cbv

end EndedChild

/-- A run to the exit of a wait, which is restarted there. -/
theorem endedChild_run : ∃ w,
    Run (eventLoop endedChildScript.setup 3) Input.possible World.initial w ∧
      AtExit endedChildScript.setup 0 w ∧ (w.heap 0).isAarch32 = false ∧
      (fetchReply endedChildScript.setup 0 w).bank 64 = 0x1000 ∧
      MovedBack (exitOf endedChildScript.setup w) := by
  obtain ⟨w, hrun, ⟨⟨hlisted, hpid, hptracer, hstatus, hchain, haarch⟩, hwait⟩, ⟨hfetched, hbank⟩,
      hmoved⟩ :=
    Run.start.of_runsTo World.tidy_eq
      (runsTo_and (runsTo_and endedChild_runsTo_entered endedChild_runsTo_wait)
        (runsTo_and endedChild_runsTo_reports endedChild_runsTo_movedBack))
  refine ⟨w, hrun, ⟨(orderly_of_run hrun).mono (Set.empty_subset _), ⟨hlisted, ?_⟩, ?_, hfetched,
    ?_, hchain, ?_⟩, haarch, hbank, hmoved⟩
  · rw [hpid]
    decide
  · rw [hptracer]
    exact fun h => nomatch h
  · rw [hstatus]
    decide
  · rw [hwait]
    decide

/-- The wait is restarted: all but the instruction pointer is found again. -/
theorem translateSyscall_restoresEntry_endedChild : ∃ w v : World,
    RestoresEntry ((w.heap 0).mode endedChildScript.setup.target) (w.heap 0).regs.original
      (fetchReply endedChildScript.setup 0 w).bank (v.heap 0).regs.current
      (registerFile endedChildScript.setup (w.heap 0).pid
        (translateSyscall endedChildScript.setup (handleTraceeEvent endedChildScript.setup 3) 0
          w).2.calls) := by
  obtain ⟨w, -, hexit, -, -, hok, hchanged, -⟩ := endedChild_run
  rcases hv : exitOf endedChildScript.setup w with ⟨_ | ⟨⟩, v⟩
  · rw [hv] at hok
    cases hok
  · rw [hv] at hchanged
    exact ⟨w, v, (translateSyscall_restoresEntry endedChildScript.setup hexit 3 hv hchanged).2.1⟩

/-- A process leaves a wait with another instruction pointer than the kernel has reported, although
this is neither the result nor a register of the entry. -/
theorem endedChild_movesInstrPointer : ∃ w : World,
    Run (eventLoop endedChildScript.setup 3) Input.possible World.initial w ∧
      AtExit endedChildScript.setup 0 w ∧
      ∃ i, (∀ reg ∈ .sysargResult :: ((w.heap 0).mode endedChildScript.setup.target).keptRegs,
          i ∉ ((w.heap 0).mode endedChildScript.setup.target).regSlots reg) ∧
        registerFile endedChildScript.setup (w.heap 0).pid
            (translateSyscall endedChildScript.setup
              (handleTraceeEvent endedChildScript.setup 3) 0 w).2.calls i ≠
          (fetchReply endedChildScript.setup 0 w).bank i := by
  obtain ⟨w, hrun, hexit, haarch, hbank, hok, hchanged, hmoved⟩ := endedChild_run
  have hmode : (w.heap 0).mode endedChildScript.setup.target = ⟨.arm64, false⟩ :=
    congrArg (Mode.mk .arm64) haarch
  refine ⟨w, hrun, hexit, 64, ?_, ?_⟩
  · rw [hmode]
    decide
  · rcases hv : exitOf endedChildScript.setup w with ⟨_ | ⟨⟩, v⟩
    · rw [hv] at hok
      cases hok
    · rw [hv] at hchanged hmoved
      have hrestores :=
        (translateSyscall_restoresEntry endedChildScript.setup hexit 3 hv hchanged).2.1
      rw [hmode] at hrestores
      rw [hrestores.left .instrPointer (by decide) 64 (by decide), hmoved, hbank]
      decide

end Abyss
