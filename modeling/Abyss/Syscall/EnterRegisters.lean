import Abyss.Syscall.ExitRegisters

/-!
# The registers at the entry of a syscall

At the entry of a syscall the tracer saves the registers that its host has reported, and sets some
of the cached ones until it pushes them at the end of the stage. Nothing that it does in between
loses the saved registers, and the cache only differs from them if it is marked as changed.

A syscall whose entry needs no exit is restarted at once. Its stack pointer is restored at the
entry already.
-/

namespace Abyss

open Machine

/-! ## What the host knows of the registers -/

/-- The calls that report or set registers of a process. -/
def Call.isRegs : Call → Bool
  | .getRegs _ | .setRegs .. | .setSyscall .. => true
  | _ => false

section Kernel

variable (s : Setup)

/-- The number of the syscall that a process is stopped at: that of the registers last reported,
or the one that was set since. -/
def syscallNumber (m : Mode) (pid : ℤ) : List Call → ℕ
  | [] => 0
  | .setSyscall p number :: past => if p = pid then number else syscallNumber m pid past
  | .getRegs p :: past =>
      if p = pid then m.word (s.host (.getRegs p :: past)).bank .sysargNum
      else syscallNumber m pid past
  | _ :: past => syscallNumber m pid past

variable {s}

/-- A call that is not about registers does not change them. -/
theorem registerFile_cons {c : Call} (h : c.isRegs = false) (pid : ℤ) (past : List Call) :
    registerFile s pid (c :: past) = registerFile s pid past := by
  cases c <;> first | rfl | cases h

/-- Nor does it change the number of the syscall. -/
theorem syscallNumber_cons {c : Call} (h : c.isRegs = false) (m : Mode) (pid : ℤ)
    (past : List Call) : syscallNumber s m pid (c :: past) = syscallNumber s m pid past := by
  cases c <;> first | rfl | cases h

end Kernel

/-! ## Registers of a register file -/

/-- A register in a register file. -/
def registerIn (m : Mode) (bank : Bank) (reg : Reg) : ℕ :=
  peekReg m ⟨bank, bank, bank, false, false⟩ .current reg

/-- A current register is read from its bank. -/
theorem registerIn_current (m : Mode) (regs : Regs) (reg : Reg) :
    registerIn m regs.current reg = peekReg m regs .current reg := rfl

/-- So is one at the entry. -/
theorem registerIn_original {m : Mode} {regs : Regs} {bank : Bank} (h : regs.original = bank)
    (reg : Reg) : peekReg m regs .original reg = registerIn m bank reg := by
  rw [← h]
  rfl

/-- It only depends on the slots of the register. -/
theorem registerIn_congr {m : Mode} {bank bank' : Bank} {reg : Reg}
    (h : ∀ i ∈ m.regSlots reg, bank' i = bank i) : registerIn m bank' reg = registerIn m bank reg :=
  peekReg_congr h

/-- To be apart is symmetric. -/
theorem Mode.Apart.symm {m : Mode} {reg reg' : Reg} (h : m.Apart reg reg') : m.Apart reg' reg :=
  ⟨h.1.symm, fun h64 => (h.2 h64).symm⟩

/-- The stack pointer is apart from all other registers. -/
theorem stackPointer_apart (m : Mode) {reg : Reg} (h : reg ≠ .stackPointer) :
    m.Apart reg .stackPointer := by
  rcases m with ⟨_ | _, _ | _⟩ <;> cases reg <;> first | exact absurd rfl h | decide

/-- A register reads back as it was set, cut to its size. -/
theorem peekReg_pokeReg_mod {m : Mode} (regs : Regs) (reg : Reg) (value : ℕ) :
    peekReg m (pokeReg m regs reg value) .current reg = value % 2 ^ m.bits := by
  unfold pokeReg
  split
  · rename_i hsame
    rw [← hsame, Nat.mod_eq_of_lt (peekReg_lt ..)]
  · obtain ⟨_ | _, _ | _⟩ := m <;>
      simp [peekReg, Mode.bits, Mode.is32on64, Mode.word, Mode.setWord, Cpu.wordBits, Regs.bank]
    omega

/-! ## What the entry keeps -/

/-- A tracee at the entry of a syscall that was not chained; its registers are reported. -/
structure AtEntry (s : Setup) (r : Ref) (w : World) : Prop where
  fetched : 0 ≤ (fetchReply s r w).status
  entering : (w.heap r).status = 0
  unchained : (w.heap r).chain.syscalls = .null

/-- Between its first and its last step the entry of a syscall has saved the registers that were
reported, and only differs from them where it is marked as changed; `t` is the record before. -/
structure Entering (s : Setup) (r : Ref) (t : Tracee) (bank : Bank) (w : World) : Prop where
  pid : (w.heap r).pid = t.pid
  chain : (w.heap r).chain = t.chain
  isAarch32 : (w.heap r).isAarch32 = t.isAarch32
  restartHow : (w.heap r).restartHow = t.restartHow
  original : (w.heap r).regs.original = bank
  restore : (w.heap r).regs.restoreOriginal = false
  unchanged : (w.heap r).regs.wereChanged = false → (w.heap r).regs.current = bank
  file : registerFile s t.pid w.calls = bank
  number : syscallNumber s (t.mode s.target) t.pid w.calls =
    (t.mode s.target).word bank .sysargNum

section Entering

variable {s : Setup} {r : Ref} {t : Tracee} {bank : Bank}

/-- The mode stays while a syscall is entered. -/
theorem Entering.mode {w : World} (h : Entering s r t bank w) :
    (w.heap r).mode s.target = t.mode s.target := by
  unfold Tracee.mode
  rw [h.isAarch32]

/-- A program that keeps the entry of a syscall going. -/
abbrev KeepsEntering {α : Type} (s : Setup) (r : Ref) (t : Tracee) (bank : Bank) (x : Prog α) :
    Prop :=
  Keeps (Entering s r t bank) (fun _ _ => True) x

/-- A change of the record that only sets registers. -/
theorem update_keepsEntering {f : Tracee → Tracee}
    (hf : ∀ t, Sets s t (f t) ∧ (f t).restartHow = t.restartHow) :
    KeepsEntering s r t bank (update r f) := by
  refine update_keeps fun w hw => ?_
  obtain ⟨⟨hpid, hchain, haarch, pokes, hpokes⟩, hrestart⟩ := hf (w.heap r)
  obtain ⟨horiginal, hrestore⟩ := pokeAll_frame ((w.heap r).mode s.target) (w.heap r).regs pokes
  constructor
  all_goals try rw [World.update_self]
  · exact hpid.trans hw.pid
  · exact hchain.trans hw.chain
  · exact haarch.trans hw.isAarch32
  · exact hrestart.trans hw.restartHow
  · rw [hpokes, horiginal, hw.original]
  · rw [hpokes, hrestore, hw.restore]
  · intro hsame
    rw [hpokes] at hsame ⊢
    have hnone := pokeAll_wereChanged hsame
    rw [hnone] at hsame ⊢
    exact hw.unchanged hsame
  · exact hw.file
  · exact hw.number

/-- A mark does not touch the registers. -/
theorem mark_keepsEntering {c : Call} (hc : c.isRegs = false) :
    KeepsEntering s r t bank (mark c) :=
  mark_keeps fun _ hw => ⟨hw.pid, hw.chain, hw.isAarch32, hw.restartHow, hw.original, hw.restore,
    hw.unchanged, (registerFile_cons hc ..).trans hw.file,
    (syscallNumber_cons hc ..).trans hw.number⟩

/-- Nor does a question to the host. -/
theorem ask_keepsEntering {c : Call} (hc : c.isRegs = false) :
    KeepsEntering s r t bank (ask s c) :=
  Keeps.bind (mark_keepsEntering hc) fun _ => Keeps.bind Keeps.read fun _ => Keeps.pure _

/-- A poke is one to the current registers. -/
theorem poke_keepsEntering (reg : Reg) (value : ℕ) : KeepsEntering s r t bank (poke s r reg value) :=
  update_keepsEntering fun _ => ⟨⟨rfl, rfl, rfl, [(reg, value)], rfl⟩, rfl⟩

/-- So is a change of the number. -/
theorem pokeSysnum_keepsEntering (sysnum : Sysnum) :
    KeepsEntering s r t bank (pokeSysnum s r sysnum) :=
  update_keepsEntering fun _ => ⟨⟨rfl, rfl, rfl, [(.sysargNum, _)], rfl⟩, rfl⟩

/-- To read a register does not touch any. -/
theorem peek_keepsEntering (version : RegVersion) (reg : Reg) :
    KeepsEntering s r t bank (peek s r version reg) :=
  Keeps.bind (tracee_keeps r) fun _ => Keeps.pure _

/-- A change of the record that does not concern its registers. -/
theorem updateOther_keepsEntering {f : Tracee → Tracee}
    (hf : ∀ t, (f t).pid = t.pid ∧ (f t).chain = t.chain ∧ (f t).isAarch32 = t.isAarch32 ∧
      (f t).regs = t.regs ∧ (f t).restartHow = t.restartHow) :
    KeepsEntering s r t bank (update r f) :=
  update_keepsEntering fun t =>
    ⟨⟨(hf t).1, (hf t).2.1, (hf t).2.2.1, [], (hf t).2.2.2.1⟩, (hf t).2.2.2.2⟩

/-- The headers of an executable do not touch the registers. -/
theorem extractLoadInfos_keepsEntering : KeepsEntering s r t bank (extractLoadInfos s r) := by
  refine Keeps.bind (ask_keepsEntering rfl) fun _ => ?_
  refine Keeps.bind (updateOther_keepsEntering fun _ => ⟨rfl, rfl, rfl, rfl, rfl⟩) fun _ => ?_
  refine Keeps.ite (fun _ => Keeps.pure _) fun _ => Keeps.ite (fun _ => ?_) fun _ => Keeps.pure _
  exact Keeps.bind (ask_keepsEntering rfl) fun _ =>
    Keeps.ite (fun _ => Keeps.pure _) fun _ => Keeps.pure _

/-- Nor does a path. -/
theorem sysargPath_keepsEntering (reg : Reg) : KeepsEntering s r t bank (sysargPath s r reg) := by
  refine Keeps.bind (peek_keepsEntering _ _) fun _ => Keeps.bind (tracee_keeps r) fun _ => ?_
  refine Keeps.bind (Keeps.ite (fun _ => Keeps.pure _) fun _ => ask_keepsEntering rfl) fun _ => ?_
  exact Keeps.pure _

/-- An `execve` only pokes registers. -/
theorem translateExecveEnter_keepsEntering :
    KeepsEntering s r t bank (translateExecveEnter s r) := by
  have hother : ∀ {f : Tracee → Tracee}, (∀ t, (f t).pid = t.pid ∧ (f t).chain = t.chain ∧
      (f t).isAarch32 = t.isAarch32 ∧ (f t).regs = t.regs ∧ (f t).restartHow = t.restartHow) →
      KeepsEntering s r t bank (update r f) := updateOther_keepsEntering
  refine Keeps.bind (Keeps.bind (tracee_keeps r) fun _ => Keeps.pure _) fun _ => ?_
  refine Keeps.ite (fun _ => ?_) fun _ => ?_
  · refine Keeps.bind (hother fun _ => ⟨rfl, rfl, rfl, rfl, rfl⟩) fun _ => ?_
    exact Keeps.bind (pokeSysnum_keepsEntering _) fun _ => Keeps.pure _
  refine Keeps.bind (sysargPath_keepsEntering _) fun _ => ?_
  refine Keeps.ite (fun _ => Keeps.pure _) fun _ => ?_
  refine Keeps.bind (ask_keepsEntering rfl) fun _ => Keeps.ite (fun _ => Keeps.pure _) fun _ => ?_
  refine Keeps.bind (ask_keepsEntering rfl) fun _ => Keeps.ite (fun _ => Keeps.pure _) fun _ => ?_
  refine Keeps.bind (hother fun _ => ⟨rfl, rfl, rfl, rfl, rfl⟩) fun _ => ?_
  refine Keeps.bind (ask_keepsEntering rfl) fun _ => Keeps.ite (fun _ => Keeps.pure _) fun _ => ?_
  refine Keeps.bind (hother fun _ => ⟨rfl, rfl, rfl, rfl, rfl⟩) fun _ => ?_
  refine Keeps.bind (ask_keepsEntering rfl) fun _ => Keeps.ite (fun _ => Keeps.pure _) fun _ => ?_
  refine Keeps.bind (ask_keepsEntering rfl) fun _ => Keeps.ite (fun _ => Keeps.pure _) fun _ => ?_
  exact extractLoadInfos_keepsEntering

/-- So does a wait. -/
theorem translateWaitEnter_keepsEntering : KeepsEntering s r t bank (translateWaitEnter s r) := by
  refine Keeps.bind (updateOther_keepsEntering fun _ => ⟨rfl, rfl, rfl, rfl, rfl⟩) fun _ => ?_
  refine Keeps.bind (tracee_keeps r) fun _ => Keeps.ite (fun _ => Keeps.pure _) fun _ => ?_
  refine Keeps.bind (peek_keepsEntering _ _) fun _ => ?_
  refine Keeps.bind (peek_keepsEntering _ _) fun _ => Keeps.bind Keeps.read fun _ => ?_
  refine Keeps.ite (fun _ => Keeps.pure _) fun _ => ?_
  refine Keeps.bind (pokeSysnum_keepsEntering _) fun _ => ?_
  refine Keeps.bind (updateOther_keepsEntering fun _ => ⟨rfl, rfl, rfl, rfl, rfl⟩) fun _ => ?_
  exact Keeps.pure _

/-- The translation of the arguments keeps the entry going. -/
theorem translateSyscallEnter_keepsEntering :
    KeepsEntering s r t bank (translateSyscallEnter s r) := by
  refine Keeps.bind (Keeps.bind (tracee_keeps r) fun _ => Keeps.pure _) fun number => ?_
  split
  · exact translateExecveEnter_keepsEntering
  · refine Keeps.bind (peek_keepsEntering _ _) fun _ => ?_
    refine Keeps.ite (fun _ => ?_) fun _ => Keeps.pure _
    refine Keeps.bind (pokeSysnum_keepsEntering _) fun _ => ?_
    refine Keeps.bind (peek_keepsEntering _ _) fun _ => Keeps.bind (poke_keepsEntering _ _) fun _ => ?_
    refine Keeps.bind (peek_keepsEntering _ _) fun _ => Keeps.bind (poke_keepsEntering _ _) fun _ => ?_
    refine Keeps.bind (peek_keepsEntering _ _) fun _ => Keeps.bind (poke_keepsEntering _ _) fun _ => ?_
    exact translateExecveEnter_keepsEntering
  · exact Keeps.bind (pokeSysnum_keepsEntering _) fun _ => Keeps.pure _
  · exact translateWaitEnter_keepsEntering
  · exact translateWaitEnter_keepsEntering
  · exact sysargPath_keepsEntering _
  · refine Keeps.bind (peek_keepsEntering _ _) fun _ => ?_
    refine Keeps.bind (Keeps.when fun _ => pokeSysnum_keepsEntering _) fun _ => ?_
    exact Keeps.pure _
  · exact Keeps.pure _

/-- So does the user. -/
theorem callOnSysenter_keepsEntering : KeepsEntering s r t bank (callOnSysenter s r) := by
  refine Keeps.when fun _ => ?_
  refine Keeps.bind (Keeps.bind (tracee_keeps r) fun _ => Keeps.pure _) fun _ => ?_
  refine Keeps.bind (Keeps.bind Keeps.read fun _ => Keeps.pure _) fun _ => ?_
  refine Keeps.bind (ask_keepsEntering rfl) fun _ => ?_
  refine Keeps.bind (Keeps.forEach fun _ _ => poke_keepsEntering _ _) fun _ => ?_
  refine Keeps.bind (updateOther_keepsEntering fun _ => ⟨rfl, rfl, rfl, rfl, rfl⟩) fun _ => ?_
  exact mark_keepsEntering rfl

/-- Saving the modified registers, too. -/
theorem saveModified_keepsEntering :
    KeepsEntering s r t bank (update r fun t => { t with regs := saveModifiedRegs t.regs }) := by
  refine update_keeps fun w hw => ?_
  constructor
  all_goals try rw [World.update_self]
  · exact hw.pid
  · exact hw.chain
  · exact hw.isAarch32
  · exact hw.restartHow
  · exact hw.original
  · exact hw.restore
  · exact hw.unchanged
  · exact hw.file
  · exact hw.number

/-! ## The stage -/

/-- The world in which the enter stage saves the registers. -/
def begunEnter (s : Setup) (r : Ref) (w : World) : World :=
  ((w.fetched r (fetchReply s r w).bank).log (.enterStage r)).update r fun t =>
    { t with regs := { t.regs with restoreOriginal := false } }

/-- The registers are saved, the user is called and the arguments are translated. -/
theorem translateRequestedEnter_entering {w : World} :
    Triple (fun w' => w' = begunEnter s r w) (translateRequestedEnter s r)
      (fun _ w' => Entering s r (w.heap r) (fetchReply s r w).bank w') fun _ _ => True := by
  refine Triple.bind (M := fun _ => Entering s r (w.heap r) (fetchReply s r w).bank) ?_ fun _ => ?_
  · refine Triple.modify fun w' hw' => ?_
    rw [hw']
    constructor
    all_goals simp [begunEnter, World.fetched, saveOriginalRegs, registerFile, syscallNumber,
      fetchReply]
  · refine Keeps.bind callOnSysenter_keepsEntering fun _ => ?_
    refine Keeps.bind translateSyscallEnter_keepsEntering fun _ => ?_
    exact Keeps.bind saveModified_keepsEntering fun _ => Keeps.pure _

/-- The registers that are left to the syscall: a failed one is cancelled. -/
def cancelledRegs (s : Setup) (status : ℤ) (t : Tracee) : Regs :=
  if status < 0 then
    pokeReg (t.mode s.target) (setSysnum s.target (t.mode s.target) t.regs .void) .sysargResult
      (toWord s.target status)
  else t.regs

/-- The record at the end of the stage. -/
def finishedEnter (s : Setup) (status : ℤ) (t : Tracee) : Tracee :=
  if t.restartHow = .cont then
    { t with
      regs := pokeReg (t.mode s.target) (cancelledRegs s status t) .stackPointer
        (peekReg (t.mode s.target) (cancelledRegs s status t) .original .stackPointer)
      status := 0 }
  else
    { t with regs := cancelledRegs s status t, status := if status < 0 then status else 1 }

/-- A cancelled syscall only has registers poked. -/
theorem cancelledRegs_pokes (status : ℤ) (t : Tracee) :
    ∃ pokes, cancelledRegs s status t = pokeAll (t.mode s.target) t.regs pokes := by
  unfold cancelledRegs
  split
  · exact ⟨[(.sysargNum, _), (.sysargResult, _)], rfl⟩
  · exact ⟨[], rfl⟩

/-- The end of the entry only pokes registers, and leaves the way of the restart alone. -/
theorem finishedEnter_sets (status : ℤ) (t : Tracee) :
    Sets s t (finishedEnter s status t) ∧
      (finishedEnter s status t).restartHow = t.restartHow := by
  obtain ⟨pokes, hpokes⟩ := cancelledRegs_pokes (s := s) status t
  unfold finishedEnter
  split
  · refine ⟨⟨rfl, rfl, rfl, pokes ++ [(.stackPointer,
      peekReg (t.mode s.target) (cancelledRegs s status t) .original .stackPointer)], ?_⟩, rfl⟩
    rw [pokeAll_append, ← hpokes]
    rfl
  · exact ⟨⟨rfl, rfl, rfl, pokes, hpokes⟩, rfl⟩

/-- A record is changed in the same way. -/
theorem World.update_congr {w : World} {f g : Tracee → Tracee} (h : f (w.heap r) = g (w.heap r)) :
    w.update r f = w.update r g := by
  unfold World.update
  rw [h]

/-- The end of the entry. -/
theorem finishEnter_apply (status : ℤ) (w : World) :
    finishEnter s r status w = (.ok (), w.update r (finishedEnter s status)) := by
  have hstep : (if status < 0 then do
        pokeSysnum s r .void
        poke s r .sysargResult (toWord s.target status)
        update r fun t => { t with status := status }
      else update r fun t => { t with status := 1 } : Prog Unit) w =
      (.ok (), w.update r fun t =>
        { t with regs := cancelledRegs s status t, status := if status < 0 then status else 1 }) := by
    by_cases hneg : status < 0
    · rw [if_pos hneg, bind_apply_ok (pokeSysnum_apply ..), bind_apply_ok (poke_apply ..),
        update_apply, World.update_update, World.update_update]
      simp only [cancelledRegs, if_pos hneg]
      rfl
    · rw [if_neg hneg, update_apply]
      simp only [cancelledRegs, if_neg hneg]
  unfold finishEnter
  rw [bind_apply_ok hstep, bind_apply_ok (tracee_apply ..), World.update_self]
  unfold when
  by_cases hcont : (w.heap r).restartHow = .cont
  · rw [if_pos hcont, bind_apply_ok (update_apply ..), World.update_update]
    refine (bind_apply_ok rfl).trans ?_
    rw [poke_apply, World.update_update]
    refine congrArg (Prod.mk _) (World.update_congr ?_)
    rw [finishedEnter, if_pos hcont, World.update_self]
    rfl
  · rw [if_neg hcont]
    refine congrArg (Prod.mk _) (World.update_congr ?_)
    rw [finishedEnter, if_neg hcont]

/-- The entry calls the user, translates the arguments and ends. -/
theorem enterStage_apply {w : World} (h : AtEntry s r w) :
    enterStage s r (w.fetched r (fetchReply s r w).bank) =
      (translateRequestedEnter s r >>= finishEnter s r) (begunEnter s r w) := by
  have hchain : ((begunEnter s r w).heap r).chain.syscalls = .null := by
    simpa [begunEnter, World.fetched] using h.unchained
  unfold enterStage
  rw [bind_apply_ok (mark_apply ..), bind_apply_ok (update_apply ..)]
  change (do
    let t ← tracee r
    let status ←
      (if t.chain.syscalls = .null then translateRequestedEnter s r
      else do
        update r fun t => { t with restartHow := .syscall }
        pure 0)
    finishEnter s r status : Prog Unit) (begunEnter s r w) = _
  rw [bind_apply_ok (tracee_apply ..), if_pos hchain]

/-- What the enter stage comes to: the registers after the translation, and how it ended. -/
theorem enterStage_entering {w v : World} (h : AtEntry s r w)
    (hv : enterStage s r (w.fetched r (fetchReply s r w).bank) = (.ok (), v)) :
    ∃ status u, translateRequestedEnter s r (begunEnter s r w) = (.ok status, u) ∧
      Entering s r (w.heap r) (fetchReply s r w).bank u ∧
      v = u.update r (finishedEnter s status) := by
  rw [enterStage_apply h] at hv
  obtain ⟨status, u, hstatus, hfinish⟩ := bind_ok_iff.mp hv
  rw [finishEnter_apply] at hfinish
  refine ⟨status, u, hstatus, (translateRequestedEnter_entering _ rfl).1 _ _ hstatus, ?_⟩
  exact (Prod.mk.inj hfinish).2.symm

/-- A syscall is still being entered at the end of its entry. -/
theorem Entering.finished {w : World} (h : Entering s r t bank w) (status : ℤ) :
    Entering s r t bank (w.update r (finishedEnter s status)) :=
  ((update_keepsEntering (finishedEnter_sets status)) w h).1 _ _ rfl

/-- Without an exit the stack pointer is that of the entry again. -/
theorem Entering.stackPointer {w : World} (h : Entering s r t bank w)
    (hcont : t.restartHow = .cont) (status : ℤ) :
    registerIn (t.mode s.target) (finishedEnter s status (w.heap r)).regs.current .stackPointer =
      registerIn (t.mode s.target) bank .stackPointer := by
  obtain ⟨pokes, hpokes⟩ := cancelledRegs_pokes (s := s) status (w.heap r)
  have horiginal : (cancelledRegs s status (w.heap r)).original = bank := by
    rw [hpokes, (pokeAll_frame ..).1, h.original]
  rw [finishedEnter, if_pos (h.restartHow.trans hcont), h.mode, registerIn_current,
    peekReg_pokeReg_same _ _ (peekReg_lt ..), registerIn_original horiginal]

/-- Nothing is restored by a push at the entry. -/
theorem Entering.kept {w : World} (h : Entering s r t bank w) :
    restoreOriginalRegs ((w.heap r).mode s.target) (w.heap r).regs = (w.heap r).regs := by
  unfold restoreOriginalRegs
  rw [h.restore]
  rfl

/-- What is pushed is the cache, whatever the host answers. -/
theorem Entering.pushed {w : World} (h : Entering s r t bank w) :
    registerFile s t.pid (pushRegs s r w).2.calls = (w.heap r).regs.current := by
  have hsynced : Synced s r w := fun hsame => by
    rw [h.pid, h.file, h.unchanged hsame]
  have hpushed := pushRegs_registerFile s hsynced
  rw [h.pid] at hpushed
  rw [hpushed, pushedRegs, h.kept, ite_self]

/-- So is the number of the syscall. -/
theorem Entering.pushedNumber {w : World} (h : Entering s r t bank w) :
    syscallNumber s (t.mode s.target) t.pid (pushRegs s r w).2.calls =
      (t.mode s.target).word (w.heap r).regs.current .sysargNum := by
  unfold pushRegs
  rw [bind_apply_ok (tracee_apply ..)]
  by_cases hchanged : (w.heap r).regs.wereChanged = true
  · rw [if_pos hchanged, bind_apply_ok (update_apply ..), bind_apply_ok (tracee_apply ..),
      World.update_self]
    dsimp only
    rw [h.kept]
    split
    · simp [bind_apply, ask_apply, syscallNumber, h.pid, Tracee.mode, h.isAarch32]
    · rename_i hsame
      have hnumber : (t.mode s.target).word (w.heap r).regs.current .sysargNum =
          (t.mode s.target).word bank .sysargNum := by
        simpa [Tracee.mode, h.isAarch32, h.original] using hsame
      rw [hnumber, ← h.number]
      simp [bind_apply, ask_apply, syscallNumber]
  · rw [if_neg hchanged, h.unchanged (by simpa using hchanged), ← h.number]
    rfl

/-- A stage at the entry of a syscall, between the registers it fetches and those it pushes. -/
theorem translateSyscall_enter {handle : Ref → ℤ → Prog ℤ} {w v : World} (h : AtEntry s r w)
    (hv : enterStage s r (w.fetched r (fetchReply s r w).bank) = (.ok (), v)) :
    (translateSyscall s handle r w).2 = (pushRegs s r v).2 := by
  have henter : (w.heap r).isInSysenter = true := by
    simpa [Tracee.isInSysenter] using h.entering
  unfold translateSyscall
  rw [bind_apply_ok (tracee_apply ..), bind_apply_ok (fetchRegs_apply s h.fetched),
    if_neg (by decide), if_pos henter, bind_apply_ok hv, bind_apply]
  rcases pushRegs s r v with ⟨_ | _, w'⟩ <;> rfl

end Entering

end Abyss
