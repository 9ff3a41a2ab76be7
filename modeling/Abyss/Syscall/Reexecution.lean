import Abyss.Ptrace.HiddenExit
import Abyss.Syscall.EnterRegisters

/-!
# Syscalls that are made again

At the exit of a syscall, or when a parked ptracer is woken, the tracer has the process make the
syscall of its entry again, or one that was chained to it. The number and the arguments are set and
the instruction pointer is moved back to the trap. Some of the registers are restored from the entry
when they are pushed.

The trap is taken to have four bytes, which it does not have in Thumb state. In all other states the
process makes the syscall that is asked for.
-/

namespace Abyss

open Machine

/-! ## The trap -/

/-- The registers of a syscall that is asked for. -/
def askedRegs : List Reg :=
  [.sysarg1, .sysarg2, .sysarg3, .sysarg4, .sysarg5, .sysarg6, .sysargNum]

/-- Whether a 32-bit process is in Thumb state: the bit `T` of its program status. -/
def Mode.isThumb (m : Mode) (bank : Bank) : Bool :=
  (m.cpu = .armEabi || m.isAarch32) && (bank 16).getLsbD 5

/-- The number of bytes of the instruction that traps. -/
def Mode.trapSize (m : Mode) (bank : Bank) : ℕ := if m.isThumb bank then 2 else 4

/-- The next instruction of the process is the trap that it was stopped at, and makes the syscall
that is asked for. -/
structure Reexecutes (m : Mode) (stopped sent : Bank) (asked : Reg → ℕ) : Prop where
  trap : registerIn m sent .instrPointer =
    (registerIn m stopped .instrPointer + 2 ^ m.bits - m.trapSize stopped) % 2 ^ m.bits
  thumb : m.isThumb sent = m.isThumb stopped
  asked : ∀ reg ∈ askedRegs, registerIn m sent reg = asked reg % 2 ^ m.bits

/-- The same for a trap of four bytes. -/
structure Rewound (m : Mode) (stopped sent : Bank) (asked : Reg → ℕ) : Prop where
  trap : registerIn m sent .instrPointer =
    (registerIn m stopped .instrPointer + 2 ^ m.bits - systrapSize) % 2 ^ m.bits
  thumb : m.isThumb sent = m.isThumb stopped
  asked : ∀ reg ∈ askedRegs, registerIn m sent reg = asked reg % 2 ^ m.bits

/-- There are two sizes of registers. -/
theorem Mode.bits_eq (m : Mode) : m.bits = 32 ∨ m.bits = 64 := by
  rcases m with ⟨_ | _, _ | _⟩ <;> decide

/-- The trap that is meant is found unless it has two bytes. -/
theorem Rewound.asksAgain_iff {m : Mode} {stopped sent : Bank} {asked : Reg → ℕ}
    (h : Rewound m stopped sent asked) :
    Reexecutes m stopped sent asked ↔ m.isThumb stopped = false := by
  have hlt : registerIn m stopped .instrPointer < 2 ^ m.bits := peekReg_lt ..
  have htrap := h.trap
  unfold systrapSize at htrap
  constructor
  · intro hagain
    have hmeant := hagain.trap
    rw [htrap, Mode.trapSize] at hmeant
    by_contra hthumb
    rw [if_pos (by simpa using hthumb)] at hmeant
    rcases m.bits_eq with hbits | hbits <;> rw [hbits] at hlt hmeant <;> omega
  · intro harm
    refine ⟨?_, h.thumb, h.asked⟩
    rw [htrap, Mode.trapSize, if_neg (by simp [harm])]

/-! ## The registers that are set -/

section Registers

variable {t : Target} {m : Mode} {regs : Regs} {asked : Reg → ℕ}

/-- The syscall that is asked for, register by register. -/
def askedPokes (asked : Reg → ℕ) : List (Reg × ℕ) := askedRegs.map fun reg => (reg, asked reg)

/-- The registers of a process that is to make a syscall again. -/
def resentRegs (t : Target) (m : Mode) (asked : Reg → ℕ) (regs : Regs) : Regs :=
  rewindInstrPointer t m (pokeAll m regs (askedPokes asked))

/-- The syscall of the entry is asked for again. -/
theorem restartOriginalSyscall_eq (t : Target) (m : Mode) (regs : Regs) :
    restartOriginalSyscall t m regs = resentRegs t m (peekReg m regs .original) regs := by
  simp only [restartOriginalSyscall, resentRegs, askedPokes, askedRegs, pokeAll, List.map_cons,
    List.map_nil, List.foldl_cons, List.foldl_nil, peekReg_pokeReg_original]

/-- A register that is apart from those that are poked stays. -/
theorem pokeAll_other {pokes : List (Reg × ℕ)} {reg : Reg} (h : ∀ p ∈ pokes, m.Apart p.1 reg) :
    peekReg m (pokeAll m regs pokes) .current reg = peekReg m regs .current reg := by
  induction pokes generalizing regs with
  | nil => rfl
  | cons p rest ih =>
    rw [List.forall_mem_cons] at h
    rw [pokeAll, List.foldl_cons]
    exact (ih h.2).trans (peekReg_pokeReg_other _ _ h.1)

/-- Registers that are apart read back as they were set one after the other. -/
theorem pokeAll_peekReg {pokes : List (Reg × ℕ)}
    (hapart : pokes.Pairwise fun p p' => m.Apart p'.1 p.1) {p : Reg × ℕ} (hp : p ∈ pokes) :
    peekReg m (pokeAll m regs pokes) .current p.1 = p.2 % 2 ^ m.bits := by
  induction pokes generalizing regs with
  | nil => cases hp
  | cons first rest ih =>
    rw [List.pairwise_cons] at hapart
    rw [pokeAll, List.foldl_cons]
    rcases List.mem_cons.mp hp with rfl | hrest
    · exact (pokeAll_other hapart.1).trans (peekReg_pokeReg_mod ..)
    · exact ih hapart.2 hrest

/-- The registers of a syscall are apart from each other and from the instruction pointer. -/
theorem askedRegs_apart (m : Mode) :
    (askedRegs.Pairwise fun reg reg' => m.Apart reg' reg) ∧
      ∀ reg ∈ askedRegs, m.Apart reg .instrPointer := by
  rcases m with ⟨_ | _, _ | _⟩ <;> decide

/-- The instruction pointer is not among the arguments. -/
theorem askedPokes_apart : ∀ p ∈ askedPokes asked, m.Apart p.1 .instrPointer := by
  intro p hp
  obtain ⟨reg, hreg, rfl⟩ := List.mem_map.mp hp
  exact (askedRegs_apart m).2 reg hreg

/-- The arguments are those that were asked for. -/
theorem resentRegs_asked {reg : Reg} (hreg : reg ∈ askedRegs) :
    peekReg m (resentRegs t m asked regs) .current reg = asked reg % 2 ^ m.bits := by
  have hpairwise : (askedPokes asked).Pairwise fun p p' => m.Apart p'.1 p.1 :=
    List.pairwise_map.mpr (askedRegs_apart m).1
  have hpoked : peekReg m (pokeAll m regs (askedPokes asked)) .current reg =
      asked reg % 2 ^ m.bits :=
    pokeAll_peekReg hpairwise (List.mem_map.mpr ⟨reg, hreg, rfl⟩ : (reg, asked reg) ∈ askedPokes asked)
  exact (peekReg_pokeReg_other _ _ ((askedRegs_apart m).2 reg hreg).symm).trans hpoked

/-- The instruction pointer is moved back by four bytes. -/
theorem resentRegs_trap (hm : m.cpu = t.cpu) :
    peekReg m (resentRegs t m asked regs) .current .instrPointer =
      (peekReg m regs .current .instrPointer + 2 ^ m.bits - systrapSize) % 2 ^ m.bits := by
  unfold resentRegs rewindInstrPointer
  rw [peekReg_pokeReg_mod, pokeAll_other askedPokes_apart]
  have hlt := peekReg_lt m regs .current .instrPointer
  generalize peekReg m regs .current .instrPointer = pointer at hlt
  unfold toWord systrapSize
  rw [Target.wordBits, ← hm]
  obtain ⟨_ | _, _ | _⟩ := m <;> simp [Mode.bits, Mode.is32on64, Cpu.wordBits] at hlt ⊢ <;> omega

/-- So something has been changed. -/
theorem resentRegs_wereChanged (hm : m.cpu = t.cpu) :
    (resentRegs t m asked regs).wereChanged = true := by
  by_contra hsame
  have htrap : peekReg m (resentRegs t m asked regs) .current .instrPointer =
      (peekReg m regs .current .instrPointer + 2 ^ m.bits - systrapSize) % 2 ^ m.bits :=
    resentRegs_trap hm
  have hall : resentRegs t m asked regs = pokeAll m regs (askedPokes asked ++ [(.instrPointer,
      toWord t ((peekReg m (pokeAll m regs (askedPokes asked)) .current .instrPointer : ℤ) -
        systrapSize))]) := by
    rw [pokeAll_append]
    rfl
  rw [hall] at hsame htrap
  rw [pokeAll_wereChanged (by simpa using hsame)] at htrap
  have hlt := peekReg_lt m regs .current .instrPointer
  unfold systrapSize at htrap
  rcases m.bits_eq with hbits | hbits <;> rw [hbits] at hlt htrap <;> omega

/-- The registers at the entry stay. -/
theorem resentRegs_frame :
    (resentRegs t m asked regs).original = regs.original ∧
      (resentRegs t m asked regs).restoreOriginal = regs.restoreOriginal := by
  obtain ⟨horiginal, hrestore⟩ := pokeAll_frame m regs (askedPokes asked)
  obtain ⟨horiginal', hrestore'⟩ := pokeReg_frame m (pokeAll m regs (askedPokes asked))
    .instrPointer (toWord t ((peekReg m (pokeAll m regs (askedPokes asked)) .current
      .instrPointer : ℤ) - systrapSize))
  exact ⟨horiginal'.trans horiginal, hrestore'.trans hrestore⟩

/-- A register of a syscall is restored as a whole or not at all. -/
theorem restoredSlots_whole (m : Mode) : ∀ reg ∈ askedRegs,
    (∀ i ∈ m.regSlots reg, i ∈ m.restoredSlots) ∨ ∀ i ∈ m.regSlots reg, i ∉ m.restoredSlots := by
  rcases m with ⟨_ | _, _ | _⟩ <;> decide

/-- Neither the registers nor the restoration touch the program status of a 32-bit process. -/
theorem programStatus_apart (h : (m.cpu = .armEabi || m.isAarch32) = true) :
    (∀ reg, 16 ∉ m.regSlots reg) ∧ 16 ∉ m.restoredSlots := by
  rcases m with ⟨_ | _, _ | _⟩
  · exact ⟨fun reg => by cases reg <;> decide, by decide⟩
  · exact ⟨fun reg => by cases reg <;> decide, by decide⟩
  · cases h
  · exact ⟨fun reg => by cases reg <;> decide, by decide⟩

/-- So does the instruction set. -/
theorem resentRegs_thumb :
    m.isThumb (resentRegs t m asked regs).current = m.isThumb regs.current := by
  unfold Mode.isThumb
  by_cases h : (m.cpu = .armEabi || m.isAarch32) = true
  · have hnone := (programStatus_apart h).1
    rw [resentRegs, rewindInstrPointer, pokeReg_slot _ (hnone _), pokeAll_slot fun _ _ => hnone _]
  · simp [h]

/-- The instruction set is not restored. -/
theorem restoreOriginalRegs_thumb :
    m.isThumb (restoreOriginalRegs m regs).current = m.isThumb regs.current := by
  unfold Mode.isThumb
  by_cases h : (m.cpu = .armEabi || m.isAarch32) = true
  · by_cases hrestore : regs.restoreOriginal = true
    · rw [restoreOriginalRegs_current hrestore]
      dsimp only
      rw [if_neg (programStatus_apart h).2]
    · rw [restoreOriginalRegs, if_neg hrestore]
  · simp [h]

/-- What is pushed is the syscall that is asked for, if nothing is restored or it is that of the
entry. -/
theorem resentRegs_rewound (hm : m.cpu = t.cpu) (h : regs.restoreOriginal = true →
      ∀ reg ∈ askedRegs, asked reg % 2 ^ m.bits = peekReg m regs .original reg) :
    Rewound m regs.current (restoreOriginalRegs m (resentRegs t m asked regs)).current asked := by
  obtain ⟨horiginal, hframe⟩ : (resentRegs t m asked regs).original = regs.original ∧
      (resentRegs t m asked regs).restoreOriginal = regs.restoreOriginal := resentRegs_frame
  refine ⟨?_, restoreOriginalRegs_thumb.trans resentRegs_thumb, fun reg hreg => ?_⟩
  · have htrap : registerIn m (resentRegs t m asked regs).current .instrPointer =
        (registerIn m regs.current .instrPointer + 2 ^ m.bits - systrapSize) % 2 ^ m.bits :=
      resentRegs_trap hm
    rw [← htrap]
    by_cases hrestore : regs.restoreOriginal = true
    · refine registerIn_congr fun i hi => ?_
      rw [restoreOriginalRegs_current (hframe.trans hrestore)]
      exact if_neg (leftRegs_notRestored m .instrPointer (by decide) i hi)
    · rw [restoreOriginalRegs, if_neg (by rwa [hframe])]
  · have hasked : registerIn m (resentRegs t m asked regs).current reg = asked reg % 2 ^ m.bits :=
      resentRegs_asked hreg
    by_cases hrestore : regs.restoreOriginal = true
    · rw [restoreOriginalRegs_current (hframe.trans hrestore), horiginal]
      rcases restoredSlots_whole m reg hreg with hwhole | hnone
      · rw [h hrestore reg hreg]
        exact registerIn_congr fun i hi => if_pos (hwhole i hi)
      · exact (registerIn_congr fun i hi => if_neg (hnone i hi)).trans hasked
    · rwa [restoreOriginalRegs, if_neg (by rwa [hframe])]

end Registers

/-! ## The ways to ask for it -/

/-- The registers that a chained syscall asks for. -/
def ChainedSyscall.asked (t : Target) (m : Mode) (syscall : ChainedSyscall) : Reg → ℕ
  | .sysarg1 => syscall.sysargs.getD 0 0
  | .sysarg2 => syscall.sysargs.getD 1 0
  | .sysarg3 => syscall.sysargs.getD 2 0
  | .sysarg4 => syscall.sysargs.getD 3 0
  | .sysarg5 => syscall.sysargs.getD 4 0
  | .sysarg6 => syscall.sysargs.getD 5 0
  | .sysargNum => detranslateSysnum t m.abi syscall.sysnum
  | _ => 0

/-- The world in which the emulated wait of a ptracer looks for a stopped ptracee. -/
def waitReturning (ptracer : Ref) (w : World) : World :=
  w.update ptracer fun t => { t with asPtracer := { t.asPtracer with waitsIn := .doesntWait } }

section Resent

variable (s : Setup) (handle : Ref → ℤ → Prog ℤ) (r : Ref)

/-- The registers of the entry. -/
def enteredAsked (w : World) : Reg → ℕ :=
  peekReg ((w.heap r).mode s.target) (w.heap r).regs .original

/-- An emulated wait finds a stopped ptracee at its exit. -/
structure ExitsWait (q : Ref) (w : World) : Prop where
  entered : 0 ≤ (w.heap r).status
  unchained : (w.heap r).chain.syscalls = .null
  waits : getSysnum s.target ((w.heap r).mode s.target) (w.heap r).regs .original = .wait4 ∨
    getSysnum s.target ((w.heap r).mode s.target) (w.heap r).regs .original = .waitpid
  waitsIn : (w.heap r).asPtracer.waitsIn = .waitsInProot
  found : getStoppedPtracee (waitReturning r w) r (toInt (enteredAsked s r w .sysarg1)) true
    (enteredAsked s r w .sysarg3) = some q

/-- A syscall is asked for after the user was called at an exit, or when a parked ptracer is woken,
and the registers are pushed. The wait of a ptracer is made again where it finds the end of a
ptracee that is left to the kernel. -/
inductive Resends (w : World) : (Reg → ℕ) → World → Prop
  | restarted {q : Ref} {gone : Option Ref} {v : World} (linked : Linked gone w)
      (exits : ExitsWait s r q w) (ends : (w.heap q).endsForParent = true)
      (run : finishExit s handle r w = (.ok (), v)) :
      Resends w (enteredAsked s r w) (pushRegs s r v).2
  | woken {q : Ref} {gone : Option Ref} {first keep stopped : Bool} {w' : World}
      (linked : Linked gone w) (ends : (w.heap q).endsForParent = true)
      (waits : ((w.heap r).asPtracer.waitPid = -1 ∨
          (w.heap r).asPtracer.waitPid = (w.heap q).pid) ∧
        expectedWaitClone (w.heap r).asPtracer.waitOptions (w.heap q))
      (run : notifyPtracer s handle r q first keep w = (.ok stopped, w')) :
      Resends w (enteredAsked s r w) w'
  | chained {syscall : ChainedSyscall} {rest : List ChainedSyscall} {v : World}
      (queue : (w.heap r).chain.syscalls = .queue (syscall :: rest))
      (run : finishExit s handle r w = (.ok (), v)) :
      Resends w (syscall.asked s.target ((w.heap r).mode s.target)) (pushRegs s r v).2

end Resent

section Resent

variable {s : Setup} {handle : Ref → ℤ → Prog ℤ} {r : Ref}

/-- What a push depends on in the record of a tracee, and the syscalls that are chained. -/
def Tracee.machine (t : Tracee) : ℤ × Bool × Chain × Regs := (t.pid, t.isAarch32, t.chain, t.regs)

variable (s r) in
/-- The record of a tracee that waits, once its wait is to be made again. -/
def restartedMachine (w : World) : ℤ × Bool × Chain × Regs :=
  ((w.heap r).pid, (w.heap r).isAarch32, (w.heap r).chain,
    resentRegs s.target ((w.heap r).mode s.target) (enteredAsked s r w) (w.heap r).regs)

/-- Freeing a zombie only concerns the emulation. -/
theorem freeNotified_machine {q : Ref} {w v : World}
    (hreported : (w.heap q).asPtracee.isZombie = true → (w.heap q).isZombie = true)
    (hv : freeNotified s handle q w = (.ok (), v)) : (v.heap r).machine = (w.heap r).machine := by
  by_cases hzombie : (w.heap q).asPtracee.isZombie = true
  · rw [freeNotified_zombie hzombie (hreported hzombie)] at hv
    rw [← (Prod.mk.inj hv).2]
    rfl
  · rw [freeNotified_alive (by simpa using hzombie)] at hv
    rw [← (Prod.mk.inj hv).2]

/-- A wait that is left to the kernel asks for the syscall of the entry, and has no result. -/
theorem updateWaitStatus_restarts {q : Ref} {w v : World} {status : ℤ}
    (hreported : (w.heap q).asPtracee.isZombie = true → (w.heap q).isZombie = true)
    (hends : (w.heap q).endsForParent = true)
    (hv : updateWaitStatus s handle r q w = (.ok status, v)) :
    status = 0 ∧ (v.heap r).machine = restartedMachine s r w := by
  unfold updateWaitStatus at hv
  rw [bind_apply_ok (tracee_apply ..)] at hv
  dsimp only at hv
  rw [if_pos hends] at hv
  obtain ⟨_, u, hrestart, hv⟩ := bind_ok_iff.mp hv
  obtain ⟨_, u', hfree, hdone⟩ := bind_ok_iff.mp hv
  obtain ⟨hstatus, rfl⟩ := Prod.mk.inj hdone
  unfold restartWait at hrestart
  rw [bind_apply_ok (mark_apply ..), bind_apply_ok (update_apply ..)] at hrestart
  have hmachine := (detachFromPtracer_view Tracee.machine (r := r) (fun _ => rfl)
    (fun _ _ => rfl) q _ rfl).1 _ _ hrestart
  have hzombie := (detachFromPtracer_view (fun t => (t.asPtracee.isZombie, t.isZombie))
    (r := q) (fun _ => rfl) (fun _ _ => rfl) q _ rfl).1 _ _ hrestart
  rw [World.update_heap] at hzombie
  have hkept : (u.heap q).asPtracee.isZombie = (w.heap q).asPtracee.isZombie ∧
      (u.heap q).isZombie = (w.heap q).isZombie := by
    split at hzombie
    · rename_i hself
      subst hself
      exact Prod.mk.inj hzombie
    · exact Prod.mk.inj hzombie
  refine ⟨(Except.ok.inj hstatus).symm, ?_⟩
  rw [freeNotified_machine (by rwa [hkept.1, hkept.2]) hfree, hmachine, World.update_self,
    Tracee.machine, restartOriginalSyscall_eq]
  rfl

/-- Where the record of a tracee says so, the syscall is pushed. -/
theorem pushRegs_rewound {w v : World} {asked : Reg → ℕ} {regs : Regs}
    (hrecord : (v.heap r).pid = (w.heap r).pid ∧
      (v.heap r).mode s.target = (w.heap r).mode s.target ∧
      (v.heap r).regs = resentRegs s.target ((w.heap r).mode s.target) asked regs)
    (hstopped : regs.current = (w.heap r).regs.current)
    (hasked : regs.restoreOriginal = true → ∀ reg ∈ askedRegs,
      asked reg % 2 ^ ((w.heap r).mode s.target).bits =
        peekReg ((w.heap r).mode s.target) regs .original reg) :
    Rewound ((w.heap r).mode s.target) (w.heap r).regs.current
      (registerFile s (w.heap r).pid (pushRegs s r v).2.calls) asked := by
  obtain ⟨hpid, hmode, hregs⟩ := hrecord
  have hchanged : (v.heap r).regs.wereChanged = true := by
    rw [hregs]
    exact resentRegs_wereChanged rfl
  have hpushed := pushRegs_registerFile s (w := v) (r := r) fun hsame => by
    rw [hchanged] at hsame
    cases hsame
  rw [hpid, pushedRegs, if_pos hchanged, hmode, hregs] at hpushed
  rw [hpushed, ← hstopped]
  exact resentRegs_rewound rfl hasked

/-- The registers of the entry are cut to their size already. -/
theorem enteredAsked_mod (w : World) (reg : Reg) :
    enteredAsked s r w reg % 2 ^ ((w.heap r).mode s.target).bits =
      peekReg ((w.heap r).mode s.target) (w.heap r).regs .original reg :=
  Nat.mod_eq_of_lt (peekReg_lt ..)

/-- A wait that is made again at its exit has no result to set. -/
theorem translateEmulatedWait_restarts {q : Ref} {gone : Option Ref} {w v : World}
    (hlinked : Linked gone w) (hexits : ExitsWait s r q w)
    (hends : (w.heap q).endsForParent = true)
    (hv : translateEmulatedWait s handle r w = (.ok (), v)) :
    (v.heap r).machine = restartedMachine s r w := by
  have hother : ∀ {β : Type} (view : Tracee → β),
      (∀ t x, view { t with asPtracer := x } = view t) →
        ∀ a, view ((waitReturning r w).heap a) = view (w.heap a) := by
    intro β view hview a
    rw [waitReturning, World.update_heap]
    split
    · subst a
      exact hview _ _
    · rfl
  have hself : (waitReturning r w).heap r =
      { w.heap r with asPtracer := { (w.heap r).asPtracer with waitsIn := .doesntWait } } := by
    rw [waitReturning, World.update_self]
  unfold translateEmulatedWait when at hv
  rw [bind_apply_ok (tracee_apply ..), if_pos hexits.waitsIn] at hv
  obtain ⟨⟨status, setResult⟩, u, hexit, hset⟩ := bind_ok_iff.mp hv
  have hpeek : ∀ reg, peek s r .original reg (waitReturning r w) =
      (.ok (enteredAsked s r w reg), waitReturning r w) := by
    intro reg
    rw [peek_apply, hself]
    rfl
  have hassert : assert ((w.heap r).asPtracer.waitsIn = .waitsInProot) w = (.ok (), w) := by
    rw [hexits.waitsIn]
    rfl
  unfold translateWaitExit at hexit
  rw [bind_apply_ok (tracee_apply ..), bind_apply_ok hassert,
    bind_apply_ok (show update r _ w = (.ok (), waitReturning r w) from rfl),
    bind_apply_ok (hpeek _), bind_apply_ok (hpeek _),
    bind_apply_ok (show read (waitReturning r w) = (.ok (waitReturning r w), _) from rfl)] at hexit
  rw [hexits.found] at hexit
  obtain ⟨status', u', hupdate, hdone⟩ := bind_ok_iff.mp hexit
  have hreported : ((waitReturning r w).heap q).asPtracee.isZombie = true →
      ((waitReturning r w).heap q).isZombie = true := by
    rw [hother (fun t => t.asPtracee.isZombie) (fun _ _ => rfl),
      hother Tracee.isZombie (fun _ _ => rfl)]
    exact hlinked.reported q
  have hends' : ((waitReturning r w).heap q).endsForParent = true :=
    (hother Tracee.endsForParent (fun _ _ => rfl) q).trans hends
  obtain ⟨rfl, hmachine⟩ := updateWaitStatus_restarts hreported hends' hupdate
  obtain ⟨hresult, rfl⟩ := Prod.mk.inj hdone
  obtain ⟨-, hnone⟩ := Prod.mk.inj (Except.ok.inj hresult)
  -- The flag says that there is no result to set.
  obtain rfl : setResult = false := hnone.symm
  obtain rfl := (Prod.mk.inj hset).2
  rw [hmachine, restartedMachine, enteredAsked, hself]
  rfl

/-- So has the exit of the wait. -/
theorem finishExit_restarts {q : Ref} {gone : Option Ref} {w v : World} (hlinked : Linked gone w)
    (hexits : ExitsWait s r q w) (hends : (w.heap q).endsForParent = true)
    (hv : finishExit s handle r w = (.ok (), v)) :
    (v.heap r).pid = (w.heap r).pid ∧
      (v.heap r).mode s.target = (w.heap r).mode s.target ∧
      (v.heap r).regs = resentRegs s.target ((w.heap r).mode s.target) (enteredAsked s r w)
        (w.heap r).regs := by
  have hexit : translateSyscallExit s handle r w = translateEmulatedWait s handle r w := by
    unfold translateSyscallExit
    rw [bind_apply_ok (tracee_apply ..), if_neg (not_lt.mpr hexits.entered),
      bind_apply_ok (show sysnumOf s r .original w = (.ok _, w) from rfl)]
    rcases hexits.waits with hwaits | hwaits <;> rw [hwaits]
  unfold finishExit when at hv
  rw [bind_apply_ok (tracee_apply ..), if_pos hexits.unchained] at hv
  obtain ⟨_, u, hu, hv⟩ := bind_ok_iff.mp hv
  rw [hexit] at hu
  obtain ⟨hpid, haarch, hchain, hregs⟩ :
      (u.heap r).pid = (w.heap r).pid ∧ (u.heap r).isAarch32 = (w.heap r).isAarch32 ∧
        (u.heap r).chain = (w.heap r).chain ∧ (u.heap r).regs = _ := by
    simpa only [Tracee.machine, restartedMachine, Prod.mk.injEq] using
      translateEmulatedWait_restarts hlinked hexits hends hu
  rw [bind_apply_ok (update_apply ..), bind_apply_ok (tracee_apply ..), World.update_self,
    if_neg (by simpa [hchain] using hexits.unchained)] at hv
  obtain rfl := (Prod.mk.inj hv).2
  rw [World.update_self]
  exact ⟨hpid, congrArg (Mode.mk s.target.cpu) haarch, hregs⟩

/-- What follows the push when a ptracer is woken does not concern registers. -/
theorem restartTracee_file (signal pid : ℤ) {file : Bank} :
    Keeps (fun w => registerFile s pid w.calls = file) (fun _ _ => True)
      (restartTracee s r signal) := by
  have hlog : ∀ {c : Call}, c.isRegs = false → ∀ w : World, registerFile s pid w.calls = file →
      registerFile s pid (w.log c).calls = file := fun hc w hw =>
    (registerFile_cons hc ..).trans hw
  refine Keeps.bind (tracee_keeps r) fun _ => Keeps.ite (fun _ => Keeps.pure _) fun _ => ?_
  refine Keeps.bind (Keeps.bind (mark_keeps (hlog rfl)) fun _ => Keeps.bind Keeps.read fun _ =>
    Keeps.pure _) fun _ => Keeps.ite (fun _ => Keeps.pure _) fun _ => ?_
  refine Keeps.bind (mark_keeps (hlog rfl)) fun _ => ?_
  exact Keeps.bind (update_keeps fun _ hw => hw) fun _ => Keeps.pure _

/-- When a parked ptracer is woken by the end of a ptracee that is left to the kernel, its wait is
pushed. -/
theorem notifyPtracer_restarts {q : Ref} {gone : Option Ref} {w w' : World}
    {first keep stopped : Bool} (hlinked : Linked gone w)
    (hends : (w.heap q).endsForParent = true)
    (hwaits : ((w.heap r).asPtracer.waitPid = -1 ∨
        (w.heap r).asPtracer.waitPid = (w.heap q).pid) ∧
      expectedWaitClone (w.heap r).asPtracer.waitOptions (w.heap q))
    (hv : notifyPtracer s handle r q first keep w = (.ok stopped, w')) :
    ∃ v, (v.heap r).machine = restartedMachine s r w ∧
      registerFile s (w.heap r).pid w'.calls =
        registerFile s (w.heap r).pid (pushRegs s r v).2.calls := by
  unfold notifyPtracer at hv
  rw [bind_apply_ok (tracee_apply ..), bind_apply_ok (ask_apply ..),
    bind_apply_ok (tracee_apply ..)] at hv
  dsimp only at hv
  rw [if_pos (by exact hwaits)] at hv
  obtain ⟨status, v, hstatus, hv⟩ := bind_ok_iff.mp hv
  obtain ⟨rfl, hmachine⟩ := updateWaitStatus_restarts
    (w := w.log (.kill (w.heap r).pid sigchld)) (hlinked.reported q) hends hstatus
  rw [when, if_neg (by decide)] at hv
  obtain ⟨_, u, hnothing, hv⟩ := bind_ok_iff.mp hv
  obtain rfl := (Prod.mk.inj hnothing).2
  obtain ⟨_, u, hpush, hv⟩ := bind_ok_iff.mp hv
  refine ⟨v, hmachine, ?_⟩
  rw [hpush]
  have htail : Keeps (fun w' => registerFile s (w.heap r).pid w'.calls =
      registerFile s (w.heap r).pid u.calls) (fun _ _ => True) (do
        update r fun t => { t with asPtracer := { t.asPtracer with waitPid := 0 } }
        mark (.waking r q first)
        let restarted ← restartTracee s r 0
        pure (keep && restarted) : Prog Bool) := by
    refine Keeps.bind (update_keeps fun _ hw => hw) fun _ => ?_
    refine Keeps.bind (mark_keeps fun _ hw => hw) fun _ => ?_
    exact Keeps.bind (restartTracee_file 0 _) fun _ => Keeps.pure _
  exact (htail u rfl).1 _ _ hv

/-- A syscall that was chained is asked for. -/
theorem chainNextSyscall_asks {syscall : ChainedSyscall} {rest : List ChainedSyscall} {w : World}
    (hqueue : (w.heap r).chain.syscalls = .queue (syscall :: rest)) :
    ∃ v, chainNextSyscall s r w = (.ok (), v) ∧ v.heap r =
      { w.heap r with
        regs := resentRegs s.target ((w.heap r).mode s.target)
          (syscall.asked s.target ((w.heap r).mode s.target))
          { (w.heap r).regs with restoreOriginal := false }
        chain := { (w.heap r).chain with syscalls := .queue rest } } := by
  unfold chainNextSyscall
  rw [bind_apply_ok (tracee_apply ..), hqueue]
  dsimp only
  rw [bind_apply_ok (update_apply ..)]
  iterate 6 rw [bind_apply_ok (poke_apply ..)]
  rw [bind_apply_ok (pokeSysnum_apply ..)]
  refine ⟨_, update_apply .., ?_⟩
  simp only [World.update_self]
  rfl

/-- A syscall that was chained is asked for without restoring anything. -/
theorem finishExit_chains {syscall : ChainedSyscall} {rest : List ChainedSyscall} {w v : World}
    (hqueue : (w.heap r).chain.syscalls = .queue (syscall :: rest))
    (hv : finishExit s handle r w = (.ok (), v)) :
    (v.heap r).pid = (w.heap r).pid ∧
      (v.heap r).mode s.target = (w.heap r).mode s.target ∧
      (v.heap r).regs = resentRegs s.target ((w.heap r).mode s.target)
        (syscall.asked s.target ((w.heap r).mode s.target))
        { (w.heap r).regs with restoreOriginal := false } := by
  have hsome : ¬(w.heap r).chain.syscalls = .null := hqueue.trans_ne nofun
  have hqueue' : ((w.update r fun t => { t with status := 0 }).heap r).chain.syscalls =
      .queue (syscall :: rest) := by
    rw [World.update_self]
    exact hqueue
  have hsome' : ((w.update r fun t => { t with status := 0 }).heap r).chain.syscalls ≠ .null :=
    hqueue'.trans_ne nofun
  obtain ⟨u, hchain, hrecord⟩ := chainNextSyscall_asks (s := s) hqueue'
  unfold finishExit when at hv
  rw [bind_apply_ok (tracee_apply ..), if_neg hsome] at hv
  have hskip : (do
      update r fun t => { t with status := 0 }
      let t ← tracee r
      if t.chain.syscalls ≠ .null then chainNextSyscall s r else pure () : Prog Unit) w =
      (.ok (), u) := by
    rw [bind_apply_ok (update_apply ..), bind_apply_ok (tracee_apply ..), if_pos hsome', hchain]
  obtain rfl : u = v := (Prod.mk.inj (hskip.symm.trans hv)).2
  rw [hrecord, World.update_self]
  exact ⟨rfl, rfl, rfl⟩

/-- Whatever asks for a syscall, its registers are pushed and the instruction pointer is moved back
by four bytes. -/
theorem Resends.rewound {w w' : World} {asked : Reg → ℕ} (h : Resends s handle r w asked w') :
    Rewound ((w.heap r).mode s.target) (w.heap r).regs.current
      (registerFile s (w.heap r).pid w'.calls) asked := by
  cases h with
  | restarted hlinked hexits hends hrun =>
    exact pushRegs_rewound (finishExit_restarts hlinked hexits hends hrun) rfl fun _ reg _ =>
      enteredAsked_mod w reg
  | woken hlinked hends hwaits hrun =>
    obtain ⟨v, hmachine, hfile⟩ := notifyPtracer_restarts hlinked hends hwaits hrun
    obtain ⟨hpid, haarch, -, hregs⟩ :
        (v.heap r).pid = (w.heap r).pid ∧ (v.heap r).isAarch32 = (w.heap r).isAarch32 ∧
          (v.heap r).chain = (w.heap r).chain ∧ (v.heap r).regs = _ := by
      simpa only [Tracee.machine, restartedMachine, Prod.mk.injEq] using hmachine
    rw [hfile]
    exact pushRegs_rewound ⟨hpid, congrArg (Mode.mk s.target.cpu) haarch, hregs⟩ rfl fun _ reg _ =>
      enteredAsked_mod w reg
  | chained hqueue hrun => exact pushRegs_rewound (finishExit_chains hqueue hrun) rfl nofun

/-- Whether a syscall is restarted at its exit, restarted when a parked ptracer is woken, or chained
to another, the process makes it at the trap that it was stopped at, if and only if it is not in
Thumb state. -/
theorem reexecutes_iff {w w' : World} {asked : Reg → ℕ} (h : Resends s handle r w asked w') :
    Reexecutes ((w.heap r).mode s.target) (w.heap r).regs.current
        (registerFile s (w.heap r).pid w'.calls) asked ↔
      ((w.heap r).mode s.target).isThumb (w.heap r).regs.current = false :=
  h.rewound.asksAgain_iff

end Resent

/-! ## A process in Thumb state -/

/-- The registers of a process that has trapped at `0x1000`. -/
def trappedBank (programStatus : BitVec 32) : Bank := fun i =>
  if i = 15 then 0x1004 else if i = 16 then programStatus else 0

/-- A 32-bit process at the exit of a syscall, at which `getpid` was registered. -/
def chainedAt (programStatus : BitVec 32) : World :=
  { World.initial with
    heap := fun _ =>
      { pid := 5, status := 1, chain := { syscalls := .queue [⟨.getpid, []⟩] },
        regs := ⟨trappedBank programStatus, zeroBank, zeroBank, false, false⟩ }
    next := 1
    tracees := [0] }

/-- A host of such processes. -/
def armSetup : Setup where
  target := arm fun _ => .void
  host := fun _ => {}
  hasOnSysenter := false
  hasOnSysexit := false

/-- The chained syscall is sent again. -/
theorem chainedAt_resends (programStatus : BitVec 32) :
    ∃ asked w', Resends armSetup (fun _ _ => pure 0) 0 (chainedAt programStatus) asked w' := by
  refine ⟨_, _, .chained (v := (finishExit armSetup (fun _ _ => pure 0) 0
    (chainedAt programStatus)).2) rfl (Prod.ext ?_ rfl)⟩
  rfl

/-- A process in ARM state makes the syscall. -/
theorem reexecutes_iff_arm : ∃ (asked : Reg → ℕ) (w' : World),
    Reexecutes ⟨.armEabi, false⟩ (trappedBank 0x10) (registerFile armSetup 5 w'.calls) asked := by
  obtain ⟨asked, w', h⟩ := chainedAt_resends 0x10
  exact ⟨asked, w', (reexecutes_iff h).mpr rfl⟩

/-- One in Thumb state makes the instruction before the trap. -/
theorem thumb_notReexecuted : ∃ (asked : Reg → ℕ) (w' : World),
    Resends armSetup (fun _ _ => pure 0) 0 (chainedAt 0x30) asked w' ∧
      ¬Reexecutes ⟨.armEabi, false⟩ (trappedBank 0x30) (registerFile armSetup 5 w'.calls) asked := by
  obtain ⟨asked, w', h⟩ := chainedAt_resends 0x30
  refine ⟨asked, w', h, fun hagain => ?_⟩
  cases h.rewound.asksAgain_iff.mp hagain

end Abyss
