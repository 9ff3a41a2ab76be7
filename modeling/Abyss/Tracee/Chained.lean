import Abyss.Tracee.Frame

/-!
# Chained syscalls

The user's callback at the exit of a syscall may register syscalls that the tracee has not asked
for. They are forged one after the other, each at the exit of the one before, and a forged result
may take the place of the last one. Meanwhile syscalls are neither saved nor translated.

The list of the registered syscalls is freed after the last one, but the tracee keeps the pointer
to it. So it never leaves this mode again, once a syscall has been registered.
-/

namespace Abyss

open Machine

section Programs

variable (s : Setup)

/-- Append a syscall to those that follow the current one. -/
def registerChainedSyscall (r : Ref) (syscall : ChainedSyscall) : Prog ℤ := do
  let t ← tracee r
  let head ← (if t.chain.syscalls = .null then ask s .alloc else pure {})
  if head.status < 0 then pure (-enomem)
  else do
    when (t.chain.syscalls = .null) do
      update r fun t => { t with chain := { t.chain with syscalls := .queue [] } }
    let reply ← ask s .alloc
    if reply.status < 0 then pure (-enomem)
    else do
      let t ← tracee r
      match t.chain.syscalls with
      | .null => fault .nullPointer
      | .freed => fault .useAfterFree
      | .queue items => do
        update r fun t =>
          { t with chain := { t.chain with syscalls := .queue (items ++ [syscall]) } }
        pure 0

/-- Force the last result of the current chain of syscalls. -/
def forceChainFinalResult (r : Ref) (forcedResult : ℕ) : Prog Unit :=
  update r fun t =>
    { t with chain := { t.chain with forceFinalResult := true, finalResult := forcedResult } }

/-- A callback registers syscalls one after the other, and may force the last result. -/
def chainSyscalls (r : Ref) (syscalls : List ChainedSyscall) (forced : Option ℕ) : Prog Unit := do
  forEach (fun syscall => registerChainedSyscall s r syscall >>= fun _ => pure ()) syscalls
  match forced with
  | none => pure ()
  | some result => forceChainFinalResult r result

/-- What is left of the exit stage after the user was called. -/
def finishExitStage (handle : Ref → ℤ → Prog ℤ) (r : Ref) : Prog Unit := do
  let t ← tracee r
  when (t.chain.syscalls = .null) (translateSyscallExit s handle r)
  update r fun t => { t with status := 0 }
  let t ← tracee r
  when (t.chain.syscalls ≠ .null) (chainNextSyscall s r)

/-- The exit stage calls the user first. -/
theorem exitStage_eq (handle : Ref → ℤ → Prog ℤ) (r : Ref) :
    exitStage s handle r = (do
      mark (.exitStage r)
      update r fun t => { t with regs := { t.regs with restoreOriginal := true } }
      callOnSysexit s r
      finishExitStage s handle r) := rfl

/-- What is left of the stop at the exit of a syscall after the user was called. -/
def finishExitStop (handle : Ref → ℤ → Prog ℤ) (r : Ref) : Prog Unit := do
  finishExitStage s handle r
  let _ ← pushRegs s r
  update r fun t =>
    if t.seccomp = .disabling then { t with restartHow := .syscall, seccomp := .disabled } else t

/-- The status of a stop at a syscall. -/
def syscallStatus : ℤ := wStopcode (sigtrap + 0x80)

/-- A tracee is restarted and stops at the entry of a syscall, and again at its exit. -/
def chainedRound (fuel : ℕ) (r : Ref) : Prog Unit := do
  let _ ← restartTracee s r 0
  let _ ← handleTraceeEvent s fuel r syscallStatus
  let _ ← restartTracee s r 0
  let _ ← handleTraceeEvent s fuel r syscallStatus

end Programs

/-! ## The list of chained syscalls -/

section List

variable {s : Setup} {r : Ref} {w : World}

/-- The list that a tracee has so far. -/
def Lists (r : Ref) (items : List ChainedSyscall) (w : World) : Prop :=
  (w.heap r).chain.syscalls = .null ∧ items = [] ∨ (w.heap r).chain.syscalls = .queue items

/-- There is always memory for one more syscall. -/
def Setup.HasMemory (s : Setup) : Prop := ∀ past, 0 ≤ (s.host (.alloc :: past)).status

/-- A syscall is registered behind the others. -/
theorem registerChainedSyscall_appends (hmemory : s.HasMemory) {items : List ChainedSyscall}
    (syscall : ChainedSyscall) (hlists : Lists r items w) :
    ∃ v, registerChainedSyscall s r syscall w = (.ok 0, v) ∧
      (v.heap r).chain.syscalls = .queue (items ++ [syscall]) := by
  have halloc : ∀ v : World, ¬(s.host (.alloc :: v.calls)).status < 0 :=
    fun v => Int.not_lt.mpr (hmemory v.calls)
  -- With a list of its own the syscall is the next one of it.
  have happend : ∀ v : World, (v.heap r).chain.syscalls = .queue items →
      ∃ v', (do
        let reply ← ask s .alloc
        if reply.status < 0 then pure (-enomem)
        else do
          let t ← tracee r
          match t.chain.syscalls with
          | .null => fault .nullPointer
          | .freed => fault .useAfterFree
          | .queue items => do
            update r fun t =>
              { t with chain := { t.chain with syscalls := .queue (items ++ [syscall]) } }
            pure 0 : Prog ℤ) v = (.ok 0, v') ∧
        (v'.heap r).chain.syscalls = .queue (items ++ [syscall]) := by
    intro v hv
    have hlog : ((v.log .alloc).heap r).chain.syscalls = .queue items := hv
    rw [bind_apply_ok (ask_apply s _ v), if_neg (halloc v), bind_apply_ok (tracee_apply r _), hlog]
    exact ⟨_, rfl, by rw [World.update_self]⟩
  rw [registerChainedSyscall, bind_apply_ok (tracee_apply r w)]
  rcases hlists with ⟨hnull, rfl⟩ | hqueue
  · rw [if_pos hnull, bind_apply_ok (ask_apply s _ w), if_neg (halloc w), when, if_pos hnull,
      bind_apply_ok (update_apply r _ _)]
    exact happend ((w.log .alloc).update r fun t =>
      { t with chain := { t.chain with syscalls := .queue [] } }) (by rw [World.update_self])
  · have hsome : ¬(w.heap r).chain.syscalls = .null := hqueue.trans_ne nofun
    rw [if_neg hsome, when, if_neg hsome]
    exact happend w hqueue

/-- Syscalls are registered in order. -/
theorem forEach_registerChainedSyscall (hmemory : s.HasMemory) (syscalls : List ChainedSyscall)
    {items : List ChainedSyscall} (hlists : Lists r items w) :
    ∃ v, forEach (fun syscall => registerChainedSyscall s r syscall >>= fun _ => pure ()) syscalls w =
        (.ok (), v) ∧
      Lists r (items ++ syscalls) v ∧ (syscalls = [] → v = w) := by
  induction syscalls generalizing items w with
  | nil =>
    rw [List.append_nil]
    exact ⟨w, rfl, hlists, fun _ => rfl⟩
  | cons syscall rest ih =>
    obtain ⟨v, hrun, hv⟩ := registerChainedSyscall_appends hmemory syscall hlists
    obtain ⟨v', hrun', hv', -⟩ := ih (Or.inr hv : Lists r (items ++ [syscall]) v)
    rw [List.append_assoc] at hv'
    refine ⟨v', ?_, hv', nofun⟩
    rw [forEach, bind_apply_ok ((bind_apply_ok hrun).trans rfl)]
    exact hrun'

/-- All syscalls that a callback chains are registered; if there are none, there is no list. -/
theorem chainSyscalls_lists (hmemory : s.HasMemory) (syscalls : List ChainedSyscall)
    (forced : Option ℕ) (hnull : (w.heap r).chain.syscalls = .null) :
    ∃ v, chainSyscalls s r syscalls forced w = (.ok (), v) ∧
      (v.heap r).chain.syscalls = if syscalls = [] then .null else .queue syscalls := by
  obtain ⟨v, hrun, hlists, hnone⟩ :=
    forEach_registerChainedSyscall hmemory syscalls (Or.inl ⟨hnull, rfl⟩ : Lists r [] w)
  have hv : (v.heap r).chain.syscalls = if syscalls = [] then .null else .queue syscalls := by
    split
    · rw [hnone ‹_›, hnull]
    · exact hlists.resolve_left fun h => absurd h.2 ‹_›
  unfold chainSyscalls
  rw [bind_apply_ok hrun]
  cases forced with
  | none => exact ⟨v, rfl, hv⟩
  | some result => exact ⟨_, update_apply r _ v, by rwa [World.update_self]⟩

end List

/-! ## What is expected -/

/-- The arguments of a chained syscall, by register. -/
def ChainedSyscall.pokes (syscall : ChainedSyscall) : List (Reg × ℕ) :=
  [Reg.sysarg1, .sysarg2, .sysarg3, .sysarg4, .sysarg5, .sysarg6].zipIdx.map fun p =>
    (p.1, syscall.sysargs.getD p.2 0)

/-- A chained syscall is about to be made, and the tracee will stop at its exit. -/
def Forged (s : Setup) (syscall : ChainedSyscall) (t : Tracee) : Prop :=
  getSysnum s.target (t.mode s.target) t.regs .current = syscall.sysnum ∧
  (∀ p ∈ syscall.pokes, peekReg (t.mode s.target) t.regs .current p.1 = p.2) ∧
  t.restartHow = .syscall

/-- The last chained syscall is done: the result is the forced one if there is one, and the
original arguments and stack pointer are restored. -/
def Finished (s : Setup) (chain : Chain) (t : Tracee) : Prop :=
  (chain.forceFinalResult = true →
    peekReg (t.mode s.target) t.regs .current .sysargResult = chain.finalResult) ∧
  ∀ reg ∈ [Reg.sysarg2, .sysarg3, .sysarg4, .sysarg5, .sysarg6, .stackPointer],
    peekReg (t.mode s.target) t.regs .current reg = peekReg (t.mode s.target) t.regs .original reg

/-- The stops that follow run the given syscalls one after the other, and leave the tracee in the
mode in which its syscalls are translated. -/
def RunsChained (s : Setup) (fuel : ℕ) (r : Ref) (chain : Chain) :
    List ChainedSyscall → World → Prop
  | [], w => Finished s chain (w.heap r) ∧ (w.heap r).chain.syscalls = .null
  | syscall :: rest, w => Forged s syscall (w.heap r) ∧
      ∃ v, chainedRound s fuel r w = (.ok (), v) ∧ RunsChained s fuel r chain rest v

/-- The syscalls that were registered when the user's callback returns are run. -/
def ChainRuns (s : Setup) (fuel : ℕ) (r : Ref) (w : World) : Prop :=
  ∀ items, (w.heap r).chain.syscalls = .queue items →
    ∃ v, finishExitStop s (handleTraceeEvent s fuel) r w = (.ok (), v) ∧
      RunsChained s fuel r (w.heap r).chain items v

/-! ## The mode is never left -/

/-- Syscalls are chained to those of a tracee, or have been. -/
def Chained (r : Ref) (w : World) : Prop := (w.heap r).chain.syscalls ≠ .null

section Chained

variable {s : Setup} {r : Ref} {handle : Ref → ℤ → Prog ℤ}

/-- A change that does not end a chain keeps it. -/
theorem chained_update {f : Tracee → Tracee}
    (hf : ∀ t, t.chain.syscalls ≠ .null → (f t).chain.syscalls ≠ .null) :
    Keeps (Chained r) (fun _ _ => True) (update r f) := by
  refine update_keeps fun w hw => ?_
  unfold Chained
  rw [World.update_self]
  exact hf _ hw

/-- A mark keeps a chain. -/
theorem chained_mark (c : Call) : Keeps (Chained r) (fun _ _ => True) (mark c) :=
  mark_keeps fun _ hw => hw

/-- So does a question to the host. -/
theorem chained_ask (c : Call) : Keeps (Chained r) (fun _ _ => True) (ask s c) :=
  Keeps.bind (chained_mark c) fun _ => Keeps.bind Keeps.read fun _ => Keeps.pure _

/-- A quiet program leaves the chain alone. -/
theorem chained_quiet {α : Type} {x : Prog α} {F : Fault → Prop} (hx : Quiet r F x) :
    Keeps (Chained r) (fun _ _ => True) x := by
  intro w hw
  obtain ⟨hcore, -, -⟩ := hx w
  have hchain : ((x w).2.heap r).chain = (w.heap r).chain :=
    (congrArg (fun v : World => (v.heap r).chain) hcore :)
  refine ⟨fun a v hrun => ?_, fun _ _ _ => trivial⟩
  rw [hrun] at hchain
  exact (congrArg Chain.syscalls hchain).trans_ne hw

/-- At the entry of a chained syscall nothing is saved or translated. -/
theorem enterStage_chained : Keeps (Chained r) (fun _ _ => True) (enterStage s r) := by
  refine Keeps.bind (chained_mark _) fun _ => Keeps.bind (chained_update fun _ h => h) fun _ => ?_
  refine Triple.tracee_bind fun t => ?_
  rintro w ⟨hw, rfl⟩
  rw [if_neg hw]
  refine (Keeps.bind (f := fun status => finishEnter s r status)
    (Keeps.bind (chained_update (f := fun t => { t with restartHow := .syscall }) fun _ h => h)
      fun _ => Keeps.pure 0) fun status => ?_) w hw
  refine Keeps.bind ?_ fun _ => Keeps.bind (tracee_keeps r) fun t => Keeps.when fun _ => ?_
  · refine Keeps.ite (fun _ => ?_) fun _ => chained_update fun _ h => h
    refine Keeps.bind (chained_quiet (pokeSysnum_quiet s (E := fun _ => True) r _)) fun _ => ?_
    refine Keeps.bind (chained_quiet (poke_quiet s (E := fun _ => True) r _ _)) fun _ => ?_
    exact chained_update fun _ h => h
  · refine Keeps.bind (chained_update fun _ h => h) fun _ => ?_
    refine Keeps.bind (chained_quiet (peek_quiet s (E := fun _ => True) r _ _)) fun _ => ?_
    exact chained_quiet (poke_quiet s (E := fun _ => True) r _ _)

/-- The list is shortened, or freed in the end. -/
theorem chainNextSyscall_chained :
    Keeps (Chained r) (fun _ _ => True) (chainNextSyscall s r) := by
  have hpoke : ∀ reg value, Keeps (Chained r) (fun _ _ => True) (poke s r reg value) :=
    fun reg value => chained_quiet (poke_quiet s (E := fun _ => True) r reg value)
  refine Keeps.bind (tracee_keeps r) fun t => ?_
  split
  · exact Keeps.fault fun _ _ => trivial
  · exact Keeps.fault fun _ _ => trivial
  · refine Keeps.bind (chained_update fun _ _ => nofun) fun _ => ?_
    exact Keeps.bind (Keeps.when fun _ => hpoke _ _) fun _ => chained_update fun _ h => h
  · refine Keeps.bind (chained_update fun _ _ => nofun) fun _ => ?_
    refine Keeps.bind (hpoke _ _) fun _ => Keeps.bind (hpoke _ _) fun _ => ?_
    refine Keeps.bind (hpoke _ _) fun _ => Keeps.bind (hpoke _ _) fun _ => ?_
    refine Keeps.bind (hpoke _ _) fun _ => Keeps.bind (hpoke _ _) fun _ => ?_
    refine Keeps.bind (chained_quiet (pokeSysnum_quiet s (E := fun _ => True) r _)) fun _ => ?_
    exact chained_update fun _ h => h

/-- At the exit of a chained syscall nothing is translated. -/
theorem finishExitStage_chained :
    Keeps (Chained r) (fun _ _ => True) (finishExitStage s handle r) := by
  refine Triple.tracee_bind fun t => ?_
  rintro w ⟨hw, rfl⟩
  have hskip : ¬(w.heap r).chain.syscalls = .null := hw
  rw [when, if_neg hskip]
  refine (Keeps.bind (Keeps.pure ()) fun _ => ?_) w hw
  refine Keeps.bind (chained_update fun _ h => h) fun _ => ?_
  exact Keeps.bind (tracee_keeps r) fun t => Keeps.when fun _ => chainNextSyscall_chained

/-- So does it to call the user. -/
theorem callOnSysexit_chained : Keeps (Chained r) (fun _ _ => True) (callOnSysexit s r) := by
  refine Keeps.when fun _ => ?_
  refine Keeps.bind (chained_quiet (sysnumOf_quiet s (E := fun _ => True) r _)) fun sysnum => ?_
  refine Keeps.bind (chained_quiet (callbackPid_quiet (E := fun _ => True) r)) fun pid => ?_
  refine Keeps.bind (tracee_keeps r) fun t => Keeps.bind (chained_ask _) fun reply => ?_
  exact chained_quiet (applyPokes_quiet s (E := fun _ => True) r reply.pokes)

/-- A chain lasts over the exit, even an empty one. -/
theorem exitStage_chained : Keeps (Chained r) (fun _ _ => True) (exitStage s handle r) := by
  rw [exitStage_eq]
  refine Keeps.bind (chained_mark _) fun _ => Keeps.bind (chained_update fun _ h => h) fun _ => ?_
  exact Keeps.bind callOnSysexit_chained fun _ => finishExitStage_chained

/-- The end of the filter does not end a chain. -/
theorem disable_chained : Keeps (Chained r) (fun _ _ => True) (update r fun t =>
    if t.seccomp = .disabling then { t with restartHow := .syscall, seccomp := .disabled }
    else t) := by
  refine chained_update fun t h => ?_
  split
  · exact h
  · exact h

/-- Nor does the end of a stop. -/
theorem finishExitStop_chained :
    Keeps (Chained r) (fun _ _ => True) (finishExitStop s handle r) := by
  refine Keeps.bind finishExitStage_chained fun _ => ?_
  refine Keeps.bind (chained_quiet (pushRegs_quiet s (E := fun _ => True) r)) fun _ => ?_
  exact disable_chained

/-- A stop at a syscall does not leave the mode. -/
theorem handleSyscallStop_chained :
    Keeps (Chained r) (fun _ _ => True) (handleSyscallStop s handle r) := by
  refine Keeps.bind (tracee_keeps r) fun t => Keeps.ite (fun _ => ?_) fun _ => ?_
  · exact chained_update fun _ h => h
  · refine Keeps.bind (chained_update fun t h => ?_) fun _ => Keeps.bind ?_ fun _ =>
      disable_chained
    · unfold expectSysexit
      split_ifs <;> exact h
    · refine Keeps.bind (tracee_keeps r) fun t => ?_
      refine Keeps.bind (chained_quiet (fetchRegs_quiet s (E := fun _ => True) r)) fun fetched => ?_
      refine Keeps.ite (fun _ => chained_mark _) fun _ => Keeps.bind ?_ fun _ => ?_
      · exact Keeps.ite (fun _ => enterStage_chained) fun _ => exitStage_chained
      · exact Keeps.bind (chained_quiet (pushRegs_quiet s (E := fun _ => True) r)) fun _ =>
          Keeps.pure ()

/-- Nor does its event. -/
theorem handleTraceeEvent_chained (fuel : ℕ) :
    Keeps (Chained r) (fun _ _ => True) (handleTraceeEvent s fuel r syscallStatus) := by
  cases fuel with
  | zero => exact Keeps.fault fun _ _ => trivial
  | succ fuel =>
    refine Keeps.bind (chained_mark _) fun _ => Keeps.bind (chained_update fun t h => ?_) fun _ => ?_
    · unfold chooseRestart
      split_ifs <;> exact h
    · refine Keeps.bind ?_ fun _ => Keeps.bind (chained_update fun _ h => h) fun _ => Keeps.pure _
      exact Keeps.bind handleSyscallStop_chained fun _ => Keeps.pure 0

/-- Nor does a restart. -/
theorem restartTracee_chained (signal : ℤ) :
    Keeps (Chained r) (fun _ _ => True) (restartTracee s r signal) := by
  refine Keeps.bind (tracee_keeps r) fun t => Keeps.ite (fun _ => Keeps.pure _) fun _ => ?_
  refine Keeps.bind (chained_ask _) fun reply => Keeps.ite (fun _ => Keeps.pure _) fun _ => ?_
  refine Keeps.bind (chained_mark _) fun _ => Keeps.bind (chained_update fun _ h => h) fun _ => ?_
  exact Keeps.pure true

/-- A round keeps a chain. -/
theorem chainedRound_chained (fuel : ℕ) :
    Keeps (Chained r) (fun _ _ => True) (chainedRound s fuel r) := by
  refine Keeps.bind (restartTracee_chained 0) fun _ => ?_
  refine Keeps.bind (handleTraceeEvent_chained fuel) fun _ => ?_
  refine Keeps.bind (restartTracee_chained 0) fun _ => ?_
  exact Keeps.bind (handleTraceeEvent_chained fuel) fun _ => Keeps.pure ()

/-- However many syscalls are chained, the tracee does not return to its former mode. -/
theorem not_runsChained {fuel : ℕ} {chain : Chain} {items : List ChainedSyscall} {w : World}
    (hw : Chained r w) : ¬RunsChained s fuel r chain items w := by
  induction items generalizing w with
  | nil => exact fun hruns => hw hruns.2
  | cons syscall rest ih =>
    rintro ⟨-, v, hround, hrest⟩
    exact ih ((chainedRound_chained fuel w hw).1 _ v hround) hrest

/-- A run that is as it should be is one of a tracee without a list. -/
theorem ChainRuns.not_queue {fuel : ℕ} {w : World} (hruns : ChainRuns s fuel r w)
    (items : List ChainedSyscall) : (w.heap r).chain.syscalls ≠ .queue items := by
  intro hitems
  obtain ⟨v, hfinish, hrest⟩ := hruns items hitems
  have hchained : Chained r w := hitems.trans_ne nofun
  exact not_runsChained ((finishExitStop_chained w hchained).1 _ v hfinish) hrest

/-- What a callback chains to a syscall that was not chained itself is run as it should be exactly if
that is nothing. -/
theorem chainSyscalls_chainRuns_iff (hmemory : s.HasMemory) (fuel : ℕ)
    (syscalls : List ChainedSyscall) (forced : Option ℕ) {w : World}
    (hnull : (w.heap r).chain.syscalls = .null) :
    ∃ v, chainSyscalls s r syscalls forced w = (.ok (), v) ∧
      (ChainRuns s fuel r v ↔ syscalls = []) := by
  obtain ⟨v, hrun, hlist⟩ := chainSyscalls_lists hmemory syscalls forced hnull
  refine ⟨v, hrun, fun hruns => ?_, fun hnone items hitems => ?_⟩
  · by_contra hsome
    rw [if_neg hsome] at hlist
    exact hruns.not_queue syscalls hlist
  · rw [if_pos hnone, hitems] at hlist
    cases hlist

/-- Syscalls are run as they should be exactly if none has been registered. -/
theorem chainRuns_iff (s : Setup) (fuel : ℕ) (r : Ref) (w : World) :
    ChainRuns s fuel r w ↔ ∀ items, (w.heap r).chain.syscalls ≠ .queue items := by
  exact ⟨ChainRuns.not_queue, fun hnone items hitems => absurd hitems (hnone items)⟩

end Chained

/-- A tracee at the exit of a syscall, at which `getpid` was registered. -/
def oneChained : World :=
  { World.initial with
    heap := fun _ => { pid := 1, status := 1, chain := { syscalls := .queue [⟨.getpid, []⟩] } }
    next := 1
    tracees := [0] }

/-- One chained syscall is enough to keep the tracee from its former mode. -/
theorem oneChained_notRun : ¬ChainRuns (Script.setup {}) 3 0 oneChained := by
  exact fun hruns => hruns.not_queue [⟨.getpid, []⟩] rfl

end Abyss
