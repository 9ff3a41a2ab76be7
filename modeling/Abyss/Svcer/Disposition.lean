import Abyss.Tracee.Mem

/-!
# The virtual disposition of a hooked process

The hook itself needs the handler of `SIGSYS`, the filter and `no_new_privs`. The calls of the
program that ask for them or set them are answered by a callback from four globals, and never given
to the kernel. What the program should see is what the kernel would answer for a private copy of
its disposition; this is so unless a new action is read where the old one was just written, the
kernel would have refused the call or not let it through, or the process had `no_new_privs` before.

The action in force at first is kept as libc lays it out, and returned where the program expects that
of the kernel. This only shows where the two differ and no new action has been set.
-/

namespace Abyss.Svcer

open Bytes

/-! ## The callback -/

/-- `SIGSYS`. -/
def sigsys : ℤ := 31

/-- `PR_GET_SECCOMP`. -/
def prGetSeccomp : ℤ := 21

/-- `PR_SET_SECCOMP`. -/
def prSetSeccomp : ℤ := 22

/-- `PR_SET_NO_NEW_PRIVS`. -/
def prSetNoNewPrivs : ℤ := 38

/-- `PR_GET_NO_NEW_PRIVS`. -/
def prGetNoNewPrivs : ℤ := 39

/-- The syscalls whose arguments are looked at, with their arguments. -/
inductive HookedCall (cpu : Cpu) where
  | prctl (args : Fin 6 → cpu.Word)
  | rtSigaction (args : Fin 6 → cpu.Word)

/-- An argument as an `int`. -/
def intArg {cpu : Cpu} (arg : cpu.Word) : ℤ := (arg.setWidth 32).toInt

/-- The memory of the process. -/
abbrev ProcessMemory := ℕ → Byte

/-- The globals of the hook. -/
structure Globals where
  cacheSecomp : ℤ
  cacheNoNewPrivs : ℤ
  defaultSecomp : ℤ
  defaultAct : List Byte

/-- What a callback does: return a value, or give the syscall to the next one. -/
inductive Answer where
  | returns (value : ℤ)
  | doSyscall
deriving DecidableEq

/-- The value that is returned without the kernel. -/
def Answer.value : Answer → Option ℤ
  | .returns value => some value
  | .doSyscall => none

/-- `SvcerHooker::getSigaction`. -/
def getSigaction (g : Globals) (mem : ProcessMemory) (act : ℕ) : ProcessMemory :=
  splice mem act g.defaultAct

/-- `SvcerHooker::setSigaction`, for actions of a size. -/
def setSigaction (size : ℕ) (g : Globals) (mem : ProcessMemory) (act : ℕ) : Globals :=
  { g with defaultAct := block mem act size }

/-- `handleSvcerHookerCallback`, for `prctl` and `rt_sigaction`. -/
def handleSvcerHookerCallback {cpu : Cpu} (size : ℕ) (call : HookedCall cpu) (g : Globals)
    (mem : ProcessMemory) : Answer × Globals × ProcessMemory :=
  match call with
  | .prctl args =>
    let option := intArg (args 0)
    let mode := intArg (args 1)
    if option = prGetNoNewPrivs then (.returns g.cacheNoNewPrivs, g, mem)
    else if option = prSetNoNewPrivs then (.returns 0, { g with cacheNoNewPrivs := 1 }, mem)
    else if option = prSetSeccomp then (.returns 0, { g with cacheSecomp := mode }, mem)
    else if option = prGetSeccomp then
      if 0 ≤ g.cacheSecomp then (.returns g.cacheSecomp, g, mem)
      else (.returns g.defaultSecomp, g, mem)
    else (.doSyscall, g, mem)
  | .rtSigaction args =>
    let newAction := (args 1).toNat
    let oldAction := (args 2).toNat
    if intArg (args 0) ≠ sigsys then (.doSyscall, g, mem)
    else
      let mem := if oldAction ≠ 0 then getSigaction g mem oldAction else mem
      let g := if newAction ≠ 0 then setSigaction size g mem newAction else g
      (.returns 0, g, mem)

/-! ## What the kernel would answer -/

/-- `EACCES`. -/
def eacces : ℤ := 13

/-- `EINVAL`. -/
def einval : ℤ := 22

/-- The disposition of a process: the action of `SIGSYS`, the mode of seccomp and the filters that are
installed, each by the memory and the address that it was read from, and whether the process cannot
gain privileges. -/
structure Disposition (cpu : Cpu) where
  action : List Byte
  secomp : ℤ
  filters : List (ProcessMemory × cpu.Word)
  noNewPrivs : ℤ

/-- What is left to libc and to the kernel: how libc lays out an action of the kernel, what the kernel
keeps of an action, which never blocks some signals, whether the process is privileged, the error of a
filter that cannot be read or has a wrong length, that of one whose instructions are refused, and what
becomes of a call that the filters do not let through: the value that it returns, or the end of the
process. -/
structure Rules (cpu : Cpu) where
  actionSize : ℕ
  libcSize : ℕ
  libcSize_le : libcSize ≤ actionSize
  libcAction : List Byte → List Byte
  libcAction_length : ∀ action, (libcAction action).length = libcSize
  sanitize : List Byte → List Byte
  privileged : Bool
  programError : ProcessMemory → cpu.Word → Option ℤ
  filterError : ProcessMemory → cpu.Word → Option ℤ
  filtered : List (ProcessMemory × cpu.Word) → HookedCall cpu → Option (Option ℤ)

section Kernel

variable {cpu : Cpu} (rules : Rules cpu)

/-- The error of a filter that is to be installed; without privileges this takes `no_new_privs`. -/
def installError (filter : cpu.Word) (d : Disposition cpu) (mem : ProcessMemory) : Option ℤ :=
  match rules.programError mem filter with
  | some e => some e
  | none =>
    if d.noNewPrivs = 0 ∧ rules.privileged = false then some eacces
    else rules.filterError mem filter

/-- Set the mode of seccomp, which cannot be changed again. -/
def kernelSetSeccomp (args : Fin 6 → cpu.Word) (d : Disposition cpu) (mem : ProcessMemory) :
    ℤ × Disposition cpu :=
  if (args 1).toNat = 1 then
    if d.secomp ≠ 0 ∧ d.secomp ≠ 1 then (-einval, d) else (0, { d with secomp := 1 })
  else if (args 1).toNat = 2 then
    match installError rules (args 2) d mem with
    | some e => (-e, d)
    | none =>
      if d.secomp ≠ 0 ∧ d.secomp ≠ 2 then (-einval, d)
      else (0, { d with secomp := 2, filters := (mem, args 2) :: d.filters })
  else (-einval, d)

/-- The kernel's own semantics of `prctl` and `rt_sigaction`, once they are let through. -/
def kernelPerform (call : HookedCall cpu) (d : Disposition cpu) (mem : ProcessMemory) :
    ℤ × Disposition cpu × ProcessMemory :=
  match call with
  | .prctl args =>
    if intArg (args 0) = prGetNoNewPrivs then
      if args 1 ≠ 0 ∨ args 2 ≠ 0 ∨ args 3 ≠ 0 ∨ args 4 ≠ 0 then (-einval, d, mem)
      else (d.noNewPrivs, d, mem)
    else if intArg (args 0) = prSetNoNewPrivs then
      if args 1 ≠ 1 ∨ args 2 ≠ 0 ∨ args 3 ≠ 0 ∨ args 4 ≠ 0 then (-einval, d, mem)
      else (0, { d with noNewPrivs := 1 }, mem)
    else if intArg (args 0) = prSetSeccomp then
      let (status, d) := kernelSetSeccomp rules args d mem
      (status, d, mem)
    else (d.secomp, d, mem)
  | .rtSigaction args =>
    -- The size of a set of signals.
    if args 3 ≠ 8 then (-einval, d, mem)
    else
      -- The new action is read before the old one is written.
      let newAction := block mem (args 1).toNat rules.actionSize
      let mem := if (args 2).toNat ≠ 0 then splice mem (args 2).toNat d.action else mem
      let d := if (args 1).toNat ≠ 0 then { d with action := rules.sanitize newAction } else d
      (0, d, mem)

/-- The kernel's own semantics of the calls that are intercepted, and the value that is returned. In
strict mode they end the process, and the filters can do so, too. -/
def kernelAnswer (call : HookedCall cpu) (d : Disposition cpu) (mem : ProcessMemory) :
    Option ℤ × Disposition cpu × ProcessMemory :=
  if d.secomp = 1 then (none, d, mem)
  else
    match rules.filtered d.filters call with
    | some reply => (reply, d, mem)
    | none =>
      let (status, d, mem) := kernelPerform rules call d mem
      (some status, d, mem)

end Kernel

/-- The call is one of those that are intercepted. -/
def Intercepted {cpu : Cpu} : HookedCall cpu → Prop
  | .prctl args => intArg (args 0) = prGetNoNewPrivs ∨ intArg (args 0) = prSetNoNewPrivs ∨
      intArg (args 0) = prSetSeccomp ∨ intArg (args 0) = prGetSeccomp
  | .rtSigaction args => intArg (args 0) = sigsys

/-! ## Runs -/

/-- What happens in the process: its memory changes, or it makes one of the calls. -/
inductive HookEvent (cpu : Cpu) where
  | write (mem : ProcessMemory)
  | call (call : HookedCall cpu)

section Runs

variable {cpu : Cpu} (rules : Rules cpu)

/-- The answers of the callback to the calls of a process, and what becomes of the memory. -/
def hookRun : List (HookEvent cpu) → Globals → ProcessMemory → List Answer × ProcessMemory
  | [], _, mem => ([], mem)
  | .write mem :: rest, g, _ => hookRun rest g mem
  | .call call :: rest, g, mem =>
    let (answer, g, mem) := handleSvcerHookerCallback rules.libcSize call g mem
    let (answers, mem) := hookRun rest g mem
    (answer :: answers, mem)

/-- The answers of the kernel to the same calls. -/
def kernelRun : List (HookEvent cpu) → Disposition cpu → ProcessMemory →
    List (Option ℤ) × ProcessMemory
  | [], _, mem => ([], mem)
  | .write mem :: rest, d, _ => kernelRun rest d mem
  | .call call :: rest, d, mem =>
    let (reply, d, mem) := kernelAnswer rules call d mem
    let (replies, mem) := kernelRun rest d mem
    (reply :: replies, mem)

/-- The globals after the initialization of the hook in a process of a disposition; libc tells the
action. -/
def Globals.start (d : Disposition cpu) : Globals := ⟨-1, 0, d.secomp, rules.libcAction d.action⟩

/-- The call sets a new action. -/
def SetsAction : HookedCall cpu → Prop
  | .prctl _ => False
  | .rtSigaction args => (args 1).toNat ≠ 0

/-- The kernel would let the call through and take it. An old action is only asked for if it is known
as the kernel lays it out, and what libc has no room for is in the buffer already; writing it does not
change the new action, of which the kernel keeps everything. -/
def Meets (call : HookedCall cpu) (known : Prop) (d : Disposition cpu) (mem : ProcessMemory) : Prop :=
  d.secomp ≠ 1 ∧ rules.filtered d.filters call = none ∧
    match call with
    | .prctl args =>
      (intArg (args 0) = prGetNoNewPrivs → args 1 = 0 ∧ args 2 = 0 ∧ args 3 = 0 ∧ args 4 = 0) ∧
      (intArg (args 0) = prSetNoNewPrivs → args 1 = 1 ∧ args 2 = 0 ∧ args 3 = 0 ∧ args 4 = 0) ∧
      (intArg (args 0) = prSetSeccomp →
        (args 1 = 1 ∧ d.secomp = 0) ∨
        (args 1 = 2 ∧ (d.secomp = 0 ∨ d.secomp = 2) ∧ (d.noNewPrivs ≠ 0 ∨ rules.privileged = true) ∧
          rules.programError mem (args 2) = none ∧ rules.filterError mem (args 2) = none))
    | .rtSigaction args =>
      args 3 = 8 ∧
      ((args 2).toNat ≠ 0 → known ∧
        splice mem (args 2).toNat (d.action.take rules.libcSize) =
          splice mem (args 2).toNat d.action) ∧
      ((args 1).toNat ≠ 0 →
        ((args 2).toNat ≠ 0 →
          block (splice mem (args 2).toNat d.action) (args 1).toNat rules.actionSize =
            block mem (args 1).toNat rules.actionSize) ∧
        rules.sanitize (block mem (args 1).toNat rules.actionSize) =
          block mem (args 1).toNat rules.actionSize)

/-- All calls of a run are intercepted and meet the condition; `known` tells whether the action is known
as the kernel lays it out. -/
def MeetsAll : List (HookEvent cpu) → Prop → Disposition cpu → ProcessMemory → Prop
  | [], _, _, _ => True
  | .write mem :: rest, known, d, _ => MeetsAll rest known d mem
  | .call call :: rest, known, d, mem =>
    Intercepted call ∧ Meets rules call known d mem ∧
      MeetsAll rest (known ∨ SetsAction call) (kernelAnswer rules call d mem).2.1
        (kernelAnswer rules call d mem).2.2

/-- The action is laid out by libc as by the kernel. -/
def SameLayout (action : List Byte) : Prop :=
  rules.libcAction action = action.take rules.libcSize

/-- All calls of a run are intercepted. -/
def InterceptedAll (events : List (HookEvent cpu)) : Prop :=
  ∀ call, HookEvent.call call ∈ events → Intercepted call

end Runs

/-! ## The private copy -/

/-- The globals are a copy of a disposition, as far as the action is known. -/
structure Mirrors {cpu : Cpu} (rules : Rules cpu) (known : Prop) (g : Globals) (d : Disposition cpu) :
    Prop where
  action : known → g.defaultAct = d.action.take rules.libcSize
  secomp : (if 0 ≤ g.cacheSecomp then g.cacheSecomp else g.defaultSecomp) = d.secomp
  noNewPrivs : g.cacheNoNewPrivs = d.noNewPrivs

section Step

variable {cpu : Cpu} {rules : Rules cpu} {size : ℕ} {known : Prop} {g : Globals}
  {d : Disposition cpu} {mem : ProcessMemory}

/-- The globals are a copy at first if the process can gain privileges. -/
theorem mirrors_start (h : d.noNewPrivs = 0) :
    Mirrors rules (SameLayout rules d.action) (.start rules d) d :=
  ⟨id, rfl, h.symm⟩

/-- Strict mode can be set once. -/
theorem kernelSetSeccomp_strict {args : Fin 6 → cpu.Word} (hmode : args 1 = 1) (hfree : d.secomp = 0) :
    kernelSetSeccomp rules args d mem = (0, { d with secomp := 1 }) := by
  have hone : (args 1).toNat = 1 := by
    rw [hmode]
    cases cpu <;> rfl
  rw [kernelSetSeccomp, if_pos hone, if_neg fun h => h.1 hfree]

/-- A filter that the kernel takes is installed. -/
theorem kernelSetSeccomp_filter {args : Fin 6 → cpu.Word} (hmode : args 1 = 2)
    (hfree : d.secomp = 0 ∨ d.secomp = 2) (hprivs : d.noNewPrivs ≠ 0 ∨ rules.privileged = true)
    (hprogram : rules.programError mem (args 2) = none)
    (hfilter : rules.filterError mem (args 2) = none) :
    kernelSetSeccomp rules args d mem =
      (0, { d with secomp := 2, filters := (mem, args 2) :: d.filters }) := by
  have htwo : (args 1).toNat = 2 := by
    rw [hmode]
    cases cpu <;> rfl
  have hallowed : ¬(d.noNewPrivs = 0 ∧ rules.privileged = false) := by
    rintro ⟨hzero, hnot⟩
    rcases hprivs with hprivs | hprivs
    · exact hprivs hzero
    · rw [hnot] at hprivs
      cases hprivs
  have hnone : installError rules (args 2) d mem = none := by
    rw [installError, hprogram]
    dsimp only
    rw [if_neg hallowed, hfilter]
  rw [kernelSetSeccomp, if_neg (by omega), if_pos htwo, hnone]
  exact if_neg fun h => hfree.elim h.1 h.2

/-- An intercepted call is never given to the kernel. -/
theorem handleSvcerHookerCallback_returns {call : HookedCall cpu} (h : Intercepted call)
    (g : Globals) (mem : ProcessMemory) :
    ∃ value, (handleSvcerHookerCallback size call g mem).1 = .returns value := by
  cases call with
  | prctl args =>
    unfold handleSvcerHookerCallback
    dsimp only
    by_cases hget : intArg (args 0) = prGetNoNewPrivs
    · exact ⟨_, by rw [if_pos hget]⟩
    by_cases hset : intArg (args 0) = prSetNoNewPrivs
    · exact ⟨_, by rw [if_neg hget, if_pos hset]⟩
    by_cases hsetSeccomp : intArg (args 0) = prSetSeccomp
    · exact ⟨_, by rw [if_neg hget, if_neg hset, if_pos hsetSeccomp]⟩
    have hgetSeccomp := ((h.resolve_left hget).resolve_left hset).resolve_left hsetSeccomp
    rw [if_neg hget, if_neg hset, if_neg hsetSeccomp, if_pos hgetSeccomp]
    split
    · exact ⟨_, rfl⟩
    · exact ⟨_, rfl⟩
  | rtSigaction args =>
    refine ⟨0, ?_⟩
    unfold handleSvcerHookerCallback
    dsimp only
    have hsig : intArg (args 0) = sigsys := h
    rw [if_neg (not_not_intro hsig)]

/-- A `prctl` that meets the condition does what the kernel does, and keeps the copy. -/
theorem handleSvcerHookerCallback_prctl (size : ℕ) {args : Fin 6 → cpu.Word}
    (hcall : Intercepted (.prctl args : HookedCall cpu))
    (hmeets : Meets rules (.prctl args) known d mem)
    (h : Mirrors rules known g d) :
    ∃ g', handleSvcerHookerCallback size (.prctl args) g mem =
        (.returns (kernelPerform rules (.prctl args) d mem).1, g',
          (kernelPerform rules (.prctl args) d mem).2.2) ∧
      Mirrors rules known g' (kernelPerform rules (.prctl args) d mem).2.1 := by
  obtain ⟨haction, hsecomp, hprivs⟩ := h
  obtain ⟨-, -, hget', hset', hsetSeccomp'⟩ := hmeets
  unfold handleSvcerHookerCallback kernelPerform
  dsimp only
  by_cases hget : intArg (args 0) = prGetNoNewPrivs
  · obtain ⟨h1, h2, h3, h4⟩ := hget' hget
    have hargs : ¬(args 1 ≠ 0 ∨ args 2 ≠ 0 ∨ args 3 ≠ 0 ∨ args 4 ≠ 0) := by simp [h1, h2, h3, h4]
    rw [if_pos hget, if_pos hget, if_neg hargs, hprivs]
    exact ⟨g, rfl, haction, hsecomp, hprivs⟩
  rw [if_neg hget, if_neg hget]
  by_cases hset : intArg (args 0) = prSetNoNewPrivs
  · obtain ⟨h1, h2, h3, h4⟩ := hset' hset
    have hargs : ¬(args 1 ≠ 1 ∨ args 2 ≠ 0 ∨ args 3 ≠ 0 ∨ args 4 ≠ 0) := by simp [h1, h2, h3, h4]
    rw [if_pos hset, if_pos hset, if_neg hargs]
    exact ⟨_, rfl, haction, hsecomp, rfl⟩
  rw [if_neg hset, if_neg hset]
  by_cases hsetSeccomp : intArg (args 0) = prSetSeccomp
  · rw [if_pos hsetSeccomp, if_pos hsetSeccomp]
    rcases hsetSeccomp' hsetSeccomp with ⟨hmode, hfree⟩ | ⟨hmode, hfree, hprivs', hprogram, hfilter⟩
    · have hone : intArg (args 1) = 1 := by
        rw [hmode]
        cases cpu <;> rfl
      rw [kernelSetSeccomp_strict hmode hfree, hone]
      exact ⟨_, rfl, haction, rfl, hprivs⟩
    · have htwo : intArg (args 1) = 2 := by
        rw [hmode]
        cases cpu <;> rfl
      rw [kernelSetSeccomp_filter hmode hfree hprivs' hprogram hfilter, htwo]
      exact ⟨_, rfl, haction, rfl, hprivs⟩
  · have hgetSeccomp := ((hcall.resolve_left hget).resolve_left hset).resolve_left hsetSeccomp
    rw [if_neg hsetSeccomp, if_neg hsetSeccomp, if_pos hgetSeccomp, ← hsecomp]
    refine ⟨g, ?_, haction, hsecomp, hprivs⟩
    split
    · rfl
    · rfl

/-- So does an `rt_sigaction`, and the action that it sets is known as the kernel lays it out. -/
theorem handleSvcerHookerCallback_rtSigaction {args : Fin 6 → cpu.Word}
    (hcall : Intercepted (.rtSigaction args : HookedCall cpu))
    (hmeets : Meets rules (.rtSigaction args) known d mem) (h : Mirrors rules known g d) :
    ∃ g', handleSvcerHookerCallback rules.libcSize (.rtSigaction args) g mem =
        (.returns (kernelPerform rules (.rtSigaction args) d mem).1, g',
          (kernelPerform rules (.rtSigaction args) d mem).2.2) ∧
      Mirrors rules (known ∨ SetsAction (.rtSigaction args)) g'
        (kernelPerform rules (.rtSigaction args) d mem).2.1 := by
  obtain ⟨haction, hsecomp, hprivs⟩ := h
  obtain ⟨-, -, hsize, hold', hnew'⟩ := hmeets
  have hsig : intArg (args 0) = sigsys := hcall
  have hmem : (if (args 2).toNat ≠ 0 then getSigaction g mem (args 2).toNat else mem) =
      if (args 2).toNat ≠ 0 then splice mem (args 2).toNat d.action else mem := by
    by_cases hold : (args 2).toNat = 0
    · rw [if_neg (not_not_intro hold), if_neg (not_not_intro hold)]
    · obtain ⟨hknown, hroom⟩ := hold' hold
      rw [if_pos hold, if_pos hold, getSigaction, haction hknown, hroom]
  unfold handleSvcerHookerCallback kernelPerform
  dsimp only
  rw [if_neg (not_not_intro hsig), if_neg (not_not_intro hsize), hmem]
  refine ⟨_, rfl, ?_⟩
  by_cases hnew : (args 1).toNat = 0
  · rw [if_neg (not_not_intro hnew), if_neg (not_not_intro hnew)]
    refine ⟨fun hknown => haction (hknown.resolve_right ?_), hsecomp, hprivs⟩
    exact fun hsets => hsets hnew
  · obtain ⟨hkept, hsanitized⟩ := hnew' hnew
    rw [if_pos hnew, if_pos hnew]
    refine ⟨fun _ => ?_, hsecomp, hprivs⟩
    -- What is read behind the old action is the beginning of the new one.
    have hread : block (if (args 2).toNat ≠ 0 then splice mem (args 2).toNat d.action else mem)
        (args 1).toNat rules.actionSize = block mem (args 1).toNat rules.actionSize := by
      by_cases hold : (args 2).toNat = 0
      · rw [if_neg (not_not_intro hold)]
      · rw [if_pos hold, hkept hold]
    change block _ (args 1).toNat rules.libcSize = (rules.sanitize _).take rules.libcSize
    rw [hsanitized, ← hread, take_block, Nat.min_eq_left rules.libcSize_le]

/-- A call that meets the condition is answered as by the kernel, and keeps the copy. -/
theorem handleSvcerHookerCallback_mirrors {call : HookedCall cpu} (hcall : Intercepted call)
    (hmeets : Meets rules call known d mem) (h : Mirrors rules known g d) :
    ∃ value g', handleSvcerHookerCallback rules.libcSize call g mem =
        (.returns value, g', (kernelAnswer rules call d mem).2.2) ∧
      (kernelAnswer rules call d mem).1 = some value ∧
      Mirrors rules (known ∨ SetsAction call) g' (kernelAnswer rules call d mem).2.1 := by
  have hanswer : kernelAnswer rules call d mem =
      (some (kernelPerform rules call d mem).1, (kernelPerform rules call d mem).2.1,
        (kernelPerform rules call d mem).2.2) := by
    rw [kernelAnswer, if_neg hmeets.1, hmeets.2.1]
  rw [hanswer]
  cases call with
  | prctl args =>
    obtain ⟨g', hrun, hmirrors⟩ := handleSvcerHookerCallback_prctl rules.libcSize hcall hmeets h
    refine ⟨_, g', hrun, rfl, ?_⟩
    rwa [SetsAction, or_false]
  | rtSigaction args =>
    obtain ⟨g', hrun, hmirrors⟩ := handleSvcerHookerCallback_rtSigaction hcall hmeets h
    exact ⟨_, g', hrun, rfl, hmirrors⟩

end Step

section Runs

variable {cpu : Cpu} (rules : Rules cpu)

/-- No intercepted call is given to the kernel, in any run. -/
theorem hookRun_returns (events : List (HookEvent cpu)) (h : InterceptedAll events)
    (g : Globals) (mem : ProcessMemory) :
    Answer.doSyscall ∉ (hookRun rules events g mem).1 := by
  induction events generalizing g mem with
  | nil => exact List.not_mem_nil
  | cons event rest ih =>
    have hrest : InterceptedAll rest := fun call hcall => h call (List.mem_cons_of_mem _ hcall)
    cases event with
    | write mem' => exact ih hrest g mem'
    | call call =>
      obtain ⟨value, hvalue⟩ := @handleSvcerHookerCallback_returns _ rules.libcSize call
        (h call (List.mem_cons_self ..)) g mem
      unfold hookRun
      dsimp only
      rw [hvalue, List.mem_cons, not_or]
      exact ⟨by simp, ih hrest _ _⟩

/-- From a copy on, the values and the memory are those of the kernel. -/
theorem hookRun_of_mirrors (events : List (HookEvent cpu)) {known : Prop} {g : Globals}
    {d : Disposition cpu} (mem : ProcessMemory) (h : Mirrors rules known g d)
    (hmeets : MeetsAll rules events known d mem) :
    (hookRun rules events g mem).1.map Answer.value = (kernelRun rules events d mem).1 ∧
      (hookRun rules events g mem).2 = (kernelRun rules events d mem).2 := by
  induction events generalizing known g d mem with
  | nil => exact ⟨rfl, rfl⟩
  | cons event rest ih =>
    cases event with
    | write mem' => exact ih mem' h hmeets
    | call call =>
      obtain ⟨hcall, hcallMeets, hrest⟩ := hmeets
      obtain ⟨value, g', hrun, hvalue, hg'⟩ := handleSvcerHookerCallback_mirrors hcall hcallMeets h
      obtain ⟨hreplies, hmem⟩ := ih _ hg' hrest
      unfold hookRun kernelRun
      rw [hrun]
      dsimp only
      rw [hvalue]
      exact ⟨congrArg (some value :: ·) hreplies, hmem⟩

end Runs

/-- In every run of intercepted calls none is given to the kernel; if all of them meet the condition
and the process could gain privileges, it sees what the kernel would answer. -/
theorem hookRun_virtualizes {cpu : Cpu} (rules : Rules cpu) (events : List (HookEvent cpu))
    (d : Disposition cpu) (mem : ProcessMemory) (hintercepted : InterceptedAll events) :
    Answer.doSyscall ∉ (hookRun rules events (.start rules d) mem).1 ∧
      (d.noNewPrivs = 0 → MeetsAll rules events (SameLayout rules d.action) d mem →
        (hookRun rules events (.start rules d) mem).1.map Answer.value =
            (kernelRun rules events d mem).1 ∧
          (hookRun rules events (.start rules d) mem).2 = (kernelRun rules events d mem).2) :=
  ⟨hookRun_returns rules events hintercepted _ mem, fun hprivs hmeets =>
    hookRun_of_mirrors rules events mem (mirrors_start hprivs) hmeets⟩

/-- An action of the 64-bit kernel in the order of libc: the flags, the handler, the mask and the
restorer. -/
def libcAction64 (action : List Byte) : List Byte :=
  (List.range 32).map fun i =>
    if i < 4 then action.getD (i + 8) 0
    else if i < 8 then 0
    else if i < 16 then action.getD (i - 8) 0
    else if i < 24 then action.getD (i + 8) 0
    else action.getD (i - 8) 0

/-- A 64-bit kernel that takes everything. -/
def takesAll : Rules .arm64 where
  actionSize := 32
  libcSize := 32
  libcSize_le := le_rfl
  libcAction := libcAction64
  libcAction_length _ := by rw [libcAction64, List.length_map, List.length_range]
  sanitize := id
  privileged := false
  programError _ _ := none
  filterError _ _ := none
  filtered _ _ := none

/-- A process with the default action and a filter. -/
def defaultDisposition : Disposition .arm64 := ⟨List.replicate 32 0, 2, [], 0⟩

/-- `rt_sigaction` of `SIGSYS`. -/
def sigactionCall (newAction oldAction : BitVec 64) : HookedCall .arm64 :=
  .rtSigaction fun i => [31, newAction, oldAction, 8].getD i 0

/-- Calls of `rt_sigaction` of `SIGSYS` are intercepted. -/
theorem interceptedAll_sigactionCall (calls : List (BitVec 64 × BitVec 64)) :
    InterceptedAll (calls.map fun call => .call (sigactionCall call.1 call.2)) := by
  intro call hcall
  obtain ⟨call', -, heq⟩ := List.mem_map.mp hcall
  obtain rfl := HookEvent.call.inj heq
  exact (by decide : @intArg .arm64 31 = sigsys)

/-- A new action in a buffer of its own is read back later. -/
theorem hookRun_virtualizes_ownBuffer :
    (hookRun takesAll [.call (sigactionCall 64 0), .call (sigactionCall 0 128)]
      (.start takesAll defaultDisposition) fun _ => 1).2 128 = 1 := by
  have hsig : @intArg .arm64 31 = sigsys := by decide
  have hrun := ((hookRun_virtualizes takesAll
    [.call (sigactionCall 64 0), .call (sigactionCall 0 128)] defaultDisposition (fun _ => 1)
    (interceptedAll_sigactionCall [(64, 0), (0, 128)])).2 rfl
    ⟨hsig, ⟨by decide, rfl, rfl, fun h => absurd rfl h, fun _ => ⟨fun h => absurd rfl h, rfl⟩⟩,
      hsig, ⟨by decide, rfl, rfl, fun _ => ⟨.inr (show (64 : BitVec 64).toNat ≠ 0 by decide), rfl⟩,
      fun h => absurd rfl h⟩, trivial⟩).2
  rw [hrun]
  decide +kernel

/-- With one buffer for both actions the new one is lost. -/
theorem sameBuffer_lost :
    ¬∀ (events : List (HookEvent .arm64)) (d : Disposition .arm64) (mem : ProcessMemory),
      InterceptedAll events → d.noNewPrivs = 0 → SameLayout takesAll d.action →
        (hookRun takesAll events (.start takesAll d) mem).1.map Answer.value =
            (kernelRun takesAll events d mem).1 ∧
          (hookRun takesAll events (.start takesAll d) mem).2 =
            (kernelRun takesAll events d mem).2 := by
  intro h
  have hrun := (h [.call (sigactionCall 64 64), .call (sigactionCall 0 128)] defaultDisposition
    (fun _ => 1) (interceptedAll_sigactionCall [(64, 64), (0, 128)]) rfl
    (by unfold SameLayout; decide)).2
  have hmem := congrFun hrun 128
  revert hmem
  decide +kernel

end Abyss.Svcer
