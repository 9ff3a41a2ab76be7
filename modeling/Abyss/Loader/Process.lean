import Abyss.Loader.Performed
import Mathlib.Logic.Function.Basic

/-!
# What the actions of the loader do to a process

The kernel gives the actions of the loader their meaning: a file that is opened is found by its
descriptor, a mapping of it shows its bytes at the addresses of the mapping, and memory is cleared
where it can be written. The loader performs the mappings of a script as the pages of the process.
-/

namespace Abyss.Loader

open Machine Bytes
open Abyss.Execve (AddressSpace Mapping Loads LoadsAll loadsAll_nil_iff loadsAll_cons_iff mmapOffsetShift
  mapAnonymous mapPrivate mapFixed)

/-! ## The kernel -/

/-- The memory of a process, and the content of the files that it has opened. -/
structure Process (cpu : Cpu) extends AddressSpace cpu where
  files : cpu.Word → Option (List Byte)

/-- What the kernel knows: the content of the files, the size of a page, and where the stack of the
process is. -/
structure Platform where
  file : Text → Option (List Byte)
  pageSize : ℕ
  stack : ℕ → Prop

/-- The number of the syscall that opens a file. -/
def openNumber : Cpu → ℕ
  | .armEabi => 5
  | .arm64 => 56

/-- The arguments of the syscall that opens a file. -/
def openArgs : (cpu : Cpu) → cpu.Word → List cpu.Word
  | .armEabi, address => [address, 0, 0]
  | .arm64, address => [-100, address, 0, 0]

section Kernel

variable {cpu : Cpu} (platform : Platform)

/-- `open` and `openat`; the path is read from the memory of the process. -/
def Platform.Opens (answer : cpu.Word) (args : List cpu.Word) (p p' : Process cpu) : Prop :=
  if isNegative answer then p' = p
  else
    ∃ address path file, args = openArgs cpu address ∧
      TextAt p.space.content address.toNat path ∧ platform.file path = some file ∧
      p' = { p with files := Function.update p.files answer (some file) }

/-- `mmap` at a fixed address, which is the answer unless it fails. -/
def Platform.Mmaps (answer : cpu.Word) : List cpu.Word → Process cpu → Process cpu → Prop
  | [addr, length, prot, flags, fd, offset], p, p' =>
    if answer ≠ addr then p' = p
    else if flags &&& BitVec.ofNat _ mapAnonymous ≠ 0 then
      p' = { p with toAddressSpace := p.mmapAnonymous addr.toNat length.toNat prot }
    else
      ∃ file, p.files fd = some file ∧
        p' = { p with
          toAddressSpace := p.mmapFile platform.pageSize file addr.toNat length.toNat prot
            (offset.toNat <<< mmapOffsetShift cpu) }
  | _, p, p' => p' = p

/-- What an action does, without a fault. The executable stack is protected anew. -/
def Platform.Does (answer : cpu.Word) : Action cpu → Process cpu → Process cpu → Prop
  | .clear start bound, p, p' =>
    (∀ a, InRange start bound a ∨ Overrun start bound a → p.Writable a) ∧
      p' = { p with toAddressSpace := p.clear start bound }
  | .syscall number args, p, p' =>
    if number = (syscallNumbers cpu).mmap then platform.Mmaps answer args p p'
    else if number = openNumber cpu then platform.Opens answer args p p'
    else if number = (syscallNumbers cpu).close then
      p' = { p with files := fun fd => if args.head? = some fd then none else p.files fd }
    else if number = (syscallNumbers cpu).mprotect then
      ∃ prot, (∀ a, ¬platform.stack a → prot a = p.prot a) ∧ p' = { p with prot }
    else p' = p

/-- What some actions do after those that are done. -/
def Platform.Runs (sys : System cpu) :
    List (Action cpu) → List (Action cpu) → Process cpu → Process cpu → Prop
  | _, [], p, p' => p' = p
  | done, action :: rest, p, p' =>
    ∃ q, platform.Does (sys (done ++ [action])) action p q ∧
      Platform.Runs sys (done ++ [action]) rest q p'

/-- The kernel does what the loader asks for. -/
structure Grants (sys : System cpu) : Prop where
  opens : ∀ done args, isNegative (sys (done ++ [.syscall (openNumber cpu) args])) = false
  closes : ∀ done args,
    isNegative (sys (done ++ [.syscall (syscallNumbers cpu).close args])) = false
  mmaps : ∀ done addr args,
    sys (done ++ [.syscall (syscallNumbers cpu).mmap (addr :: args)]) = addr

end Kernel

section Runs

variable {cpu : Cpu} {platform : Platform} {sys : System cpu} {done : List (Action cpu)}
  {p p' : Process cpu}

/-- Two lists of actions are run one after the other. -/
theorem runs_append (actions rest : List (Action cpu)) :
    platform.Runs sys done (actions ++ rest) p p' ↔
      ∃ q, platform.Runs sys done actions p q ∧ platform.Runs sys (done ++ actions) rest q p' := by
  induction actions generalizing done p with
  | nil => simp [Platform.Runs]
  | cons action actions ih =>
    rw [List.cons_append, Platform.Runs]
    simp only [ih, Platform.Runs, List.append_assoc, List.singleton_append]
    constructor
    · rintro ⟨q, hdoes, r, hruns, hrest⟩
      exact ⟨r, ⟨q, hdoes, hruns⟩, hrest⟩
    · rintro ⟨r, ⟨q, hdoes, hruns⟩, hrest⟩
      exact ⟨q, hdoes, r, hruns, hrest⟩

end Runs

/-! ## Mappings -/

section Mappings

variable {m : Mode}

/-- The variables after a mapping; the first mapping of a file tells its base address. -/
def Locals.after (l : Locals m.program) (mapping : Mapping m.cpu) : Locals m.program :=
  if isAnonymous mapping = false ∧ l.resetAtBase then
    { l with atBase := narrow m mapping.addr, resetAtBase := false }
  else l

variable {sys : System m.program} {mem : ℕ → Byte} {done : List (Action m.program)}

variable {platform : Platform} {file : List Byte} {p p' : Process m.program}

end Mappings

/-! ## Files -/

section Files

variable {cpu : Cpu} {sys : System cpu} {mem : ℕ → Byte} {done : List (Action cpu)}
  {platform : Platform} {p p' : Process cpu}

/-- A string tells where it ends. -/
theorem TextAt.unique {a : ℕ} {path path' : Text} (h : TextAt mem a path) (h' : TextAt mem a path') :
    path = path' := by
  obtain ⟨s, hs⟩ := path
  obtain ⟨s', hs'⟩ := path'
  unfold TextAt Text.terminated at h h'
  apply Subtype.ext
  dsimp only at h h' ⊢
  induction s generalizing s' a with
  | nil =>
    cases s' with
    | nil => rfl
    | cons c rest => exact absurd (List.mem_cons.mpr (Or.inl (h.1.symm.trans h'.1))) hs'
  | cons c rest ih =>
    cases s' with
    | nil => exact absurd (List.mem_cons.mpr (Or.inl (h'.1.symm.trans h.1))) hs
    | cons c' rest' =>
      rw [List.mem_cons, not_or] at hs hs'
      rw [← h.1, ← h'.1, ih hs.2 h.2 rest' hs'.2 h'.2]

/-- An action that leaves the memory as it is. -/
def Action.Quiet (platform : Platform) (sys : System cpu) (action : Action cpu) : Prop :=
  ∀ done p, (∃ p', platform.Does (sys (done ++ [action])) action p p') ∧
    ∀ p', platform.Does (sys (done ++ [action])) action p p' →
      p'.space = p.space ∧ ∀ a, ¬platform.stack a → p'.prot a = p.prot a

end Files

end Abyss.Loader
