import Abyss.Syscall.Cancelled
import Abyss.Syscall.StackAllocation
import Abyss.Syscall.Sysarg
import Abyss.Tracee.MemFrame

/-!
# Arguments that the user replaces

At the entry of a syscall the user may look at the strings and at the other data its arguments point
to, and may replace them: the new data are copied to the stack of the tracee, and the argument is
made to point there. The blocks of all calls lie below one another, between the stack pointer of the
entry and the current one, and nothing else of the memory is written; a call that fails may leave
a hole, but it does not touch the other blocks.

So the syscall is executed with all arguments that were replaced, the others and its number are those
of the entry, and a string that was set reads back as it was given.
-/

namespace Abyss

open Machine Bytes

/-- The registers of the arguments. -/
def sysargs : List Reg := [.sysarg1, .sysarg2, .sysarg3, .sysarg4, .sysarg5, .sysarg6]

/-- A string, which has no terminator in it. -/
structure Text where
  bytes : List Byte
  nonzero : ∀ b ∈ bytes, b ≠ 0

/-- A string with its terminator. -/
def Text.terminated (text : Text) : List Byte := text.bytes ++ [0]

/-- The cached registers and the memory of a tracee. -/
structure Stopped where
  regs : Regs
  memory : Memory

/-- A program of the user. -/
abbrev StoppedProg (α : Type) := Machine Stopped MemoryFault α

/-- What the user asks for; a buffer to read into is given with its size. -/
inductive ArgCall where
  | getStr (dest : List Byte) (reg : Reg)
  | getData (dest : List Byte) (reg : Reg)
  | setStr (text : Text) (reg : Reg)
  | setData (data : List Byte) (reg : Reg)
  | poke (reg : Reg) (value : ℕ)

section Programs

variable (t : Target) (m : Mode) (k : Kernel)

/-- Run a program on the memory. -/
def onMemory {α : Type} (x : MemoryProg α) : StoppedProg α := fun w =>
  ((x w.memory).1, { w with memory := (x w.memory).2 })

/-- Allocate memory on the stack of the tracee. -/
def allocate (size : ℕ) : StoppedProg ℕ := fun w =>
  (.ok (allocMem t m w.regs (ssizeT t size)).1,
    { w with regs := (allocMem t m w.regs (ssizeT t size)).2 })

/-- `syscall_set_sysarg_data`. -/
def syscallSetSysargData (data : List Byte) (reg : Reg) : StoppedProg ℤ := do
  let traceePtr ← allocate t m data.length
  if traceePtr = 0 then pure (-efault)
  else do
    let status ← onMemory (writeData k m.cpu traceePtr data)
    if status < 0 then pure status
    else do
      modify fun w => { w with regs := pokeReg m w.regs reg traceePtr }
      pure 0

/-- `syscall_set_sysarg_str`. -/
def syscallSetSysargStr (text : Text) (reg : Reg) : StoppedProg ℤ :=
  syscallSetSysargData t m k text.terminated reg

/-- `syscall_get_sysarg_data`. -/
def syscallGetSysargData (regs : Regs) (maxSize : ℕ) (reg : Reg) : MemoryProg ℤ := do
  let src := peekReg m regs .current reg
  if src = 0 then pure 0 else readData k m.cpu src maxSize

/-- Read into a buffer of the user. -/
def readInto (dest : List Byte) (x : MemoryProg ℤ) : MemoryProg ℤ := do
  modify fun s => { s with buffer := dest }
  x

/-- A call of the user. -/
def ArgCall.run : ArgCall → StoppedProg ℤ
  | .getStr dest reg => do
    let w ← read
    onMemory (readInto dest (syscallGetSysargStr k m w.regs dest.length reg))
  | .getData dest reg => do
    let w ← read
    onMemory (readInto dest (syscallGetSysargData m k w.regs dest.length reg))
  | .setStr text reg => syscallSetSysargStr t m k text reg
  | .setData data reg => syscallSetSysargData t m k data reg
  | .poke reg value => do
    modify fun w => { w with regs := pokeReg m w.regs reg value }
    pure 0

/-- The calls of the user one after the other, with the status of each. -/
def runCalls : List ArgCall → StoppedProg (List (ArgCall × ℤ))
  | [] => pure []
  | call :: rest => do
    let status ← call.run t m k
    let done ← runCalls rest
    pure ((call, status) :: done)

end Programs

/-! ## What is meant -/

/-- What an argument is after some calls: that of the entry, a value, or a pointer to a block. -/
inductive Argument where
  | entry
  | poked (value : ℕ)
  | block (data : List Byte)

/-- A call that succeeds decides what its argument is. -/
def Argument.after (reg : Reg) (a : Argument) : ArgCall × ℤ → Argument
  | (.setStr text r, status) => if r = reg ∧ status = 0 then .block text.terminated else a
  | (.setData data r, status) => if r = reg ∧ status = 0 then .block data else a
  | (.poke r value, _) => if r = reg then .poked value else a
  | _ => a

/-- What an argument is after all calls. -/
def argumentAfter (reg : Reg) (done : List (ArgCall × ℤ)) : Argument :=
  done.foldl (Argument.after reg) .entry

/-- A register of a given size holds what the argument is; the blocks are in a range of the memory. -/
def Argument.Holds (k : Kernel) (bits entry low high : ℕ) (bytes : ℕ → Byte) (word : ℕ) :
    Argument → Prop
  | .entry => word = entry
  | .poked value => word = value % 2 ^ bits
  | .block data => 0 < word ∧ low ≤ word ∧ word + data.length ≤ high ∧
      k.Grants word data.length ∧ Bytes.block bytes word data.length = data

/-- The argument of a call. -/
def ArgCall.reg : ArgCall → Reg
  | .getStr _ reg | .getData _ reg | .setStr _ reg | .setData _ reg | .poke reg _ => reg

/-- The size of the data that are set. -/
def ArgCall.size : ArgCall → ℕ
  | .setStr text _ => text.terminated.length
  | .setData data _ => data.length
  | _ => 0

/-- A call is about an argument, and the data it sets are smaller than half of the address space. -/
def ArgCall.Fits (t : Target) (call : ArgCall) : Prop :=
  call.reg ∈ sysargs ∧ FitsSsize t call.size

/-! ## One call -/

section Allocate

variable {t : Target} {isAarch32 : Bool} {size : ℕ}

/-- A block that is not refused lies below the stack pointer, however this is aligned. -/
theorem blockAddress_below {stackPointer : ℕ} (hword : stackPointer < 2 ^ t.wordBits)
    (hfits : FitsSsize t size) (hnot : ¬Refused t stackPointer size) :
    0 < blockAddress t stackPointer size ∧ blockAddress t stackPointer size < stackPointer ∧
      blockAddress t stackPointer size + size ≤ stackPointer := by
  obtain ⟨rounded, hrounded, -, hle, hpos, hhalf⟩ := roundedSize_fits hfits
  unfold Refused refusesSize at hnot
  unfold blockAddress
  rw [hrounded] at hnot ⊢
  unfold toWord at *
  rcases wordBits_eq t with hbits | hbits
  all_goals
    simp only [hbits] at *
    norm_num at *
    omega

/-- An allocation is refused, or the stack pointer moves down to a block. -/
theorem allocMem_outcome (regs : Regs) (hfits : FitsSsize t size) :
    allocMem t (modeOf t isAarch32) regs (ssizeT t size) = (0, regs) ∨
      ∃ a, allocMem t (modeOf t isAarch32) regs (ssizeT t size) =
          (a, pokeReg (modeOf t isAarch32) regs .stackPointer a) ∧
        0 < a ∧ a < stackPointerOf t isAarch32 regs .current ∧
        a + size ≤ stackPointerOf t isAarch32 regs .current := by
  by_cases hrefused : Refused t (stackPointerOf t isAarch32 regs .current) size
  · exact Or.inl (allocMem_refused hrefused)
  · exact Or.inr ⟨_, allocMem_block hrefused,
      blockAddress_below (stackPointerOf_lt_word _) hfits hrefused⟩

/-- A size that can be rounded up is that of a transfer. -/
theorem FitsSsize.transfers (h : FitsSsize t size) :
    size < 2 ^ ((modeOf t isAarch32).cpu.wordBits - 1) := by
  have hbits : (modeOf t isAarch32).cpu.wordBits = t.wordBits := rfl
  rw [hbits]
  unfold FitsSsize at h
  omega

end Allocate

/-! ## The calls of a stage -/

/-- The registers of two arguments are apart. -/
theorem sysargs_apart (m : Mode) :
    ∀ reg ∈ sysargs, ∀ reg' ∈ sysargs, reg ≠ reg' → m.Apart reg reg' := by
  rcases m with ⟨_ | _, _ | _⟩ <;> decide

/-- None of them is the stack pointer. -/
theorem sysargs_ne_stackPointer {reg : Reg} (h : reg ∈ sysargs) : reg ≠ .stackPointer := by
  rintro rfl
  exact absurd h (by decide)

/-- What an argument is stays true of a larger range in which its block has not changed. -/
theorem Argument.Holds.mono {a : Argument} {k : Kernel} {bits entry low low' high word : ℕ}
    {bytes bytes' : ℕ → Byte} (h : a.Holds k bits entry low high bytes word) (hlow : low' ≤ low)
    (hbytes : ∀ x, low ≤ x → x < high → bytes' x = bytes x) :
    a.Holds k bits entry low' high bytes' word := by
  cases a with
  | entry => exact h
  | poked value => exact h
  | block data =>
    obtain ⟨hpos, hstart, hend, hgrants, hdata⟩ := h
    refine ⟨hpos, hlow.trans hstart, hend, hgrants, ?_⟩
    rw [← hdata]
    apply List.ext_getElem (by simp)
    intro j hj _
    rw [block_length, block_length] at hj
    rw [block_getElem, block_getElem]
    exact hbytes _ (by omega) (by omega)

section Calls

variable (t : Target) (isAarch32 : Bool) (k : Kernel)

/-- What the calls since `entry` have done: the stack pointer has moved down, nothing but the memory
that it has passed was written, and the arguments are as they are meant to be. -/
structure Replaced (entry w : Stopped) (args : Reg → Argument) : Prop where
  stack : stackPointerOf t isAarch32 w.regs .current ≤ stackPointerOf t isAarch32 entry.regs .current
  memory : ∀ x, x < stackPointerOf t isAarch32 w.regs .current ∨
    stackPointerOf t isAarch32 entry.regs .current ≤ x → w.memory.bytes x = entry.memory.bytes x
  arguments : ∀ reg ∈ sysargs, (args reg).Holds k (modeOf t isAarch32).bits
    (peekReg (modeOf t isAarch32) entry.regs .current reg)
    (stackPointerOf t isAarch32 w.regs .current) (stackPointerOf t isAarch32 entry.regs .current)
    w.memory.bytes (peekReg (modeOf t isAarch32) w.regs .current reg)
  others : ∀ reg, reg ≠ .stackPointer → (∀ arg ∈ sysargs, (modeOf t isAarch32).Apart arg reg) →
    peekReg (modeOf t isAarch32) w.regs .current reg =
      peekReg (modeOf t isAarch32) entry.regs .current reg

variable {t isAarch32 k} {entry w : Stopped} {args : Reg → Argument} {reg : Reg}

/-- Nothing is replaced at first. -/
theorem Replaced.refl : Replaced t isAarch32 k entry entry fun _ => .entry :=
  ⟨le_rfl, fun _ _ => rfl, fun _ _ => rfl, fun _ _ _ => rfl⟩

/-- The memory of the tracee is the same after a read. -/
theorem Replaced.read (h : Replaced t isAarch32 k entry w args) {s : Memory}
    (hbytes : s.bytes = w.memory.bytes) :
    Replaced t isAarch32 k entry { w with memory := s } args := by
  refine ⟨h.stack, fun x hx => ?_, fun reg hreg => ?_, h.others⟩
  · rw [hbytes]
    exact h.memory x hx
  · rw [hbytes]
    exact h.arguments reg hreg

/-- The stack pointer moves down, and the memory that it passes may be written. -/
theorem Replaced.move (h : Replaced t isAarch32 k entry w args) {a : ℕ} {s : Memory}
    (hlt : a < stackPointerOf t isAarch32 w.regs .current)
    (hbytes : ∀ x, x < a ∨ stackPointerOf t isAarch32 w.regs .current ≤ x →
      s.bytes x = w.memory.bytes x) :
    Replaced t isAarch32 k entry
      ⟨pokeReg (modeOf t isAarch32) w.regs .stackPointer a, s⟩ args := by
  have hmoved : stackPointerOf t isAarch32
      (pokeReg (modeOf t isAarch32) w.regs .stackPointer a) .current = a :=
    peekReg_pokeReg_same _ _ (hlt.trans (stackPointerOf_lt _))
  have hstack := h.stack
  constructor
  all_goals dsimp only
  · omega
  · intro x hx
    rw [hmoved] at hx
    exact (hbytes x (by omega)).trans (h.memory x (by omega))
  · intro reg hreg
    have hother := (stackPointer_apart (modeOf t isAarch32) (sysargs_ne_stackPointer hreg)).symm
    rw [hmoved, peekReg_pokeReg_other _ _ hother]
    exact (h.arguments reg hreg).mono hlt.le fun x hx _ => hbytes x (Or.inr hx)
  · intro reg hreg hapart
    rw [peekReg_pokeReg_other _ _ (stackPointer_apart _ hreg).symm]
    exact h.others reg hreg hapart

/-- An argument is set. -/
theorem Replaced.set (h : Replaced t isAarch32 k entry w args) (hreg : reg ∈ sysargs) {value : ℕ}
    {a : Argument}
    (hholds : a.Holds k (modeOf t isAarch32).bits
      (peekReg (modeOf t isAarch32) entry.regs .current reg)
      (stackPointerOf t isAarch32 w.regs .current) (stackPointerOf t isAarch32 entry.regs .current)
      w.memory.bytes (value % 2 ^ (modeOf t isAarch32).bits)) :
    Replaced t isAarch32 k entry { w with regs := pokeReg (modeOf t isAarch32) w.regs reg value }
      fun r => if reg = r then a else args r := by
  have hsame : stackPointerOf t isAarch32
      (pokeReg (modeOf t isAarch32) w.regs reg value) .current =
      stackPointerOf t isAarch32 w.regs .current :=
    peekReg_pokeReg_other _ _ (stackPointer_apart _ (sysargs_ne_stackPointer hreg))
  constructor
  all_goals dsimp only
  · rw [hsame]
    exact h.stack
  · intro x hx
    rw [hsame] at hx
    exact h.memory x hx
  · intro r hr
    rw [hsame]
    by_cases heq : reg = r
    · subst heq
      rw [if_pos rfl, peekReg_pokeReg_mod]
      exact hholds
    · rw [if_neg heq, peekReg_pokeReg_other _ _ (sysargs_apart _ reg hreg r hr heq)]
      exact h.arguments r hr
  · intro r hr hapart
    rw [peekReg_pokeReg_other _ _ (hapart reg hreg)]
    exact h.others r hr hapart

/-- What is done to the memory is done to that of the tracee. -/
theorem onMemory_ok {α : Type} {x : MemoryProg α} {a : α} {s : Memory}
    (h : x w.memory = (.ok a, s)) : onMemory x w = (.ok a, { w with memory := s }) := by
  unfold onMemory
  rw [h]

/-- A block of data is copied to the stack and the argument points to it, or the call fails and the
arguments are what they were. -/
theorem Replaced.setData (h : Replaced t isAarch32 k entry w args) {data : List Byte}
    (hreg : reg ∈ sysargs) (hfits : FitsSsize t data.length) :
    ∃ status w', syscallSetSysargData t (modeOf t isAarch32) k data reg w = (.ok status, w') ∧
      Replaced t isAarch32 k entry w'
        fun r => if reg = r ∧ status = 0 then .block data else args r := by
  have hfailed : (fun r => if reg = r ∧ -(efault : ℤ) = 0 then .block data else args r) = args := by
    funext r
    exact if_neg fun hstatus => absurd hstatus.2 (by decide)
  unfold syscallSetSysargData
  rcases allocMem_outcome w.regs hfits with hnone | ⟨a, halloc, hpos, hlt, hend⟩
  · refine ⟨-efault, w, ?_, by rwa [hfailed]⟩
    have hrun : allocate t (modeOf t isAarch32) data.length w = (.ok 0, w) := by
      unfold allocate
      rw [hnone]
    rw [bind_apply_ok hrun]
    rfl
  · have hrun : allocate t (modeOf t isAarch32) data.length w =
        (.ok a, { w with regs := pokeReg (modeOf t isAarch32) w.regs .stackPointer a }) := by
      unfold allocate
      rw [halloc]
    obtain ⟨status, s, hwrite, houtside, hstatus⟩ :=
      @writeData_outcome (modeOf t isAarch32).cpu data k w.memory a hfits.transfers
    have hmoved := h.move (s := s) hlt fun x hx => houtside.bytes x (by omega)
    have hwritten := onMemory_ok (w :=
      ⟨pokeReg (modeOf t isAarch32) w.regs .stackPointer a, w.memory⟩) hwrite
    rw [bind_apply_ok hrun, if_neg hpos.ne', bind_apply_ok hwritten]
    rcases hstatus with rfl | ⟨rfl, hgrants, hbytes⟩
    · rw [if_pos (by decide)]
      exact ⟨_, _, rfl, by rwa [hfailed]⟩
    · rw [if_neg (lt_irrefl 0)]
      refine ⟨_, _, rfl, ?_⟩
      have hset := @Replaced.set t isAarch32 k entry _ args reg hmoved hreg a (.block data) ?_
      · simpa using hset
      have hword : a < 2 ^ (modeOf t isAarch32).bits := hlt.trans (stackPointerOf_lt _)
      have hlow : stackPointerOf t isAarch32
          (pokeReg (modeOf t isAarch32) w.regs .stackPointer a) .current = a :=
        peekReg_pokeReg_same _ _ hword
      rw [Nat.mod_eq_of_lt hword, hlow]
      refine ⟨hpos, le_rfl, hend.trans h.stack, hgrants, ?_⟩
      rw [hbytes]
      apply List.ext_getElem (by simp)
      intro j hj hj'
      rw [block_getElem, splice_of_mem hj']

/-- To read into a buffer keeps the bytes of the tracee. -/
theorem readInto_keepsBytes {bytes : ℕ → Byte} (dest : List Byte) {x : MemoryProg ℤ}
    (hx : KeepsBytes bytes x) : KeepsBytes bytes (readInto dest x) :=
  Keeps.bind (Keeps.modify fun _ h => h) fun _ => hx

/-- So does it to read a string that an argument points to. -/
theorem syscallGetSysargStr_keepsBytes {bytes : ℕ → Byte} (m : Mode) (regs : Regs) (maxSize : ℕ)
    (reg : Reg) : KeepsBytes bytes (syscallGetSysargStr k m regs maxSize reg) := by
  unfold syscallGetSysargStr
  apply Keeps.ite
  · intro _
    exact Keeps.bind (storeBytes_keepsBytes _ _) fun _ => Keeps.pure _
  · intro _
    apply Keeps.bind (readString_keepsBytes _ _)
    intro size
    apply Keeps.ite (fun _ => Keeps.pure _)
    intro _
    exact Keeps.bind (storeBytes_keepsBytes _ _) fun _ => Keeps.pure _

/-- So does it to read data. -/
theorem syscallGetSysargData_keepsBytes {bytes : ℕ → Byte} (m : Mode) (regs : Regs)
    (maxSize : ℕ) (reg : Reg) :
    KeepsBytes bytes (syscallGetSysargData m k regs maxSize reg) :=
  Keeps.ite (fun _ => Keeps.pure _) fun _ => readData_keepsBytes _ _

/-- A program that only reads the memory. -/
theorem Replaced.reads (h : Replaced t isAarch32 k entry w args) {x : MemoryProg ℤ}
    (hx : KeepsBytes w.memory.bytes x) {status : ℤ} {w' : Stopped}
    (hrun : onMemory x w = (.ok status, w')) : Replaced t isAarch32 k entry w' args := by
  obtain ⟨hok, rfl⟩ := Prod.mk.inj hrun
  exact h.read ((hx w.memory rfl).1 status _ (Prod.ext hok rfl))

/-- A call leaves the arguments as they are meant to be after it. -/
theorem Replaced.run (h : Replaced t isAarch32 k entry w args) {call : ArgCall}
    (hfits : call.Fits t) {status : ℤ} {w' : Stopped}
    (hrun : call.run t (modeOf t isAarch32) k w = (.ok status, w')) :
    Replaced t isAarch32 k entry w' fun reg => (args reg).after reg (call, status) := by
  obtain ⟨hreg, hsize⟩ := hfits
  cases call with
  | getStr dest reg =>
    exact h.reads (readInto_keepsBytes dest (syscallGetSysargStr_keepsBytes _ _ _ _)) hrun
  | getData dest reg =>
    exact h.reads (readInto_keepsBytes dest (syscallGetSysargData_keepsBytes _ _ _ _)) hrun
  | setStr text reg =>
    obtain ⟨status', w'', hset, hreplaced⟩ :=
      @Replaced.setData t isAarch32 k entry w args reg h text.terminated hreg hsize
    obtain ⟨hstatus, rfl⟩ := Prod.mk.inj (hset.symm.trans hrun)
    cases hstatus
    exact hreplaced
  | setData data reg =>
    obtain ⟨status', w'', hset, hreplaced⟩ := h.setData hreg hsize
    obtain ⟨hstatus, rfl⟩ := Prod.mk.inj (hset.symm.trans hrun)
    cases hstatus
    exact hreplaced
  | poke reg value =>
    obtain ⟨-, rfl⟩ := Prod.mk.inj hrun
    exact h.set (a := .poked value) hreg rfl

/-- The calls of a stage leave all arguments as they are meant to be. -/
theorem Replaced.runCalls {calls : List ArgCall} (h : Replaced t isAarch32 k entry w args)
    (hfits : ∀ call ∈ calls, call.Fits t) {done : List (ArgCall × ℤ)} {w' : Stopped}
    (hrun : runCalls t (modeOf t isAarch32) k calls w = (.ok done, w')) :
    Replaced t isAarch32 k entry w' fun reg => done.foldl (Argument.after reg) (args reg) := by
  induction calls generalizing w args done with
  | nil =>
    obtain ⟨hdone, rfl⟩ := Prod.mk.inj hrun
    cases hdone
    exact h
  | cons call rest ih =>
    rw [List.forall_mem_cons] at hfits
    obtain ⟨status, w₁, hcall, hrest⟩ := bind_ok_iff.mp hrun
    obtain ⟨later, w₂, hlater, hend⟩ := bind_ok_iff.mp hrest
    obtain ⟨hdone, rfl⟩ := Prod.mk.inj hend
    cases hdone
    exact ih (h.run hfits.1 hcall) hfits.2 hlater

end Calls

/-! ## Reading a string back -/

section ReadBack

variable {k : Kernel} {m : Mode} {regs : Regs} {reg : Reg} {s : Memory} {text : Text}
  {low high : ℕ}

/-- The bytes of a block are those of the data. -/
theorem block_eq_iff {f : ℕ → Byte} {a : ℕ} {data : List Byte} :
    Bytes.block f a data.length = data ↔ ∀ j (hj : j < data.length), f (a + j) = data[j] := by
  constructor
  · intro h j hj
    have hlen : j < (Bytes.block f a data.length).length := by rwa [block_length]
    rw [← block_getElem f a hlen]
    simp only [h]
  · intro h
    apply List.ext_getElem (by simp)
    intro j _ hj
    rw [block_getElem]
    exact h j hj

/-- A text in memory ends at its terminator. -/
theorem Text.endsAt {address : ℕ} (hgrants : k.Grants address text.terminated.length)
    (hdata : Bytes.block s.bytes address text.terminated.length = text.terminated) :
    k.EndsAt s.bytes address text.bytes.length := by
  have hlength : text.terminated.length = text.bytes.length + 1 := List.length_append
  have hbyte := block_eq_iff.mp hdata
  refine ⟨by rwa [hlength] at hgrants, ?_, fun j hj => ?_⟩
  · rw [hbyte _ (by omega)]
    simp [Text.terminated]
  · rw [hbyte j (by omega)]
    unfold Text.terminated
    rw [List.getElem_append_left hj]
    exact text.nonzero _ (List.getElem_mem hj)

/-- A string that was set reads back as it was given, unless its end is not reached. -/
theorem getString_readsBack {entry : ℕ} {dest : List Byte}
    (hholds : (Argument.block text.terminated).Holds k m.bits entry low high s.bytes
      (peekReg m regs .current reg))
    (hdest : text.bytes.length + 2 ≤ dest.length) (hint : text.bytes.length + 1 < 2 ^ 31) :
    ∃ status s', syscallGetSysargStr k m regs dest.length reg { s with buffer := dest } =
        (.ok status, s') ∧
      (k.Reaches m.cpu (peekReg m regs .current reg) text.bytes.length { s with buffer := dest } →
        status = text.terminated.length ∧
          s'.buffer.take text.terminated.length = text.terminated) ∧
      (¬k.Reaches m.cpu (peekReg m regs .current reg) text.bytes.length { s with buffer := dest } →
        status = -(efault : ℤ)) := by
  obtain ⟨hpos, -, -, hgrants, hdata⟩ := hholds
  have hlength : text.terminated.length = text.bytes.length + 1 := List.length_append
  have hends : k.EndsAt { s with buffer := dest }.bytes (peekReg m regs .current reg)
    text.bytes.length := Text.endsAt hgrants hdata
  have hlt : text.bytes.length < { s with buffer := dest }.buffer.length := by
    change _ < dest.length
    omega
  rw [syscallGetSysargStr, if_neg hpos.ne']
  by_cases hreaches : k.Reaches m.cpu (peekReg m regs .current reg) text.bytes.length
      { s with buffer := dest }
  · obtain ⟨s', ⟨hrun, hbytes, hbuffer⟩, hcopied⟩ := readString_reaches hlt hends hreaches
    have hint : intOf ↑(text.bytes.length + 1) = ((text.bytes.length + 1 : ℕ) : ℤ) := by
      simp only [intOf, Int.bmod]
      omega
    rw [hint] at hrun
    change s'.buffer.length = dest.length at hbuffer
    obtain ⟨hstore, -, -⟩ := storeTerminator (s := s') (i := text.bytes.length + 1) (by omega)
    refine ⟨_, { s' with buffer := overwrite s'.buffer (text.bytes.length + 1) [0] }, ?_,
      fun _ => ⟨congrArg Nat.cast hlength.symm, ?_⟩, fun hmisses => absurd hreaches hmisses⟩
    · rw [bind_apply_ok hrun, if_neg (by omega), Int.toNat_natCast, bind_apply_ok hstore]
      rfl
    · have hfit : text.bytes.length + 1 + [(0 : Byte)].length ≤ s'.buffer.length := by
        rw [hbuffer]
        exact hdest
      have hkept : Copied (overwrite s'.buffer (text.bytes.length + 1) [0]) s.bytes
          (peekReg m regs .current reg) (0 + (text.bytes.length + 1)) := by
        rw [Nat.zero_add]
        refine ⟨?_, fun j hj => (overwrite_of_lt hfit hj).trans (hcopied.2 j hj)⟩
        rw [overwrite_length hfit]
        exact hcopied.1
      have hblock := hkept.take_drop
      rw [List.drop_zero, Nat.add_zero (peekReg ..), ← hlength, hdata] at hblock
      rw [hlength] at hblock ⊢
      exact hblock
  · obtain ⟨s', ⟨hrun, -, -⟩⟩ := readString_misses hlt hends hreaches
    refine ⟨_, s', ?_, fun habsurd => absurd habsurd hreaches, fun _ => rfl⟩
    rw [bind_apply_ok hrun, if_pos (by decide)]
    rfl

end ReadBack

/-! ## The syscall that is executed -/

section Executed

variable {s : Setup} {handle : Ref → ℤ → Prog ℤ} {r : Ref} {w : World} {k : Kernel}

/-- The syscalls whose arguments are translated at the entry. -/
def translatedSysnums : List Sysnum := [.execve, .execveat, .ptrace, .wait4, .waitpid]

/-- The number of the syscall that a tracee enters. -/
def reportedSysnum (s : Setup) (r : Ref) (w : World) : Sysnum :=
  translateSysnum s.target ((w.heap r).mode s.target).abi
    (registerIn ((w.heap r).mode s.target) (fetchReply s r w).bank .sysargNum)

/-- The world after the user was called at the entry. -/
def calledEnter (s : Setup) (r : Ref) (w : World) : World :=
  (callOnSysenter s r (savedEnter s r w)).2

/-- The entry leaves a syscall as the user has set it: it is not translated, the path of an `openat`
can be read, and a `prctl` does not set the dumpable flag. -/
structure LeftAlone (s : Setup) (r : Ref) (w : World) : Prop where
  plain : reportedSysnum s r w ∉ translatedSysnums
  readable : reportedSysnum s r w = .openat →
    ∀ status v, sysargPath s r .sysarg2 (calledEnter s r w) = (.ok status, v) → 0 ≤ status
  permitted : reportedSysnum s r w = .prctl →
    peekReg ((w.heap r).mode s.target) (enteredRegs s r w) .current .sysarg1 ≠ prSetDumpable

/-- What the user has left when the arguments are looked at. -/
theorem calledEnter_regs (s : Setup) (r : Ref) (w : World) :
    callOnSysenter s r (savedEnter s r w) = (.ok (), calledEnter s r w) ∧
      ((calledEnter s r w).heap r).mode s.target = (w.heap r).mode s.target ∧
      ((calledEnter s r w).heap r).regs = enteredRegs s r w := by
  have hsaved : (savedEnter s r w).heap r = { w.heap r with regs := savedRegs s r w } := by
    simp [savedEnter, begunEnter, World.fetched, savedRegs]
  have hm : ((savedEnter s r w).heap r).mode s.target = (w.heap r).mode s.target := by
    rw [hsaved]
    rfl
  obtain ⟨v, hcall, hmode, hregs⟩ := callOnSysenter_regs (s := s) (r := r) (savedEnter s r w)
  have hv : calledEnter s r w = v := congrArg Prod.snd hcall
  rw [hm, hsaved] at hregs
  rw [hv]
  exact ⟨hcall, hmode.trans hm, hregs⟩

/-- A syscall that is left alone goes on with its registers as they are. -/
theorem LeftAlone.translateSyscallEnter (h : LeftAlone s r w) :
    ∃ status u, translateSyscallEnter s r (calledEnter s r w) = (.ok status, u) ∧ 0 ≤ status ∧
      (u.heap r).regs = enteredRegs s r w := by
  obtain ⟨-, hmode, hregs⟩ := calledEnter_regs s r w
  have hnumber : enteredSysnum s ((calledEnter s r w).heap r) = reportedSysnum s r w := by
    rw [enteredSysnum, getSysnum, hmode, hregs, registerIn_original enteredRegs_original]
    rfl
  have hsysnum : sysnumOf s r .original (calledEnter s r w) =
      (.ok (reportedSysnum s r w), calledEnter s r w) := by
    rw [← hnumber]
    rfl
  obtain ⟨hplain, hreadable, hpermitted⟩ := h
  unfold Abyss.translateSyscallEnter
  rw [bind_apply_ok hsysnum]
  generalize reportedSysnum s r w = number at hplain hreadable hpermitted
  split
  · exact absurd (by decide) hplain
  · exact absurd (by decide) hplain
  · exact absurd (by decide) hplain
  · exact absurd (by decide) hplain
  · exact absurd (by decide) hplain
  · unfold translateOpenatEnter
    rcases sysargPath_cases s r .sysarg2 (calledEnter s r w) with ⟨-, hrun⟩ | ⟨-, hrun⟩
    · exact ⟨_, _, hrun, hreadable rfl _ _ hrun, hregs⟩
    · exact ⟨_, _, hrun, hreadable rfl _ _ hrun, hregs⟩
  · have hflag := hpermitted rfl
    rw [← hmode, ← hregs] at hflag
    unfold translatePrctlEnter when
    rw [bind_apply_ok (peek_apply ..), if_neg hflag]
    exact ⟨0, _, rfl, le_rfl, hregs⟩
  · exact ⟨0, _, rfl, le_rfl, hregs⟩

/-- So the entry ends with the registers as the user has set them. -/
theorem LeftAlone.translateRequestedEnter (h : LeftAlone s r w) :
    ∃ status u, translateRequestedEnter s r (begunEnter s r w) = (.ok status, u) ∧ 0 ≤ status ∧
      (u.heap r).regs = saveModifiedRegs (enteredRegs s r w) := by
  obtain ⟨status, u, htranslated, hstatus, hregs⟩ := h.translateSyscallEnter
  refine ⟨status, _, ?_, hstatus, (congrArg Tracee.regs (World.update_self u r fun t =>
    { t with regs := saveModifiedRegs t.regs })).trans (congrArg saveModifiedRegs hregs)⟩
  unfold Abyss.translateRequestedEnter
  rw [bind_apply_ok (update_apply ..)]
  change (do
    callOnSysenter s r
    let status ← Abyss.translateSyscallEnter s r
    update r fun t => { t with regs := saveModifiedRegs t.regs }
    pure status : Prog ℤ) (savedEnter s r w) = _
  rw [bind_apply_ok (calledEnter_regs s r w).1, bind_apply_ok htranslated]
  rfl

/-- The kernel executes the syscall with the registers that the user has set, and with the stack
pointer of the entry where there is no exit. -/
theorem LeftAlone.translateSyscall (hentry : AtEntry s r w) (h : LeftAlone s r w) :
    (∀ reg, reg ≠ .stackPointer →
      registerIn ((w.heap r).mode s.target)
          (registerFile s (w.heap r).pid (translateSyscall s handle r w).2.calls) reg =
        peekReg ((w.heap r).mode s.target) (enteredRegs s r w) .current reg) ∧
    registerIn ((w.heap r).mode s.target)
        (registerFile s (w.heap r).pid (translateSyscall s handle r w).2.calls) .stackPointer =
      if (w.heap r).restartHow = .cont then
        registerIn ((w.heap r).mode s.target) (fetchReply s r w).bank .stackPointer
      else peekReg ((w.heap r).mode s.target) (enteredRegs s r w) .current .stackPointer := by
  obtain ⟨status, u, hrun, hstatus, hregs⟩ := h.translateRequestedEnter
  have hentering : Entering s r (w.heap r) (fetchReply s r w).bank u :=
    (translateRequestedEnter_entering _ rfl).1 _ _ hrun
  have henter : enterStage s r (w.fetched r (fetchReply s r w).bank) =
      (.ok (), u.update r (finishedEnter s status)) := by
    rw [enterStage_apply hentry, bind_apply_ok hrun, finishEnter_apply]
  have hfile : registerFile s (w.heap r).pid (Abyss.translateSyscall s handle r w).2.calls =
      (finishedEnter s status (u.heap r)).regs.current := by
    rw [translateSyscall_enter hentry henter, (hentering.finished status).pushed, World.update_self]
  have hnone : cancelledRegs s status (u.heap r) = saveModifiedRegs (enteredRegs s r w) := by
    rw [cancelledRegs, if_neg (not_lt.mpr hstatus), hregs]
  rw [hfile]
  constructor
  · intro reg hreg
    have hfinished := finishedEnter_peekReg (s := s) (t := u.heap r) (e := status) hreg
    rw [hnone, hentering.mode] at hfinished
    exact hfinished
  · by_cases hcont : (w.heap r).restartHow = .cont
    · rw [if_pos hcont]
      exact hentering.stackPointer hcont status
    · rw [if_neg hcont, finishedEnter, if_neg (by rwa [hentering.restartHow])]
      dsimp only
      rw [hnone]
      rfl

/-- The syscall is executed with what the arguments are meant to be, and otherwise with the registers
of its entry; outside of a range the memory is that of the entry. -/
structure Executes (k : Kernel) (m : Mode) (entry file : Bank) (low high : ℕ)
    (before after : ℕ → Byte) (args : Reg → Argument) : Prop where
  arguments : ∀ reg ∈ sysargs, (args reg).Holds k m.bits (registerIn m entry reg) low high after
    (registerIn m file reg)
  others : ∀ reg, reg ≠ .stackPointer → (∀ arg ∈ sysargs, m.Apart arg reg) →
    registerIn m file reg = registerIn m entry reg
  memory : ∀ x, x < low ∨ high ≤ x → after x = before x

/-- A string that was set reads back as it was given, unless its end is not reached. -/
def ReadsBack (k : Kernel) (m : Mode) (w : Stopped) (args : Reg → Argument) : Prop :=
  ∀ reg ∈ sysargs, ∀ text : Text, args reg = .block text.terminated →
    ∀ dest : List Byte, text.bytes.length + 2 ≤ dest.length → text.bytes.length + 1 < 2 ^ 31 →
      ∃ status s', syscallGetSysargStr k m w.regs dest.length reg
          { w.memory with buffer := dest } = (.ok status, s') ∧
        (k.Reaches m.cpu (peekReg m w.regs .current reg) text.bytes.length
            { w.memory with buffer := dest } →
          status = text.terminated.length ∧
            s'.buffer.take text.terminated.length = text.terminated) ∧
        (¬k.Reaches m.cpu (peekReg m w.regs .current reg) text.bytes.length
            { w.memory with buffer := dest } → status = -(efault : ℤ))

/-- Whatever the user has asked for at the entry of a syscall that is left alone otherwise, it is
executed with the arguments of the last calls that succeeded, each in a block of its own on the stack
of the tracee, and with the stack pointer of the entry where it has no exit; strings that were set
read back. -/
theorem replacedArguments_executed (hentry : AtEntry s r w)
    (halone : LeftAlone s r w) {calls : List ArgCall}
    (hfits : ∀ call ∈ calls, call.Fits s.target) {memory : Memory}
    {done : List (ArgCall × ℤ)} {w' : Stopped}
    (hrun : runCalls s.target ((w.heap r).mode s.target) k calls ⟨savedRegs s r w, memory⟩ =
      (.ok done, w'))
    (huser : enteredRegs s r w = w'.regs) :
    Executes k ((w.heap r).mode s.target) (fetchReply s r w).bank
        (registerFile s (w.heap r).pid (translateSyscall s handle r w).2.calls)
        (peekReg ((w.heap r).mode s.target) w'.regs .current .stackPointer)
        (registerIn ((w.heap r).mode s.target) (fetchReply s r w).bank .stackPointer)
        memory.bytes w'.memory.bytes (fun reg => argumentAfter reg done) ∧
      registerIn ((w.heap r).mode s.target)
          (registerFile s (w.heap r).pid (translateSyscall s handle r w).2.calls) .stackPointer =
        (if (w.heap r).restartHow = .cont then
          registerIn ((w.heap r).mode s.target) (fetchReply s r w).bank .stackPointer
        else peekReg ((w.heap r).mode s.target) w'.regs .current .stackPointer) ∧
      ReadsBack k ((w.heap r).mode s.target) w' fun reg => argumentAfter reg done := by
  have hreplaced : Replaced s.target (w.heap r).isAarch32 k ⟨savedRegs s r w, memory⟩ w'
      fun reg => argumentAfter reg done := Replaced.refl.runCalls hfits hrun
  obtain ⟨hregs, hstack⟩ := @LeftAlone.translateSyscall s handle r w hentry halone
  rw [huser] at hregs hstack
  refine ⟨⟨fun reg hreg => ?_, fun reg hreg hapart => ?_, hreplaced.memory⟩, hstack, ?_⟩
  · rw [hregs reg (sysargs_ne_stackPointer hreg)]
    exact hreplaced.arguments reg hreg
  · rw [hregs reg hreg]
    exact hreplaced.others reg hreg hapart
  · intro reg hreg text htext dest hdest hint
    have hholds := hreplaced.arguments reg hreg
    change argumentAfter reg done = _ at htext
    rw [htext] at hholds
    exact getString_readsBack hholds hdest hint

end Executed

/-! ## An `openat` of another file -/

/-- A process that is stopped at the entry of a syscall. -/
def stoppedWorld : World :=
  { World.initial with
    heap := fun _ => { pid := 5, restartHow := .syscall }, next := 1, tracees := [0] }

/-- It calls `openat`, and the user moves its stack pointer and makes the path point there. -/
def openatSetup : Setup where
  target := arm64 fun _ => .void
  host
    | .getRegs _ :: _ =>
      { bank := (Mode.mk .arm64 false).setWord (syscallBank 56 0 0x10 0 0) .stackPointer 0x800 }
    | .onSysenter .. :: _ => { pokes := [(.stackPointer, 0x7f0), (.sysarg2, 0x7f0)] }
    | _ => {}
  hasOnSysenter := true
  hasOnSysexit := false

/-- The path of the other file. -/
def otherPath : Text := ⟨[47, 120], by decide⟩

/-- The state in which the user is called, in a memory of zeros. -/
def openatEntry : Stopped :=
  ⟨savedRegs openatSetup 0 stoppedWorld, ⟨fun _ => 0, [], 0, 0⟩⟩

/-- The state once the path is set. -/
def openatReplaced : Stopped :=
  ⟨pokeReg ⟨.arm64, false⟩ (pokeReg ⟨.arm64, false⟩ openatEntry.regs .stackPointer 0x7f0) .sysarg2
      0x7f0,
    ⟨splice (fun _ => 0) 0x7f0 otherPath.terminated, [], 0, 1⟩⟩

section Openat

set_option maxRecDepth 100000

/-- The path is allocated below the stack pointer. -/
theorem openatEntry_allocates :
    allocMem openatSetup.target ⟨.arm64, false⟩ openatEntry.regs
        (ssizeT openatSetup.target otherPath.terminated.length) =
      (0x7f0, pokeReg ⟨.arm64, false⟩ openatEntry.regs .stackPointer 0x7f0) := by
  have hstack : peekReg ⟨.arm64, false⟩ openatEntry.regs .current .stackPointer = 0x800 := by
    decide +kernel
  have hblock : blockAddress openatSetup.target 0x800 otherPath.terminated.length = 0x7f0 := by
    decide +kernel
  rw [allocMem_eq ⟨.arm64, false⟩ hstack, if_neg (by decide +kernel), hblock]

/-- The path is replaced. -/
theorem openatReplaced_run :
    runCalls openatSetup.target ⟨.arm64, false⟩ onePage [.setStr otherPath .sysarg2] openatEntry =
      (.ok [(.setStr otherPath .sysarg2, 0)], openatReplaced) := by
  have halloc : allocate openatSetup.target ⟨.arm64, false⟩ otherPath.terminated.length openatEntry =
      (.ok 0x7f0, { openatEntry with
        regs := pokeReg ⟨.arm64, false⟩ openatEntry.regs .stackPointer 0x7f0 }) := by
    unfold allocate
    rw [openatEntry_allocates]
  have hwrite : writeData onePage .arm64 0x7f0 otherPath.terminated openatEntry.memory =
      (.ok 0, openatReplaced.memory) :=
    writeData_fits (by decide) (by decide) (Or.inl rfl)
  have hset : (ArgCall.setStr otherPath .sysarg2).run openatSetup.target ⟨.arm64, false⟩ onePage
      openatEntry = (.ok 0, openatReplaced) := by
    change syscallSetSysargData _ _ _ otherPath.terminated .sysarg2 openatEntry = _
    unfold syscallSetSysargData
    have hwritten := onMemory_ok (w :=
      ⟨pokeReg ⟨.arm64, false⟩ openatEntry.regs .stackPointer 0x7f0, openatEntry.memory⟩) hwrite
    rw [bind_apply_ok halloc, if_neg (by decide), bind_apply_ok hwritten, if_neg (lt_irrefl 0),
      bind_apply_ok (modify_apply ..), pure_apply]
    dsimp only [openatReplaced]
  rw [runCalls, bind_apply_ok hset]
  rfl

/-- The syscall is executed with the other path. -/
theorem replacedArguments_executed_openat :
    Executes onePage ⟨.arm64, false⟩ (fetchReply openatSetup 0 stoppedWorld).bank
      (registerFile openatSetup 5
        (translateSyscall openatSetup (fun _ _ => pure 0) 0 stoppedWorld).2.calls)
      (peekReg ⟨.arm64, false⟩ openatReplaced.regs .current .stackPointer)
      (registerIn ⟨.arm64, false⟩ (fetchReply openatSetup 0 stoppedWorld).bank .stackPointer)
      (fun _ => 0) openatReplaced.memory.bytes
      fun reg => argumentAfter reg [(.setStr otherPath .sysarg2, 0)] := by
  have hentry : AtEntry openatSetup 0 stoppedWorld := ⟨le_rfl, rfl, rfl⟩
  have halone : LeftAlone openatSetup 0 stoppedWorld := by
    refine ⟨by decide +kernel, fun _ status v hrun => ?_, fun hprctl => ?_⟩
    · rcases sysargPath_cases openatSetup 0 .sysarg2 (calledEnter openatSetup 0 stoppedWorld) with
        ⟨-, hempty⟩ | ⟨-, hread⟩
      · rw [hempty] at hrun
        exact (Except.ok.inj (Prod.mk.inj hrun).1).le
      · rw [hread] at hrun
        exact (Except.ok.inj (Prod.mk.inj hrun).1).le
    · have hnumber : reportedSysnum openatSetup 0 stoppedWorld ≠ .prctl := by
        decide +kernel
      exact absurd hprctl hnumber
  have hfits : ∀ call ∈ [ArgCall.setStr otherPath .sysarg2], call.Fits openatSetup.target := by
    intro call hcall
    rw [List.mem_singleton.mp hcall]
    refine ⟨by decide, ?_⟩
    change 3 + 16 ≤ 2 ^ 63
    decide
  have hpokes : sysenterPokes openatSetup 0 (savedEnter openatSetup 0 stoppedWorld) =
      [(.stackPointer, 0x7f0), (.sysarg2, 0x7f0)] := rfl
  have huser : enteredRegs openatSetup 0 stoppedWorld = openatReplaced.regs := by
    unfold enteredRegs
    rw [hpokes]
    dsimp only [openatReplaced, pokeAll, List.foldl]
    rfl
  exact (@replacedArguments_executed _ _ _ _ _ hentry halone _ hfits _ _ _ openatReplaced_run
    huser).1

end Openat

end Abyss
