import Abyss.Syscall.Target

/-!
# The register cache of a tracee

A register bank is an array of 32-bit slots; a register of the 64-bit processor takes two of
them, and the slots of an AArch32 process overlap those of its 64-bit host. Each tracee has
three banks: the registers of the current stop, those saved at the entry of a syscall, and
those left by the translation of that entry.
-/

namespace Abyss

/-- The registers named by `reg.h`. -/
inductive Reg where
  | sysargNum | sysarg1 | sysarg2 | sysarg3 | sysarg4 | sysarg5 | sysarg6 | sysargResult
  | stackPointer | instrPointer | rtldFini | stateFlags | userarg1
deriving DecidableEq

/-- `struct user_regs_struct` as 32-bit slots. -/
abbrev Bank := ℕ → BitVec 32

/-- `RegVersion`. -/
inductive RegVersion where
  | current
  | original
  | modified

/-- The cached registers and what remains to be done with them. -/
structure Regs where
  current : Bank
  original : Bank
  modified : Bank
  wereChanged : Bool
  restoreOriginal : Bool

/-- `_regs[version]`. -/
def Regs.bank (regs : Regs) : RegVersion → Bank
  | .current => regs.current
  | .original => regs.original
  | .modified => regs.modified

/-- `reg_offset_armeabi` and the 32-bit `reg_offset`, in slots. -/
def regOffsetArmeabi : Reg → ℕ
  | .sysargNum => 7
  | .sysarg1 => 0
  | .sysarg2 => 1
  | .sysarg3 => 2
  | .sysarg4 => 3
  | .sysarg5 => 4
  | .sysarg6 => 5
  | .sysargResult => 0
  | .stackPointer => 13
  | .instrPointer => 15
  | .rtldFini => 0
  | .stateFlags => 0
  | .userarg1 => 0

/-- The 64-bit `reg_offset`, in slots. -/
def regOffsetArm64 : Reg → ℕ
  | .sysargNum => 16
  | .sysarg1 => 0
  | .sysarg2 => 2
  | .sysarg3 => 4
  | .sysarg4 => 6
  | .sysarg5 => 8
  | .sysarg6 => 10
  | .sysargResult => 0
  | .stackPointer => 62
  | .instrPointer => 64
  | .rtldFini => 0
  | .stateFlags => 0
  | .userarg1 => 0

/-- `reg_offset` of the processor. -/
def Cpu.regOffset : Cpu → Reg → ℕ
  | .armEabi => regOffsetArmeabi
  | .arm64 => regOffsetArm64

/-- The processor together with the mode of the process, which selects the offsets. -/
structure Mode where
  cpu : Cpu
  isAarch32 : Bool

/-- Whether it is a 32-bit process on the 64-bit processor. -/
def Mode.is32on64 (m : Mode) : Bool := m.cpu = .arm64 && m.isAarch32

/-- The ABI of the process. -/
def Mode.abi (m : Mode) : Abi := if m.is32on64 then .abi2 else .default

/-- The slot of a register. -/
def Mode.slot (m : Mode) (reg : Reg) : ℕ :=
  if m.is32on64 then regOffsetArmeabi reg else m.cpu.regOffset reg

/-- `REG`: the whole word stored at the slot of a register. -/
def Mode.word (m : Mode) (bank : Bank) (reg : Reg) : ℕ :=
  match m.cpu with
  | .armEabi => (bank (m.slot reg)).toNat
  | .arm64 => (bank (m.slot reg)).toNat + (bank (m.slot reg + 1)).toNat * 2 ^ 32

/-- Store a whole word at the slot of a register. -/
def Mode.setWord (m : Mode) (bank : Bank) (reg : Reg) (value : ℕ) : Bank :=
  match m.cpu with
  | .armEabi => Function.update bank (m.slot reg) (BitVec.ofNat 32 value)
  | .arm64 =>
      Function.update (Function.update bank (m.slot reg) (BitVec.ofNat 32 value))
        (m.slot reg + 1) (BitVec.ofNat 32 (value / 2 ^ 32))

/-- The cached value of a register. -/
def peekReg (m : Mode) (regs : Regs) (version : RegVersion) (reg : Reg) : ℕ :=
  let result := m.word (regs.bank version) reg
  if m.is32on64 then result % 2 ^ 32 else result

/-- Set the cached value of a register. -/
def pokeReg (m : Mode) (regs : Regs) (reg : Reg) (value : ℕ) : Regs :=
  if peekReg m regs .current reg = value then regs
  else
    { regs with
      current :=
        if m.is32on64 then
          Function.update regs.current (m.slot reg) (BitVec.ofNat 32 value)
        else m.setWord regs.current reg value
      wereChanged := true }

/-- Save the current registers at the entry of a syscall. -/
def saveOriginalRegs (regs : Regs) : Regs :=
  { regs with original := regs.current, wereChanged := false }

/-- Save the current registers after the translation of the entry. -/
def saveModifiedRegs (regs : Regs) : Regs :=
  { regs with modified := regs.current }

/-- `RESTORE`: copy a word from the saved bank unless it is where the result goes. -/
def restoreReg (m : Mode) (regs : Regs) (reg : Reg) : Regs :=
  if m.cpu.regOffset .sysargResult = m.cpu.regOffset reg then regs
  else { regs with current := m.setWord regs.current reg (m.word regs.original reg) }

/-- The registers that are restored at the very end of a syscall. -/
def restoredRegs : List Reg :=
  [.sysargNum, .sysarg1, .sysarg2, .sysarg3, .sysarg4, .sysarg5, .sysarg6, .stackPointer]

/-- Restore everything but the result, if the end of a syscall asks for it. -/
def restoreOriginalRegs (m : Mode) (regs : Regs) : Regs :=
  if regs.restoreOriginal then restoredRegs.foldl (restoreReg m) regs else regs

/-- `(word_t) value` for a C integer. -/
def toWord (t : Target) (value : ℤ) : ℕ := (value % 2 ^ t.wordBits).toNat

/-- `(int) value` for a word. -/
def toInt (value : ℕ) : ℤ := (BitVec.ofNat 32 value).toInt

/-- The neutral value of the syscall number in a bank. -/
def getSysnum (t : Target) (m : Mode) (regs : Regs) (version : RegVersion) : Sysnum :=
  translateSysnum t m.abi (peekReg m regs version .sysargNum)

/-- Overwrite the current syscall number. -/
def setSysnum (t : Target) (m : Mode) (regs : Regs) (sysnum : Sysnum) : Regs :=
  pokeReg m regs .sysargNum (detranslateSysnum t m.abi sysnum)

/-- `SYSTRAP_SIZE`. -/
def systrapSize : ℕ := 4

/-- The instruction pointer moved back to the trap. -/
def rewindInstrPointer (t : Target) (m : Mode) (regs : Regs) : Regs :=
  pokeReg m regs .instrPointer
    (toWord t ((peekReg m regs .current .instrPointer : ℤ) - systrapSize))

/-- Restart the original syscall; its current result is overwritten. -/
def restartOriginalSyscall (t : Target) (m : Mode) (regs : Regs) : Regs :=
  let regs := pokeReg m regs .sysarg1 (peekReg m regs .original .sysarg1)
  let regs := pokeReg m regs .sysarg2 (peekReg m regs .original .sysarg2)
  let regs := pokeReg m regs .sysarg3 (peekReg m regs .original .sysarg3)
  let regs := pokeReg m regs .sysarg4 (peekReg m regs .original .sysarg4)
  let regs := pokeReg m regs .sysarg5 (peekReg m regs .original .sysarg5)
  let regs := pokeReg m regs .sysarg6 (peekReg m regs .original .sysarg6)
  let regs := pokeReg m regs .sysargNum (peekReg m regs .original .sysargNum)
  rewindInstrPointer t m regs

/-! ## Reading back what was set -/

/-- The number of bits of a register of the process. -/
def Mode.bits (m : Mode) : ℕ := if m.is32on64 then 32 else m.cpu.wordBits

/-- The slots of two registers do not overlap. -/
def Mode.Apart (m : Mode) (reg reg' : Reg) : Prop :=
  m.slot reg ≠ m.slot reg' ∧
    (m.bits = 64 → m.slot reg + 1 ≠ m.slot reg' ∧ m.slot reg' + 1 ≠ m.slot reg)

instance (m : Mode) (reg reg' : Reg) : Decidable (m.Apart reg reg') :=
  inferInstanceAs (Decidable (_ ∧ _))

/-- The registers of a syscall. -/
def syscallRegs : List Reg :=
  [.sysargNum, .sysarg1, .sysarg2, .sysarg3, .sysarg4, .sysarg5, .sysarg6, .instrPointer]

/-- Two registers of a syscall are apart. -/
theorem syscallRegs_apart (m : Mode) :
    ∀ reg ∈ syscallRegs, ∀ reg' ∈ syscallRegs, reg ≠ reg' → m.Apart reg reg' := by
  rcases m with ⟨_ | _, _ | _⟩ <;> decide

/-- Registers are no longer than the process has them. -/
theorem peekReg_lt (m : Mode) (regs : Regs) (version : RegVersion) (reg : Reg) :
    peekReg m regs version reg < 2 ^ m.bits := by
  obtain ⟨_ | _, _ | _⟩ := m <;>
    simp only [peekReg, Mode.bits, Mode.is32on64, Mode.word, Cpu.wordBits] <;> simp <;> omega

/-- A register reads back as it was set. -/
theorem peekReg_pokeReg_same {m : Mode} (regs : Regs) (reg : Reg) {value : ℕ}
    (h : value < 2 ^ m.bits) : peekReg m (pokeReg m regs reg value) .current reg = value := by
  unfold pokeReg
  split
  · assumption
  · obtain ⟨_ | _, _ | _⟩ := m <;>
      simp only [peekReg, Mode.bits, Mode.is32on64, Mode.word, Mode.setWord, Cpu.wordBits,
        Regs.bank] at h ⊢ <;> simp at h ⊢ <;> omega

/-- Setting a register leaves the others alone. -/
theorem peekReg_pokeReg_other {m : Mode} (regs : Regs) {reg reg' : Reg} (value : ℕ)
    (h : m.Apart reg reg') :
    peekReg m (pokeReg m regs reg value) .current reg' = peekReg m regs .current reg' := by
  unfold pokeReg
  split
  · rfl
  · obtain ⟨hne, h64⟩ := h
    obtain ⟨_ | _, _ | _⟩ := m <;>
      simp [peekReg, Mode.bits, Mode.is32on64, Mode.word, Mode.setWord, Cpu.wordBits,
        Regs.bank, Function.update_apply] at hne h64 ⊢ <;> grind

/-- Setting a register only changes the current bank. -/
theorem peekReg_pokeReg_original (m : Mode) (regs : Regs) (reg reg' : Reg) (value : ℕ) :
    peekReg m (pokeReg m regs reg value) .original reg' = peekReg m regs .original reg' := by
  unfold pokeReg
  split <;> rfl

/-- Set the given registers back to what they were at the entry of the syscall. -/
def pokeOriginals (m : Mode) (regs : Regs) (todo : List Reg) : Regs :=
  todo.foldl (fun regs reg => pokeReg m regs reg (peekReg m regs .original reg)) regs

section PokeOriginals

variable {m : Mode} {todo : List Reg}

/-- A register that is apart from those that are restored stays. -/
theorem pokeOriginals_other (regs : Regs) {reg : Reg} (h : ∀ other ∈ todo, m.Apart other reg) :
    peekReg m (pokeOriginals m regs todo) .current reg = peekReg m regs .current reg := by
  induction todo generalizing regs with
  | nil => rfl
  | cons first rest ih =>
    rw [pokeOriginals, List.foldl_cons]
    refine (ih _ fun other hother => h other (List.mem_cons_of_mem _ hother)).trans ?_
    exact peekReg_pokeReg_other _ _ (h first List.mem_cons_self)

/-- Every register of the list is set back. -/
theorem pokeOriginals_mem (regs : Regs) (hsub : ∀ reg ∈ todo, reg ∈ syscallRegs)
    (hnodup : todo.Nodup) {reg : Reg} (h : reg ∈ todo) :
    peekReg m (pokeOriginals m regs todo) .current reg = peekReg m regs .original reg := by
  induction todo generalizing regs with
  | nil => cases h
  | cons first rest ih =>
    rw [List.forall_mem_cons] at hsub
    rw [List.nodup_cons] at hnodup
    rw [pokeOriginals, List.foldl_cons]
    rcases List.mem_cons.mp h with rfl | hrest
    · have hother : ∀ other ∈ rest, m.Apart other reg := fun other hother =>
        syscallRegs_apart m other (hsub.2 other hother) reg hsub.1
          (ne_of_mem_of_not_mem hother hnodup.1)
      refine (pokeOriginals_other _ hother).trans ?_
      exact peekReg_pokeReg_same _ _ (peekReg_lt ..)
    · exact (ih _ hsub.2 hnodup.2 hrest).trans (peekReg_pokeReg_original ..)

end PokeOriginals

/-- A restarted syscall has the registers of its entry again. -/
theorem restartOriginalSyscall_peekReg (t : Target) (m : Mode) (regs : Regs) {reg : Reg}
    (h : reg ∈ [Reg.sysarg1, .sysarg2, .sysarg3, .sysarg4, .sysarg5, .sysarg6, .sysargNum]) :
    peekReg m (restartOriginalSyscall t m regs) .current reg = peekReg m regs .original reg := by
  have hsub : ∀ r ∈ [Reg.sysarg1, .sysarg2, .sysarg3, .sysarg4, .sysarg5, .sysarg6, .sysargNum],
      r ∈ syscallRegs ∧ r ≠ .instrPointer := by decide
  have hapart : m.Apart .instrPointer reg :=
    syscallRegs_apart m _ (by decide) _ (hsub reg h).1 (hsub reg h).2.symm
  refine Eq.trans ?_ (pokeOriginals_mem regs (fun r hr => (hsub r hr).1) (by decide) h)
  exact peekReg_pokeReg_other _ _ hapart

/-- What is read from a saved bank only depends on that bank. -/
theorem peekReg_original {regs regs' : Regs} (h : regs'.original = regs.original) (m : Mode)
    (reg : Reg) : peekReg m regs' .original reg = peekReg m regs .original reg := by
  unfold peekReg Regs.bank
  rw [h]

/-! ## Sequences of pokes -/

/-- Set one register after the other. -/
def pokeAll (m : Mode) (regs : Regs) (pokes : List (Reg × ℕ)) : Regs :=
  pokes.foldl (fun regs p => pokeReg m regs p.1 p.2) regs

/-- A register that was changed stays marked as changed. -/
theorem pokeReg_wereChanged {m : Mode} {regs : Regs} {reg : Reg} {value : ℕ}
    (h : (pokeReg m regs reg value).wereChanged = false) : pokeReg m regs reg value = regs := by
  unfold pokeReg at h ⊢
  split
  · rfl
  · rename_i hne
    rw [if_neg hne] at h
    cases h

/-- Pokes that leave no mark changed nothing. -/
theorem pokeAll_wereChanged {m : Mode} {regs : Regs} {pokes : List (Reg × ℕ)}
    (h : (pokeAll m regs pokes).wereChanged = false) : pokeAll m regs pokes = regs := by
  induction pokes generalizing regs with
  | nil => rfl
  | cons p rest ih =>
    rw [pokeAll, List.foldl_cons] at h ⊢
    have hrest := ih h
    rw [pokeAll] at hrest
    rw [hrest] at h ⊢
    exact pokeReg_wereChanged h

/-- Setting a register changes neither the saved banks nor what is left to do. -/
theorem pokeReg_frame (m : Mode) (regs : Regs) (reg : Reg) (value : ℕ) :
    (pokeReg m regs reg value).original = regs.original ∧
      (pokeReg m regs reg value).restoreOriginal = regs.restoreOriginal := by
  unfold pokeReg
  split <;> exact ⟨rfl, rfl⟩

/-- Pokes do not change the registers at the entry. -/
theorem pokeAll_frame (m : Mode) (regs : Regs) (pokes : List (Reg × ℕ)) :
    (pokeAll m regs pokes).original = regs.original ∧
      (pokeAll m regs pokes).restoreOriginal = regs.restoreOriginal := by
  induction pokes generalizing regs with
  | nil => exact ⟨rfl, rfl⟩
  | cons p rest ih =>
    obtain ⟨horiginal, hrestore⟩ := pokeReg_frame m regs p.1 p.2
    rw [pokeAll, List.foldl_cons]
    exact ⟨(ih _).1.trans horiginal, (ih _).2.trans hrestore⟩

/-! ## Restoring the registers of the entry -/

/-- The slots of the word that is stored at a register. -/
def Mode.wordSlots (m : Mode) (reg : Reg) : List ℕ :=
  match m.cpu with
  | .armEabi => [m.slot reg]
  | .arm64 => [m.slot reg, m.slot reg + 1]

/-- The slots that are restored at the end of a syscall. -/
def Mode.restoredSlots (m : Mode) : List ℕ :=
  (restoredRegs.filter fun reg => m.cpu.regOffset .sysargResult ≠ m.cpu.regOffset reg).flatMap
    m.wordSlots

/-- Copying a word copies its slots. -/
theorem Mode.setWord_word (m : Mode) (bank saved : Bank) (reg : Reg) :
    m.setWord bank reg (m.word saved reg) =
      fun i => if i ∈ m.wordSlots reg then saved i else bank i := by
  funext i
  rcases m with ⟨_ | _, isAarch32⟩
  · simp only [Mode.setWord, Mode.word, Mode.wordSlots, Function.update_apply, List.mem_singleton]
    split
    · rename_i h
      simp [h]
    · rfl
  · simp only [Mode.setWord, Mode.word, Mode.wordSlots, Function.update_apply, List.mem_cons,
      List.not_mem_nil, or_false]
    have hlow := (saved (Mode.slot ⟨.arm64, isAarch32⟩ reg)).isLt
    split
    · rename_i h
      rw [if_pos (Or.inr h), h]
      apply BitVec.eq_of_toNat_eq
      simp
      omega
    · rename_i h
      split
      · rename_i h'
        rw [if_pos (Or.inl h'), h']
        apply BitVec.eq_of_toNat_eq
        simp
        omega
      · rename_i h'
        rw [if_neg (by simp [h, h'])]

/-- Nor does it to restore a register. -/
theorem restoreReg_original (m : Mode) (regs : Regs) (reg : Reg) :
    (restoreReg m regs reg).original = regs.original := by
  unfold restoreReg
  split <;> rfl

/-- Restoring registers one after the other restores their slots and no others. -/
theorem foldl_restoreReg_current (m : Mode) (todo : List Reg) (regs : Regs) :
    (todo.foldl (restoreReg m) regs).current = fun i =>
      if i ∈ (todo.filter fun reg =>
        m.cpu.regOffset .sysargResult ≠ m.cpu.regOffset reg).flatMap m.wordSlots
      then regs.original i else regs.current i := by
  induction todo generalizing regs with
  | nil => rfl
  | cons reg rest ih =>
    rw [List.foldl_cons, ih, restoreReg_original]
    by_cases hresult : m.cpu.regOffset .sysargResult = m.cpu.regOffset reg
    · rw [List.filter_cons_of_neg (by simpa using hresult), restoreReg, if_pos hresult]
    · rw [List.filter_cons_of_pos (by simpa using hresult), restoreReg, if_neg hresult,
        Mode.setWord_word, List.flatMap_cons]
      funext i
      simp only [List.mem_append]
      split
      · rw [if_pos (Or.inr ‹_›)]
      · rename_i hrest
        simp only [or_iff_left hrest]

/-- At the end of a syscall the restored slots are those of its entry. -/
theorem restoreOriginalRegs_current {m : Mode} {regs : Regs} (h : regs.restoreOriginal = true) :
    (restoreOriginalRegs m regs).current = fun i =>
      if i ∈ m.restoredSlots then regs.original i else regs.current i := by
  rw [restoreOriginalRegs, if_pos h]
  exact foldl_restoreReg_current m restoredRegs regs

/-- The registers of the entry stay saved. -/
theorem restoreOriginalRegs_original (m : Mode) (regs : Regs) :
    (restoreOriginalRegs m regs).original = regs.original := by
  have hfold : ∀ (todo : List Reg) (regs : Regs),
      (todo.foldl (restoreReg m) regs).original = regs.original := by
    intro todo
    induction todo with
    | nil => exact fun _ => rfl
    | cons reg rest ih => exact fun regs => (ih _).trans (restoreReg_original m regs reg)
  unfold restoreOriginalRegs
  split
  · exact hfold restoredRegs regs
  · rfl

/-- Nothing is lost by the restoration where the entry had the same registers. -/
theorem restoreOriginalRegs_current_eq_iff {m : Mode} {regs : Regs}
    (h : regs.restoreOriginal = true) :
    (restoreOriginalRegs m regs).current = regs.current ↔
      ∀ i ∈ m.restoredSlots, regs.original i = regs.current i := by
  rw [restoreOriginalRegs_current h]
  constructor
  · intro heq i hi
    have hslot := congrFun heq i
    rwa [if_pos hi] at hslot
  · intro hslots
    funext i
    split
    · exact hslots i ‹_›
    · rfl

/-! ## The slots of the registers -/

/-- The slots of a register of the process. -/
def Mode.regSlots (m : Mode) (reg : Reg) : List ℕ :=
  if m.is32on64 then [m.slot reg] else m.wordSlots reg

/-- The registers of the entry of a syscall that are to be found again at its end: all that are
restored, except for the one that holds the result. -/
def Mode.keptRegs (m : Mode) : List Reg :=
  restoredRegs.filter fun reg => m.slot reg ≠ m.slot .sysargResult

/-- The slots that are restored though no register that is to be kept has them. -/
def Mode.clobberedSlots (m : Mode) : List ℕ :=
  m.restoredSlots.filter fun i => m.keptRegs.all fun reg => i ∉ m.regSlots reg

example : Mode.clobberedSlots ⟨.armEabi, false⟩ = [] := rfl

example : Mode.clobberedSlots ⟨.arm64, false⟩ = [] := rfl

example : Mode.clobberedSlots ⟨.arm64, true⟩ = [8, 6, 14] := rfl

/-- Setting a register leaves the slots of all others alone. -/
theorem pokeReg_slot {m : Mode} {regs : Regs} {reg : Reg} {i : ℕ} (value : ℕ)
    (h : i ∉ m.regSlots reg) : (pokeReg m regs reg value).current i = regs.current i := by
  unfold pokeReg
  split
  · rfl
  · obtain ⟨_ | _, _ | _⟩ := m <;>
      simp_all [Mode.regSlots, Mode.wordSlots, Mode.is32on64, Mode.setWord]

/-- A slot of no register that is poked stays. -/
theorem pokeAll_slot {m : Mode} {regs : Regs} {pokes : List (Reg × ℕ)} {i : ℕ}
    (h : ∀ p ∈ pokes, i ∉ m.regSlots p.1) :
    (pokeAll m regs pokes).current i = regs.current i := by
  induction pokes generalizing regs with
  | nil => rfl
  | cons p rest ih =>
    rw [List.forall_mem_cons] at h
    rw [pokeAll, List.foldl_cons]
    exact (ih h.2).trans (pokeReg_slot p.2 h.1)

/-- A register only depends on its slots. -/
theorem peekReg_congr {m : Mode} {regs regs' : Regs} {reg : Reg}
    (h : ∀ i ∈ m.regSlots reg, regs'.current i = regs.current i) :
    peekReg m regs' .current reg = peekReg m regs .current reg := by
  obtain ⟨_ | _, _ | _⟩ := m <;>
    simp_all [Mode.regSlots, Mode.wordSlots, Mode.is32on64, peekReg, Mode.word, Regs.bank]

/-- Pokes may follow pokes. -/
theorem pokeAll_append (m : Mode) (regs : Regs) (pokes pokes' : List (Reg × ℕ)) :
    pokeAll m regs (pokes ++ pokes') = pokeAll m (pokeAll m regs pokes) pokes' :=
  List.foldl_append

/-- Restarting a syscall sets the registers of its entry, and then the instruction pointer. -/
theorem restartOriginalSyscall_pokes (t : Target) (m : Mode) (regs : Regs) :
    ∃ pokes, restartOriginalSyscall t m regs = pokeAll m regs pokes := by
  have hpokes : ∀ (todo : List Reg) (regs : Regs), ∃ pokes,
      pokeOriginals m regs todo = pokeAll m regs pokes := by
    intro todo
    induction todo with
    | nil => exact fun _ => ⟨[], rfl⟩
    | cons reg rest ih =>
      intro regs
      obtain ⟨pokes, hpokes⟩ := ih (pokeReg m regs reg (peekReg m regs .original reg))
      exact ⟨(reg, peekReg m regs .original reg) :: pokes, hpokes⟩
  obtain ⟨pokes, hpokes⟩ := hpokes
    [.sysarg1, .sysarg2, .sysarg3, .sysarg4, .sysarg5, .sysarg6, .sysargNum] regs
  refine ⟨pokes ++ [(.instrPointer, toWord t
    ((peekReg m (pokeAll m regs pokes) .current .instrPointer : ℤ) - systrapSize))], ?_⟩
  rw [pokeAll_append, ← hpokes]
  rfl

end Abyss
