import Abyss.Tracee.MemString

/-!
# String arguments of a syscall

A string that an argument register points to is copied to a buffer of the caller, and a terminator
is stored behind the size that was returned, which counts the terminator already. A path is
copied to a buffer of `PATH_MAX` bytes, and is rejected if its size is not smaller.
-/

namespace Abyss

open Machine Bytes

/-- `PATH_MAX`. -/
def pathMax : ℕ := 4096

/-- `ENAMETOOLONG`. -/
def enametoolong : ℕ := 36

section Programs

variable (k : Kernel) (m : Mode) (regs : Regs)

/-- Copy the string an argument points to. -/
def syscallGetSysargStr (maxSize : ℕ) (reg : Reg) : MemoryProg ℤ := do
  let src := peekReg m regs .current reg
  if src = 0 then do
    storeBytes 0 [0]
    pure 0
  else do
    let size ← readString k m.cpu src maxSize
    if size < 0 then pure size
    else do
      storeBytes size.toNat [0]
      pure size

/-- Copy a path. -/
def readPath (src : ℕ) : MemoryProg ℤ := do
  let status ← readString k m.cpu src pathMax
  if status < 0 then pure status
  else if status ≥ ↑pathMax then pure (-enametoolong)
  else pure status

/-- Copy the path an argument points to. -/
def getSysargPath (reg : Reg) : MemoryProg ℤ := do
  let src := peekReg m regs .current reg
  if src = 0 then do
    storeBytes 0 [0]
    pure 0
  else do
    let size ← readPath k m src
    if size < 0 then pure size
    else do
      storeBytes size.toNat [0]
      pure size

end Programs

/-- A buffer holds a string. -/
def HoldsString (buffer : List Byte) : Prop := ∃ j : ℕ, buffer[j]? = some 0

/-- A string is copied within the buffer, and there is a terminator if a size is returned. -/
def GetsString (k : Kernel) (m : Mode) (regs : Regs) (reg : Reg) (s : Memory) : Prop :=
  ∃ status s', syscallGetSysargStr k m regs s.buffer.length reg s = (.ok status, s') ∧
    s'.buffer.length = s.buffer.length ∧ (0 ≤ status → HoldsString s'.buffer)

/-- A path is copied within the buffer, and accepted exactly if it ends within it. -/
def GetsPath (k : Kernel) (m : Mode) (regs : Regs) (reg : Reg) (s : Memory) : Prop :=
  ∃ status s', getSysargPath k m regs reg s = (.ok status, s') ∧
    s'.buffer.length = s.buffer.length ∧
    (peekReg m regs .current reg ≠ 0 → (0 ≤ status ↔
      ∃ length < pathMax, k.EndsAt s.bytes (peekReg m regs .current reg) length))

section Strings

variable {k : Kernel} {m : Mode} {regs : Regs} {reg : Reg} {s : Memory}

/-- The terminator is stored where a status is an index of the buffer. -/
theorem storeTerminator {i : ℕ} (h : i < s.buffer.length) :
    storeBytes i [0] s = (.ok (), { s with buffer := overwrite s.buffer i [0] }) ∧
      (overwrite s.buffer i [0]).length = s.buffer.length ∧
      (overwrite s.buffer i [0])[i]? = some 0 := by
  have hfit : i + [(0 : Byte)].length ≤ s.buffer.length := h
  refine ⟨storeBytes_apply hfit, overwrite_length hfit, ?_⟩
  exact overwrite_of_mem (j := 0) hfit (Nat.succ_pos 0)

/-- Otherwise it is stored out of bounds. -/
theorem storeTerminator_outOfBounds {i : ℕ} (h : s.buffer.length ≤ i) :
    storeBytes i [0] s = (.error .outOfBounds, s) := by
  have hfit : ¬i + [(0 : Byte)].length ≤ s.buffer.length := Nat.not_le_of_lt (Nat.lt_succ_of_le h)
  rw [storeBytes, bind_apply_ok (read_apply s), if_neg hfit]
  rfl

/-- A null argument is an empty string. -/
theorem getsString_null (hpos : 0 < s.buffer.length) (h : peekReg m regs .current reg = 0) :
    GetsString k m regs reg s := by
  obtain ⟨hstore, hlength, hnul⟩ := storeTerminator hpos
  refine ⟨0, { s with buffer := overwrite s.buffer 0 [0] }, ?_, hlength, fun _ => ⟨0, hnul⟩⟩
  rw [syscallGetSysargStr, if_pos h, bind_apply_ok hstore]
  rfl

/-- A string that was read is copied as it is meant to be exactly if its status is an index of the
buffer. -/
theorem getsString_of_returns (h : peekReg m regs .current reg ≠ 0) {status : ℤ} {s' : Memory}
    (hreturns : Returns k m.cpu (peekReg m regs .current reg) s status s') :
    GetsString k m regs reg s ↔ status < s.buffer.length := by
  obtain ⟨hrun, -, hlength⟩ := hreturns
  unfold GetsString
  rw [syscallGetSysargStr, if_neg h, bind_apply_ok hrun]
  by_cases hneg : status < 0
  · rw [if_pos hneg]
    refine iff_of_true ⟨status, s', rfl, hlength, fun hpos => absurd hneg (Int.not_lt.mpr hpos)⟩ ?_
    omega
  · rw [if_neg hneg]
    by_cases hin : status < s.buffer.length
    · obtain ⟨hstore, hlength', hnul⟩ := storeTerminator (s := s') (i := status.toNat) (by omega)
      rw [bind_apply_ok hstore]
      exact iff_of_true ⟨status, { s' with buffer := overwrite s'.buffer status.toNat [0] }, rfl,
        hlength'.trans hlength, fun _ => ⟨_, hnul⟩⟩ hin
    · have hstore := storeTerminator_outOfBounds (s := s') (i := status.toNat) (by omega)
      rw [bind_apply_error hstore]
      exact iff_of_false (fun ⟨_, _, hrun, _⟩ => nomatch hrun) hin

/-- A string is copied as it is meant to be exactly if the argument is null, or the size of the string
that is read is smaller than that of the buffer, and so is the status for one that is too long. -/
theorem getsString_iff (hpos : 0 < s.buffer.length) :
    GetsString k m regs reg s ↔ peekReg m regs .current reg = 0 ∨
      (∀ length < s.buffer.length,
        k.EndsAt s.bytes (peekReg m regs .current reg) length →
        k.Reaches m.cpu (peekReg m regs .current reg) length s →
          intOf ↑(length + 1) < s.buffer.length) ∧
      (k.Unterminated s.bytes (peekReg m regs .current reg) s.buffer.length →
        k.Overruns m.cpu (peekReg m regs .current reg) s →
          intOf ↑(s.buffer.length + 1) < s.buffer.length) := by
  by_cases hnull : peekReg m regs .current reg = 0
  · exact iff_of_true (getsString_null hpos hnull) (Or.inl hnull)
  rw [or_iff_right hnull]
  have hefault : -(efault : ℤ) < s.buffer.length :=
    Int.lt_of_lt_of_le (by decide : -(efault : ℤ) < 0) (Int.natCast_nonneg _)
  rcases k.string_cases s.bytes (peekReg m regs .current reg) s.buffer.length with
    ⟨length, hlt, hends⟩ | hbroken | hnone
  · -- The string ends.
    have hsome := hends.not_unterminated hlt
    by_cases hreaches : k.Reaches m.cpu (peekReg m regs .current reg) length s
    · obtain ⟨s', hreturns, -⟩ := readString_reaches hlt hends hreaches
      rw [getsString_of_returns hnull hreturns]
      constructor
      · refine fun hin => ⟨fun length' _ hends' _ => ?_, fun hnone => absurd hnone hsome⟩
        rwa [hends'.unique hends]
      · exact fun hfits => hfits.1 length hlt hends hreaches
    · obtain ⟨s', hreturns⟩ := readString_misses hlt hends hreaches
      rw [getsString_of_returns hnull hreturns]
      refine iff_of_true hefault ⟨fun length' _ hends' hreaches' => ?_,
        fun hnone => absurd hnone hsome⟩
      rw [hends'.unique hends] at hreaches'
      exact absurd hreaches' hreaches
  · -- A byte that is needed is not accessible.
    obtain ⟨s', hreturns⟩ := readString_broken m.cpu hbroken
    rw [getsString_of_returns hnull hreturns]
    exact iff_of_true hefault ⟨fun _ _ hends => absurd hbroken hends.not_broken,
      fun hnone => absurd hnone hbroken.not_unterminated⟩
  · -- The string is longer than the buffer.
    have hnever : ∀ length < s.buffer.length,
        ¬k.EndsAt s.bytes (peekReg m regs .current reg) length :=
      fun _ hlt hends => hends.not_unterminated hlt hnone
    by_cases hover : k.Overruns m.cpu (peekReg m regs .current reg) s
    · obtain ⟨s', hreturns⟩ := readString_overruns hpos hnone hover
      rw [getsString_of_returns hnull hreturns]
      exact ⟨fun hin => ⟨fun length hlt hends => absurd hends (hnever length hlt),
        fun _ _ => hin⟩, fun hfits => hfits.2 hnone hover⟩
    · obtain ⟨s', hreturns⟩ := readString_stays m.cpu hpos hnone hover
      rw [getsString_of_returns hnull hreturns]
      exact iff_of_true hefault ⟨fun length hlt hends => absurd hends (hnever length hlt),
        fun _ hover' => absurd hover' hover⟩

end Strings

/-! ## Paths -/

section Paths

variable {k : Kernel} {m : Mode} {regs : Regs} {reg : Reg} {s : Memory}

/-- A path that was read is accepted exactly if its status is a size smaller than that of the buffer,
and otherwise the buffer is left alone. -/
theorem getSysargPath_of_returns (hbuffer : s.buffer.length = pathMax)
    (h : peekReg m regs .current reg ≠ 0) {status : ℤ} {s' : Memory}
    (hreturns : Returns k m.cpu (peekReg m regs .current reg) s status s') :
    ∃ result s'', getSysargPath k m regs reg s = (.ok result, s'') ∧
      s''.buffer.length = s.buffer.length ∧ (0 ≤ result ↔ 0 ≤ status ∧ status < pathMax) := by
  obtain ⟨hrun, -, hlength⟩ := hreturns
  rw [hbuffer] at hrun
  have hread : ∃ result, readPath k m (peekReg m regs .current reg) s = (.ok result, s') ∧
      (0 ≤ result ↔ 0 ≤ status ∧ status < pathMax) ∧ (0 ≤ result → result = status) := by
    rw [readPath, bind_apply_ok hrun]
    by_cases hneg : status < 0
    · rw [if_pos hneg]
      exact ⟨status, rfl, by omega, fun _ => rfl⟩
    · rw [if_neg hneg]
      by_cases hlong : status ≥ pathMax
      · rw [if_pos hlong]
        refine ⟨-enametoolong, rfl, ?_, fun h => absurd h (by decide)⟩
        exact iff_of_false (by decide) fun h => absurd h.2 (Int.not_lt.mpr hlong)
      · rw [if_neg hlong]
        exact ⟨status, rfl, by omega, fun _ => rfl⟩
  obtain ⟨result, hpath, haccepted, hsame⟩ := hread
  rw [getSysargPath, if_neg h, bind_apply_ok hpath]
  by_cases hneg : result < 0
  · rw [if_pos hneg]
    exact ⟨result, s', rfl, hlength, haccepted⟩
  · rw [if_neg hneg]
    have hpos := Int.not_lt.mp hneg
    have hsmall := (haccepted.mp hpos).2
    have heq := hsame hpos
    obtain ⟨hstore, hlength', -⟩ := storeTerminator (s := s') (i := result.toNat) (by omega)
    rw [bind_apply_ok hstore]
    exact ⟨result, { s' with buffer := overwrite s'.buffer result.toNat [0] }, rfl,
      hlength'.trans hlength, haccepted⟩

/-- A null argument is an empty path. -/
theorem getsPath_null (hbuffer : s.buffer.length = pathMax)
    (h : peekReg m regs .current reg = 0) : GetsPath k m regs reg s := by
  obtain ⟨hstore, hlength, -⟩ := storeTerminator (s := s) (i := 0) (by rw [hbuffer]; decide)
  refine ⟨0, { s with buffer := overwrite s.buffer 0 [0] }, ?_, hlength, fun hsome => absurd h hsome⟩
  rw [getSysargPath, if_pos h, bind_apply_ok hstore]
  rfl

/-- A path that was read is copied as it is meant to be exactly if its status tells whether it ends
within the buffer. -/
theorem getsPath_of_returns (hbuffer : s.buffer.length = pathMax)
    (h : peekReg m regs .current reg ≠ 0) {status : ℤ} {s' : Memory}
    (hreturns : Returns k m.cpu (peekReg m regs .current reg) s status s') :
    GetsPath k m regs reg s ↔ (0 ≤ status ∧ status < pathMax ↔
      ∃ length < pathMax, k.EndsAt s.bytes (peekReg m regs .current reg) length) := by
  obtain ⟨result, s'', hrun, hlength, haccepted⟩ := getSysargPath_of_returns hbuffer h hreturns
  rw [← haccepted]
  constructor
  · rintro ⟨result', s₁, hrun', -, hmeant⟩
    rw [hrun] at hrun'
    obtain ⟨hresult, -⟩ := Prod.mk.inj hrun'
    rw [Except.ok.inj hresult]
    exact hmeant h
  · exact fun hmeant => ⟨result, s'', hrun, hlength, fun _ => hmeant⟩

/-- The sizes of paths are kept by the conversion to an `int`. -/
theorem intOf_pathSize {n : ℕ} (h : n ≤ pathMax + 1) : intOf ↑n = ↑n := by
  unfold pathMax at h
  simp only [intOf, Int.bmod]
  omega

/-- A path is copied as it is meant to be exactly if the argument is null, or the path that ends
within the buffer is read and leaves its last byte free. -/
theorem getsPath_iff (hbuffer : s.buffer.length = pathMax) :
    GetsPath k m regs reg s ↔ peekReg m regs .current reg = 0 ∨
      ∀ length < pathMax, k.EndsAt s.bytes (peekReg m regs .current reg) length →
        k.Reaches m.cpu (peekReg m regs .current reg) length s ∧ length + 1 ≠ pathMax := by
  by_cases hnull : peekReg m regs .current reg = 0
  · exact iff_of_true (getsPath_null hbuffer hnull) (Or.inl hnull)
  rw [or_iff_right hnull]
  have hrefused : ¬(0 ≤ -(efault : ℤ) ∧ -(efault : ℤ) < pathMax) := by decide
  rcases k.string_cases s.bytes (peekReg m regs .current reg) pathMax with
    ⟨length, hlt, hends⟩ | hbroken | hnone
  · -- The path ends within the buffer.
    have hsome : ∃ length < pathMax, k.EndsAt s.bytes (peekReg m regs .current reg) length :=
      ⟨length, hlt, hends⟩
    by_cases hreaches : k.Reaches m.cpu (peekReg m regs .current reg) length s
    · obtain ⟨s', hreturns, -⟩ := readString_reaches (hlt.trans_eq hbuffer.symm) hends hreaches
      rw [getsPath_of_returns hbuffer hnull hreturns, iff_true_right hsome,
        intOf_pathSize (Nat.succ_le_succ (Nat.le_of_lt hlt))]
      constructor
      · rintro ⟨-, hfits⟩ length' - hends'
        rw [hends'.unique hends]
        exact ⟨hreaches, Nat.ne_of_lt (Int.ofNat_lt.mp hfits)⟩
      · intro hfits
        have hfree := (hfits length hlt hends).2
        omega
    · obtain ⟨s', hreturns⟩ := readString_misses (hlt.trans_eq hbuffer.symm) hends hreaches
      rw [getsPath_of_returns hbuffer hnull hreturns]
      exact iff_of_false (fun hmeant => hrefused (hmeant.mpr hsome))
        fun hfits => hreaches (hfits length hlt hends).1
  · -- A byte that is needed is not accessible.
    obtain ⟨s', hreturns⟩ := readString_broken (s := s) m.cpu (hbuffer.symm ▸ hbroken)
    rw [getsPath_of_returns hbuffer hnull hreturns]
    exact iff_of_true
      (iff_of_false hrefused fun ⟨_, _, hends⟩ => hends.not_broken hbroken)
      fun _ _ hends => absurd hbroken hends.not_broken
  · -- The path is longer than the buffer.
    have hnever : ∀ length < pathMax,
        ¬k.EndsAt s.bytes (peekReg m regs .current reg) length :=
      fun _ hlt hends => hends.not_unterminated hlt hnone
    have hpos : 0 < s.buffer.length := by rw [hbuffer]; decide
    have hnone' : k.Unterminated s.bytes (peekReg m regs .current reg) s.buffer.length :=
      hbuffer.symm ▸ hnone
    refine iff_of_true ?_ fun length hlt hends => absurd hends (hnever length hlt)
    by_cases hover : k.Overruns m.cpu (peekReg m regs .current reg) s
    · obtain ⟨s', hreturns⟩ := readString_overruns hpos hnone' hover
      rw [getsPath_of_returns hbuffer hnull hreturns, hbuffer, intOf_pathSize (Nat.le_refl _)]
      exact iff_of_false (fun hfits => absurd hfits.2 (by omega))
        fun ⟨length, hlt, hends⟩ => hnever length hlt hends
    · obtain ⟨s', hreturns⟩ := readString_stays m.cpu hpos hnone' hover
      rw [getsPath_of_returns hbuffer hnull hreturns]
      exact iff_of_false hrefused fun ⟨length, hlt, hends⟩ => hnever length hlt hends

end Paths

/-! ## Both -/

section Both

variable {k : Kernel} {m : Mode} {regs : Regs} {reg : Reg} {s p : Memory}

/-- When a string and when a path is copied as it is meant to be. -/
theorem sysargStrings_iff (hpos : 0 < s.buffer.length) (hbuffer : p.buffer.length = pathMax) :
    (GetsString k m regs reg s ↔ peekReg m regs .current reg = 0 ∨
      (∀ length < s.buffer.length,
        k.EndsAt s.bytes (peekReg m regs .current reg) length →
        k.Reaches m.cpu (peekReg m regs .current reg) length s →
          intOf ↑(length + 1) < s.buffer.length) ∧
      (k.Unterminated s.bytes (peekReg m regs .current reg) s.buffer.length →
        k.Overruns m.cpu (peekReg m regs .current reg) s →
          intOf ↑(s.buffer.length + 1) < s.buffer.length)) ∧
    (GetsPath k m regs reg p ↔ peekReg m regs .current reg = 0 ∨
      ∀ length < pathMax, k.EndsAt p.bytes (peekReg m regs .current reg) length →
        k.Reaches m.cpu (peekReg m regs .current reg) length p ∧ length + 1 ≠ pathMax) :=
  ⟨getsString_iff hpos, getsPath_iff hbuffer⟩

/-- The registers of a 32-bit processor whose arguments point to address 16. -/
def pointerRegs : Regs := ⟨fun _ => 16, fun _ => 0, fun _ => 0, false, false⟩

/-- Two characters and a terminator at address 16, and a buffer. -/
def pointedString (size : ℕ) : Memory :=
  ⟨fun a => if a = 18 then 0 else 1, List.replicate size 0, 0, 0⟩

/-- The argument points to the string. -/
theorem pointerRegs_sysarg2 : peekReg ⟨.armEabi, false⟩ pointerRegs .current .sysarg2 = 16 := by
  decide

/-- The string ends there. -/
theorem pointedString_ends (size : ℕ) : onePage.EndsAt (pointedString size).bytes 16 2 := by
  refine ⟨by decide, rfl, fun j hj => ?_⟩
  have hbyte : (pointedString size).bytes (16 + j) = 1 := if_neg (by omega)
  rw [hbyte]
  decide

/-- A string and a path that are shorter than the buffer are copied. -/
theorem sysargStrings_shorter :
    GetsString onePage ⟨.armEabi, false⟩ pointerRegs .sysarg2 (pointedString 8) ∧
      GetsPath onePage ⟨.armEabi, false⟩ pointerRegs .sysarg2 (pointedString pathMax) := by
  have hiff := @sysargStrings_iff onePage ⟨.armEabi, false⟩ pointerRegs .sysarg2 (pointedString 8)
    (pointedString pathMax) (by decide) List.length_replicate
  rw [pointerRegs_sysarg2] at hiff
  have hends := pointedString_ends 8
  have hends' := pointedString_ends pathMax
  refine ⟨hiff.1.mpr (Or.inr ⟨fun length _ hends₁ _ => ?_, fun hnone => ?_⟩),
    hiff.2.mpr (Or.inr fun length _ hends₁ => ?_)⟩
  · rw [hends₁.unique hends]
    decide
  · exact absurd hnone (hends.not_unterminated (by decide))
  · rw [hends₁.unique hends']
    refine ⟨Or.inl ?_, by decide⟩
    rw [show (pointedString pathMax).buffer.length = pathMax from List.length_replicate]
    rfl

/-- The terminator of a string that fills the buffer is stored behind it. -/
theorem getsString_filled :
    ¬GetsString onePage ⟨.armEabi, false⟩ pointerRegs .sysarg2 (pointedString 3) := by
  have hends := pointedString_ends 3
  have hreaches : onePage.Reaches .armEabi 16 2 (pointedString 3) := Or.inl rfl
  obtain ⟨s', hreturns, -⟩ := readString_reaches (by decide) hends hreaches
  intro hgets
  have hsome : peekReg ⟨.armEabi, false⟩ pointerRegs .current .sysarg2 ≠ 0 := by decide
  rw [← pointerRegs_sysarg2] at hreturns
  have hin := (getsString_of_returns hsome hreturns).mp hgets
  exact absurd hin (by decide)

end Both

end Abyss
