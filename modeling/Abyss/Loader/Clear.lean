import Abyss.Tracee.Mem

/-!
# Clearing memory in the loader

The loader clears the rest of the last page of a file mapping, word by word where it can. The
first and the last bytes, which do not fill a word, are cleared one by one. The two bounds of the
words are rounded up and down; they cross when the range lies within a word.
-/

namespace Abyss.Loader

open Bytes

/-- `while (cursor < bound) *cursor++ = 0`, over bytes. -/
def clearBytes (mem : ℕ → Byte) (cursor bound : ℕ) : ℕ → Byte :=
  if cursor < bound then clearBytes (splice mem cursor [0]) (cursor + 1) bound else mem
termination_by bound - cursor

/-- `while (cursor < bound) *cursor++ = 0`, over words. -/
def clearWords (cpu : Cpu) (mem : ℕ → Byte) (cursor bound : ℕ) : ℕ → Byte :=
  if cursor < bound then
    clearWords cpu (splice mem cursor (List.replicate cpu.wordBytes 0)) (cursor + cpu.wordBytes)
      bound
  else mem
termination_by bound - cursor
decreasing_by
  have := Cpu.wordBytes_pos cpu
  omega

/-- The first address from `start` on that is a multiple of the size of a word. -/
def startAligned {cpu : Cpu} (start : cpu.Word) : cpu.Word :=
  let startBytes := start % BitVec.ofNat _ cpu.wordBytes
  if startBytes ≠ 0 then start + BitVec.ofNat _ cpu.wordBytes - startBytes else start

/-- The last address up to `bound` that is a multiple of the size of a word. -/
def endAligned {cpu : Cpu} (bound : cpu.Word) : cpu.Word :=
  bound - bound % BitVec.ofNat _ cpu.wordBytes

/-- Clear the memory from `start` (inclusive) to `bound` (exclusive). -/
def clear {cpu : Cpu} (mem : ℕ → Byte) (start bound : cpu.Word) : ℕ → Byte :=
  let mem := clearBytes mem start.toNat (startAligned start).toNat
  let mem := clearWords cpu mem (startAligned start).toNat (endAligned bound).toNat
  clearBytes mem (endAligned bound).toNat bound.toNat

/-! ## The loops -/

section Loops

variable {cpu : Cpu} {mem : ℕ → Byte} {cursor bound a : ℕ}

/-- The loop over bytes clears the bytes between its bounds. -/
theorem clearBytes_apply (mem : ℕ → Byte) (cursor bound a : ℕ) :
    clearBytes mem cursor bound a = if cursor ≤ a ∧ a < bound then 0 else mem a := by
  fun_induction clearBytes mem cursor bound with
  | case1 mem cursor hlt ih =>
    rw [ih]
    by_cases ha : a = cursor
    · subst a
      rw [if_neg (by omega), if_pos (by omega)]
      have hfirst : 0 < [(0 : Byte)].length := Nat.one_pos
      exact splice_of_mem hfirst
    · have hkept : splice mem cursor [(0 : Byte)] a = mem a := by
        rcases Nat.lt_or_ge a cursor with h | h
        · exact splice_of_lt h
        · exact splice_of_le (by simp; omega)
      rw [hkept]
      congr 1
      simp only [eq_iff_iff]
      omega
  | case2 mem cursor hge => rw [if_neg (by omega)]

/-- The loop over words clears the bytes between its bounds if they are multiples of the size of a
word. -/
theorem clearWords_apply (mem : ℕ → Byte) (hcursor : cpu.wordBytes ∣ cursor)
    (hbound : cpu.wordBytes ∣ bound) (a : ℕ) :
    clearWords cpu mem cursor bound a = if cursor ≤ a ∧ a < bound then 0 else mem a := by
  have hpos := Cpu.wordBytes_pos cpu
  fun_induction clearWords cpu mem cursor bound with
  | case1 mem cursor hlt ih =>
    -- A word that starts below the bound ends there at most.
    have hfits : cursor + cpu.wordBytes ≤ bound := by
      obtain ⟨k, rfl⟩ := hcursor
      obtain ⟨n, rfl⟩ := hbound
      rw [← Nat.mul_succ]
      exact Nat.mul_le_mul_left _ (Nat.lt_of_mul_lt_mul_left hlt)
    rw [ih (Nat.dvd_add hcursor (Nat.dvd_refl _))]
    have hlen : (List.replicate cpu.wordBytes (0 : Byte)).length = cpu.wordBytes :=
      List.length_replicate
    rcases Nat.lt_or_ge a cursor with hbelow | habove
    · rw [if_neg (by omega), if_neg (by omega), splice_of_lt hbelow]
    · obtain ⟨x, rfl⟩ := Nat.exists_eq_add_of_le habove
      rcases Nat.lt_or_ge x cpu.wordBytes with hx | hx
      · rw [if_neg (by omega), if_pos (by omega), splice_of_mem (by omega), List.getElem_replicate]
      · rw [splice_of_le (by omega)]
        congr 1
        simp only [eq_iff_iff]
        omega
  | case2 mem cursor hge => rw [if_neg (by omega)]

end Loops

/-! ## The bounds -/

section Bounds

variable {cpu : Cpu}

/-- The address of the word that a byte lies in. -/
def wordBase (cpu : Cpu) (address : ℕ) : ℕ := address - address % cpu.wordBytes

/-- The size of a word is a word. -/
theorem wordBytes_toNat (cpu : Cpu) :
    (BitVec.ofNat cpu.wordBits cpu.wordBytes).toNat = cpu.wordBytes := by
  cases cpu <;> rfl

/-- An aligned address is a multiple of the size of a word. -/
theorem wordBytes_dvd_wordBase (cpu : Cpu) (address : ℕ) : cpu.wordBytes ∣ wordBase cpu address :=
  Nat.dvd_sub_mod address

/-- So is the end of all addresses. -/
theorem wordBytes_dvd_two_pow (cpu : Cpu) : cpu.wordBytes ∣ 2 ^ cpu.wordBits := by
  cases cpu <;> decide

/-- The bound is rounded down to a word. -/
theorem endAligned_toNat (bound : cpu.Word) :
    (endAligned bound).toNat = wordBase cpu bound.toNat := by
  have hle := Nat.mod_le bound.toNat cpu.wordBytes
  unfold endAligned wordBase
  rw [BitVec.toNat_sub_of_le, BitVec.toNat_umod, wordBytes_toNat]
  rw [BitVec.le_def, BitVec.toNat_umod, wordBytes_toNat]
  exact hle

/-- The next word, or the word itself if the address is its own. -/
theorem startAligned_toNat (start : cpu.Word) :
    (startAligned start).toNat =
      if start.toNat % cpu.wordBytes = 0 then start.toNat
      else (wordBase cpu start.toNat + cpu.wordBytes) % 2 ^ cpu.wordBits := by
  have hbytes : (start % BitVec.ofNat cpu.wordBits cpu.wordBytes).toNat =
      start.toNat % cpu.wordBytes := by
    rw [BitVec.toNat_umod, wordBytes_toNat]
  have hzero : start % BitVec.ofNat cpu.wordBits cpu.wordBytes = 0 ↔
      start.toNat % cpu.wordBytes = 0 := by
    rw [← hbytes]
    exact ⟨fun h => by rw [h]; rfl, fun h => BitVec.eq_of_toNat_eq h⟩
  unfold startAligned
  by_cases h : start.toNat % cpu.wordBytes = 0
  · rw [if_pos h, if_neg (by simpa using hzero.mpr h)]
  · rw [if_neg h, if_pos (by simpa using fun hz => h (hzero.mp hz)), BitVec.toNat_sub,
      BitVec.toNat_add, hbytes, wordBytes_toNat, wordBase]
    have hlt := start.isLt
    have hmod := Nat.mod_lt start.toNat (Cpu.wordBytes_pos cpu)
    have hle := Nat.mod_le start.toNat cpu.wordBytes
    have hsize : cpu.wordBytes < 2 ^ cpu.wordBits := by cases cpu <;> decide
    rw [Nat.add_mod_mod, show 2 ^ cpu.wordBits - start.toNat % cpu.wordBytes +
        (start.toNat + cpu.wordBytes) = start.toNat - start.toNat % cpu.wordBytes + cpu.wordBytes +
        2 ^ cpu.wordBits by omega, Nat.add_mod_right]

/-- The last word ends at the end of the address space. -/
theorem wordBase_le (start : cpu.Word) :
    wordBase cpu start.toNat + cpu.wordBytes ≤ 2 ^ cpu.wordBits := by
  obtain ⟨n, hn⟩ := wordBytes_dvd_wordBase cpu start.toNat
  obtain ⟨k, hk⟩ := wordBytes_dvd_two_pow cpu
  have hlt : wordBase cpu start.toNat < 2 ^ cpu.wordBits :=
    Nat.lt_of_le_of_lt (Nat.sub_le ..) start.isLt
  rw [hn, hk] at hlt ⊢
  rw [← Nat.mul_succ]
  exact Nat.mul_le_mul_left _ (Nat.lt_of_mul_lt_mul_left hlt)

/-- A byte lies in its word. -/
theorem wordBase_bounds (cpu : Cpu) (address : ℕ) :
    wordBase cpu address ≤ address ∧ address < wordBase cpu address + cpu.wordBytes := by
  have hmod := Nat.mod_lt address (Cpu.wordBytes_pos cpu)
  have hle := Nat.mod_le address cpu.wordBytes
  unfold wordBase
  omega

/-- A later byte lies in the same word, or in a later one. -/
theorem wordBase_cases (cpu : Cpu) {address address' : ℕ} (h : address ≤ address') :
    wordBase cpu address' = wordBase cpu address ∨
      wordBase cpu address + cpu.wordBytes ≤ wordBase cpu address' := by
  have hbounds := wordBase_bounds cpu address
  have hbounds' := wordBase_bounds cpu address'
  obtain ⟨n, hn⟩ := wordBytes_dvd_wordBase cpu address
  obtain ⟨k, hk⟩ := wordBytes_dvd_wordBase cpu address'
  rw [hn] at hbounds ⊢
  rw [hk] at hbounds' ⊢
  rcases Nat.lt_trichotomy n k with hlt | rfl | hgt
  · refine Or.inr ?_
    rw [← Nat.mul_succ]
    exact Nat.mul_le_mul_left _ hlt
  · exact Or.inl rfl
  · have hup : cpu.wordBytes * k + cpu.wordBytes ≤ cpu.wordBytes * n := by
      rw [← Nat.mul_succ]
      exact Nat.mul_le_mul_left _ hgt
    omega

end Bounds

/-! ## What is cleared -/

section Clear

variable {cpu : Cpu} {mem : ℕ → Byte} {start bound : cpu.Word} {a : ℕ}

/-- The bytes of a range. -/
def InRange (start bound : cpu.Word) (a : ℕ) : Prop := start.toNat ≤ a ∧ a < bound.toNat

instance (start bound : cpu.Word) (a : ℕ) : Decidable (InRange start bound a) :=
  inferInstanceAs (Decidable (_ ∧ _))

/-- The bytes that are cleared beside those of the range: where the range starts and ends within a
word, the rest of this word; in the last word of all, everything before the range. -/
def Overrun (start bound : cpu.Word) (a : ℕ) : Prop :=
  start.toNat % cpu.wordBytes ≠ 0 ∧
    if wordBase cpu start.toNat + cpu.wordBytes = 2 ^ cpu.wordBits then a < start.toNat
    else bound.toNat < wordBase cpu start.toNat + cpu.wordBytes ∧ wordBase cpu start.toNat ≤ a ∧
      a < wordBase cpu start.toNat + cpu.wordBytes ∧ ¬InRange start bound a

/-- Each byte of the memory after the three loops. -/
theorem clear_apply (mem : ℕ → Byte) (start bound : cpu.Word) (a : ℕ) :
    clear mem start bound a =
      if start.toNat ≤ a ∧ a < (startAligned start).toNat ∨
          (startAligned start).toNat ≤ a ∧ a < wordBase cpu bound.toNat ∨
          wordBase cpu bound.toNat ≤ a ∧ a < bound.toNat then 0
      else mem a := by
  have hstart : cpu.wordBytes ∣ (startAligned start).toNat := by
    rw [startAligned_toNat]
    split
    · rename_i h
      exact Nat.dvd_of_mod_eq_zero h
    · rw [Nat.dvd_mod_iff (wordBytes_dvd_two_pow cpu)]
      exact Nat.dvd_add (wordBytes_dvd_wordBase ..) (Nat.dvd_refl _)
  unfold clear
  rw [endAligned_toNat, clearBytes_apply,
    clearWords_apply _ hstart (wordBytes_dvd_wordBase ..), clearBytes_apply]
  split_ifs <;> first | rfl | omega

/-- The loops clear the range and what it overruns. -/
theorem cleared_iff (h : start ≤ bound) (a : ℕ) :
    (start.toNat ≤ a ∧ a < (startAligned start).toNat ∨
        (startAligned start).toNat ≤ a ∧ a < wordBase cpu bound.toNat ∨
        wordBase cpu bound.toNat ≤ a ∧ a < bound.toNat) ↔
      InRange start bound a ∨ Overrun start bound a := by
  have hle : start.toNat ≤ bound.toNat := h
  obtain ⟨hstart, hstart'⟩ := wordBase_bounds cpu start.toNat
  obtain ⟨hbound, hbound'⟩ := wordBase_bounds cpu bound.toNat
  have hwords := wordBase_cases cpu hle
  have hlast := wordBase_le bound
  unfold Overrun InRange
  rw [startAligned_toNat]
  by_cases haligned : start.toNat % cpu.wordBytes = 0
  · have hbase : wordBase cpu start.toNat = start.toNat := by
      rw [wordBase, haligned, Nat.sub_zero]
    simp only [haligned, if_true, ne_eq, not_true_eq_false, false_and, or_false]
    omega
  · rw [if_neg haligned]
    simp only [ne_eq, haligned, not_false_eq_true, true_and]
    by_cases hwrap : wordBase cpu start.toNat + cpu.wordBytes = 2 ^ cpu.wordBits
    · -- The first bound is rounded up to zero.
      rw [if_pos hwrap, hwrap, Nat.mod_self]
      omega
    · have hlt : wordBase cpu start.toNat + cpu.wordBytes < 2 ^ cpu.wordBits :=
        Nat.lt_of_le_of_ne (wordBase_le start) hwrap
      rw [if_neg hwrap, Nat.mod_eq_of_lt hlt]
      omega

/-- Exactly the range is cleared exactly if the bytes that it overruns are zero anyway. -/
theorem clear_exact_iff (h : start ≤ bound) :
    (∀ a, clear mem start bound a = if InRange start bound a then 0 else mem a) ↔
      ∀ a, Overrun start bound a → mem a = 0 := by
  constructor
  · intro hexact a ha
    have hnot : ¬InRange start bound a := by
      obtain ⟨-, ha⟩ := ha
      split at ha
      · exact fun hin => absurd ha (Nat.not_lt_of_le hin.1)
      · exact ha.2.2.2
    have hcleared := hexact a
    rw [clear_apply, if_pos ((cleared_iff h a).mpr (Or.inr ha)), if_neg hnot] at hcleared
    exact hcleared.symm
  · intro hzero a
    rw [clear_apply]
    by_cases hin : InRange start bound a
    · rw [if_pos ((cleared_iff h a).mpr (Or.inl hin)), if_pos hin]
    · rw [if_neg hin]
      split
      · rename_i hcleared
        exact (hzero a (((cleared_iff h a).mp hcleared).resolve_left hin)).symm
      · rfl

/-- A range that ends with a word does not overrun. -/
theorem not_overrun (h : start ≤ bound) (hbound : cpu.wordBytes ∣ bound.toNat) (a : ℕ) :
    ¬Overrun start bound a := by
  rintro ⟨hmisaligned, hover⟩
  have hle : start.toNat ≤ bound.toNat := h
  have hbase : wordBase cpu bound.toNat = bound.toNat := by
    rw [wordBase, Nat.mod_eq_zero_of_dvd hbound, Nat.sub_zero]
  have hstart := wordBase_bounds cpu start.toNat
  have hlt : start.toNat < bound.toNat := by
    refine Nat.lt_of_le_of_ne hle fun heq => hmisaligned ?_
    rw [heq]
    exact Nat.mod_eq_zero_of_dvd hbound
  rcases wordBase_cases cpu hle with hsame | hlater
  · omega
  · have hlast := bound.isLt
    rw [if_neg (by omega)] at hover
    omega

/-- A range that ends with a word is all that is cleared. -/
theorem clear_exact (h : start ≤ bound) (hbound : cpu.wordBytes ∣ bound.toNat) (a : ℕ) :
    clear mem start bound a = if InRange start bound a then 0 else mem a :=
  (clear_exact_iff h).mpr (fun a ha => absurd ha (not_overrun h hbound a)) a

end Clear

/-- A byte is cleared alone if the other bytes of its word are zero already. -/
theorem clear_exact_iff_zeroWord :
    @clear .arm64 (fun a => if a = 3 then 1 else 0) 3 4 = fun _ => 0 := by
  funext a
  have hexact := (@clear_exact_iff .arm64 (fun a => if a = 3 then 1 else 0) 3 4
    (by decide)).mpr ?_ a
  · by_cases ha : a = 3
    · rw [hexact, if_pos]
      subst a
      decide
    · rw [hexact, if_neg ha, ite_self]
  · rintro b ⟨-, hb⟩
    rw [if_neg (by decide)] at hb
    refine if_neg fun heq => hb.2.2.2 ?_
    subst heq
    decide

/-- A byte of a word is cleared with all bytes of the word. -/
theorem clear_wholeWord : ¬∀ (cpu : Cpu) (mem : ℕ → Byte) (start bound : cpu.Word), start ≤ bound →
    ∀ a, clear mem start bound a = if InRange start bound a then 0 else mem a := by
  intro hexact
  have hkept := (clear_exact_iff (by decide)).mp
    (hexact .arm64 (fun _ => 1) 0x10001 0x10002 (by decide)) 0x10000
  exact absurd (hkept ⟨by decide, by decide⟩) (by decide)

end Abyss.Loader
