import Abyss.Tracee.MemString

/-!
# What the transfers leave alone

A write changes at most the bytes of its block, also if it fails on the way, and it only reports
success when all of them were written. The last word is written as a whole, with the bytes behind
the block as they were read before. Reading changes the buffer of the tracer and `errno`, and nothing
of the tracee.
-/

namespace Abyss

open Machine Bytes

/-- A memory is another one up to a range; the buffer is the same. -/
structure Outside (s : Memory) (a n : ℕ) (s' : Memory) : Prop where
  bytes : ∀ x, x < a ∨ a + n ≤ x → s'.bytes x = s.bytes x
  buffer : s'.buffer = s.buffer

section Writing

variable {k : Kernel} {cpu : Cpu} {s : Memory} {dest n i trailing : ℕ} {data : List Byte}

/-- Nothing is changed outside of the range. -/
theorem Outside.refl (s : Memory) (a n : ℕ) : Outside s a n s := ⟨fun _ _ => rfl, rfl⟩

/-- More bytes of the range may be changed. -/
theorem Outside.splice {s' : Memory} {a b : ℕ} (h : Outside s a n s') (hlow : a ≤ b)
    (hhigh : b + data.length ≤ a + n) (calls errno : ℕ) :
    Outside s a n { s' with bytes := splice s'.bytes b data, calls, errno } := by
  refine ⟨fun x hx => ?_, h.buffer⟩
  rcases hx with hbefore | hbehind
  · exact (splice_of_lt (by omega)).trans (h.bytes x (Or.inl hbefore))
  · exact (splice_of_le (by omega)).trans (h.bytes x (Or.inr hbehind))

/-- A word of the range is written, or nothing is. -/
theorem ptracePokeData_outside {a b : ℕ} (word : cpu.Word) (hlow : a ≤ b)
    (hhigh : b + cpu.wordBytes ≤ a + n) :
    Keeps (Outside s a n) (fun _ _ => False) (ptracePokeData k cpu b word) := by
  intro s' hs'
  by_cases hgrants : k.Grants b cpu.wordBytes
  · apply Triple.of_ok (ptracePokeData_granted hgrants)
    exact hs'.splice hlow (by rwa [bytesOf_length]) s'.calls s'.errno
  · exact Triple.of_ok (ptracePokeData_refused hgrants) ⟨hs'.bytes, hs'.buffer⟩

/-- A write does not change what is outside of its range. -/
theorem processVmWritev_outside :
    Keeps (Outside s dest data.length) (fun _ _ => False) (processVmWritev k dest data) := by
  intro s' hs'
  apply Triple.of_ok (processVmWritev_apply k s' dest data)
  apply hs'.splice (Nat.le_refl dest)
  rw [List.length_take]
  exact Nat.add_le_add_left (Nat.min_le_right ..) dest

/-- Nor do words that are written one after the other. -/
theorem writeWords_outside (hlen : (i + n) * cpu.wordBytes ≤ data.length) :
    Keeps (Outside s dest data.length) (fun _ _ => False) (writeWords k cpu dest data n i) := by
  induction n generalizing i with
  | zero => exact Keeps.pure 0
  | succ n ih =>
    have hword : i * cpu.wordBytes + cpu.wordBytes ≤ data.length := by
      rw [← Nat.succ_mul]
      exact Nat.le_trans (Nat.mul_le_mul_right _ (by omega)) hlen
    have hpoke := @ptracePokeData_outside k cpu s data.length dest (dest + i * cpu.wordBytes)
      (loadWord cpu data (i * cpu.wordBytes)) (Nat.le_add_right ..) (by omega)
    apply Keeps.bind hpoke
    intro status
    apply Keeps.ite (fun _ => Keeps.pure _)
    intro _
    exact ih (by rwa [Nat.add_assoc, Nat.add_comm 1 n])

/-- The bytes behind the block are written back as they were read. -/
theorem writeTrailing_outside (hlen : i * cpu.wordBytes + trailing = data.length)
    (htrailing : trailing ≤ cpu.wordBytes) :
    Keeps (Outside s dest data.length) (fun _ _ => False)
      (writeTrailing k cpu dest data trailing i) := by
  intro s' hs'
  by_cases hgrants : k.Grants (dest + i * cpu.wordBytes) cpu.wordBytes
  · by_cases herrno : s'.errno = 0
    · apply Triple.of_ok (writeTrailing_granted hlen htrailing herrno hgrants)
      apply hs'.splice (Nat.le_add_right ..)
      rw [List.length_drop]
      omega
    · have hrun : writeTrailing k cpu dest data trailing i s' = (.ok (-efault), s') := by
        rw [writeTrailing, bind_apply_ok (ptracePeekData_granted hgrants),
          bind_apply_ok (read_apply s'), if_pos herrno]
        rfl
      exact Triple.of_ok hrun hs'
  · have hrun : writeTrailing k cpu dest data trailing i s' =
        (.ok (-efault), { s' with errno := k.fault (dest + i * cpu.wordBytes) }) := by
      rw [writeTrailing, bind_apply_ok (ptracePeekData_refused hgrants),
        bind_apply_ok (read_apply _), if_pos (k.fault_ne_zero _)]
      rfl
    exact Triple.of_ok hrun ⟨hs'.bytes, hs'.buffer⟩

/-- Nor do the words and the rest. -/
theorem writeByWords_outside :
    Keeps (Outside s dest data.length) (fun _ _ => False) (writeByWords k cpu dest data) := by
  have hsplit := Nat.div_add_mod' data.length cpu.wordBytes
  have hmod := Nat.mod_lt data.length cpu.wordBytes_pos
  unfold writeByWords
  dsimp only
  rw [full_eq]
  apply Keeps.bind (writeWords_outside (by rw [Nat.zero_add]; omega))
  intro status
  apply Keeps.ite (fun _ => Keeps.pure _)
  intro _
  apply Keeps.ite (fun _ => Keeps.pure _)
  intro _
  exact writeTrailing_outside hsplit hmod.le

/-- Nor does it to write data in whatever way. -/
theorem writeData_outside :
    Keeps (Outside s dest data.length) (fun _ _ => False) (writeData k cpu dest data) := by
  apply Keeps.bind processVmWritev_outside
  intro status
  apply Keeps.ite (fun _ => Keeps.pure _)
  intro _
  exact writeByWords_outside

/-- A write fails, or all bytes of the block were accessible and are written; outside of the block
nothing changes. -/
theorem writeData_outcome (k : Kernel) (s : Memory) (dest : ℕ)
    (hsize : data.length < 2 ^ (cpu.wordBits - 1)) :
    ∃ status s', writeData k cpu dest data s = (.ok status, s') ∧
      Outside s dest data.length s' ∧
      (status = -(efault : ℤ) ∨
        status = 0 ∧ k.Grants dest data.length ∧ s'.bytes = splice s.bytes dest data) := by
  by_cases hfits : k.Grants dest data.length ∧ k.WriteFits cpu dest data.length s.calls s.errno
  · have hrun := writeData_fits hsize hfits.1 hfits.2
    have houtside := (writeData_outside s (Outside.refl s dest data.length)).1 _ _ hrun
    exact ⟨_, _, hrun, houtside, Or.inr ⟨rfl, hfits.1, rfl⟩⟩
  · obtain ⟨s', hrun⟩ := writeData_fails hsize hfits
    have houtside := (writeData_outside s (Outside.refl s dest data.length)).1 _ _ hrun
    exact ⟨_, s', hrun, houtside, Or.inl rfl⟩

end Writing

/-! ## Reading -/

section Reading

variable {k : Kernel} {cpu : Cpu} {bytes : ℕ → Byte}

/-- A program that leaves the memory of the tracee alone. -/
abbrev KeepsBytes {α : Type} (bytes : ℕ → Byte) (x : MemoryProg α) : Prop :=
  Keeps (fun s => s.bytes = bytes) (fun _ _ => True) x

/-- To set `errno` keeps the bytes of the tracee. -/
theorem setErrno_keepsBytes (errno : ℕ) : KeepsBytes bytes (setErrno errno) :=
  Keeps.modify fun _ h => h

/-- To store bytes in the buffer keeps them. -/
theorem storeBytes_keepsBytes (i : ℕ) (data : List Byte) : KeepsBytes bytes (storeBytes i data) := by
  apply Keeps.bind Keeps.read
  intro s
  apply Keeps.ite
  · exact fun _ => Keeps.modify fun _ h => h
  · exact fun _ => Keeps.fault fun _ _ => trivial

/-- To peek at a word keeps them. -/
theorem ptracePeekData_keepsBytes (a : ℕ) : KeepsBytes bytes (ptracePeekData k cpu a) := by
  apply Keeps.bind Keeps.read
  intro s
  apply Keeps.ite (fun _ => Keeps.pure _)
  exact fun _ => Keeps.bind (setErrno_keepsBytes _) fun _ => Keeps.pure _

/-- To receive bytes keeps them. -/
theorem receive_keepsBytes (a n i : ℕ) : KeepsBytes bytes (receive k a n i) := by
  apply Keeps.bind (fun s hs => Triple.of_ok (processVmReadv_apply k s a n) hs)
  exact fun _ => Keeps.bind (storeBytes_keepsBytes _ _) fun _ => Keeps.pure _

/-- A word is read, and what comes next depends on `errno`. -/
theorem peekThen_keepsBytes {a : ℕ} {next : cpu.Word → MemoryProg α} {failed : MemoryProg α}
    (hfailed : KeepsBytes bytes failed) (hnext : ∀ word, KeepsBytes bytes (next word)) :
    KeepsBytes bytes (do
      let word ← ptracePeekData k cpu a
      let s ← read
      if s.errno ≠ 0 then failed else next word) := by
  apply Keeps.bind (ptracePeekData_keepsBytes a)
  intro word
  apply Keeps.bind Keeps.read
  exact fun _ => Keeps.ite (fun _ => hfailed) fun _ => hnext word

/-- To read words keeps them. -/
theorem readWords_keepsBytes (src n i : ℕ) : KeepsBytes bytes (readWords k cpu src n i) := by
  induction n generalizing i with
  | zero => exact Keeps.pure 0
  | succ n ih =>
    apply peekThen_keepsBytes (Keeps.pure _)
    exact fun _ => Keeps.bind (storeBytes_keepsBytes _ _) fun _ => ih (i + 1)

/-- To read data keeps them. -/
theorem readData_keepsBytes (src size : ℕ) : KeepsBytes bytes (readData k cpu src size) := by
  apply Keeps.bind (receive_keepsBytes src size 0)
  intro status
  apply Keeps.ite (fun _ => Keeps.pure _)
  intro _
  apply Keeps.bind (readWords_keepsBytes src _ 0)
  intro status
  apply Keeps.ite (fun _ => Keeps.pure _)
  intro _
  apply Keeps.ite (fun _ => Keeps.pure _)
  intro _
  apply peekThen_keepsBytes (Keeps.pure _)
  exact fun _ => Keeps.bind (storeBytes_keepsBytes _ _) fun _ => Keeps.pure _

/-- To read chunks keeps them. -/
theorem readChunks_keepsBytes (src maxSize fuel offset : ℕ) :
    KeepsBytes bytes (readChunks k cpu src maxSize fuel offset) := by
  induction fuel generalizing offset with
  | zero => exact Keeps.fault fun _ _ => trivial
  | succ fuel ih =>
    apply Keeps.bind (receive_keepsBytes _ _ _)
    intro status
    apply Keeps.ite (fun _ => Keeps.pure _)
    intro _
    apply Keeps.bind Keeps.read
    intro s
    apply Keeps.ite
    · intro _
      exact Keeps.ite (fun _ => Keeps.pure _) fun _ => Keeps.fault fun _ _ => trivial
    intro _
    apply Keeps.ite (fun _ => ih _)
    intro _
    exact Keeps.ite (fun _ => Keeps.pure _) fun _ => Keeps.fault fun _ _ => trivial

/-- To read a string by words keeps them. -/
theorem readStringWords_keepsBytes (src n i : ℕ) :
    KeepsBytes bytes (readStringWords k cpu src n i) := by
  induction n generalizing i with
  | zero => exact Keeps.pure none
  | succ n ih =>
    apply peekThen_keepsBytes (Keeps.pure _)
    intro word
    apply Keeps.bind (storeBytes_keepsBytes _ _)
    intro _
    cases (bytesOf word cpu.wordBytes).findIdx? (· = 0) with
    | some j => exact Keeps.pure _
    | none => exact ih (i + 1)

/-- To read a string keeps them. -/
theorem readString_keepsBytes (src maxSize : ℕ) :
    KeepsBytes bytes (readString k cpu src maxSize) := by
  apply Keeps.bind (readChunks_keepsBytes src maxSize maxSize 0)
  intro status
  cases status with
  | some status => exact Keeps.pure status
  | none =>
    apply Keeps.bind (readStringWords_keepsBytes src _ 0)
    intro status
    cases status with
    | some status => exact Keeps.pure status
    | none =>
      apply peekThen_keepsBytes (Keeps.pure _)
      exact fun _ => Keeps.bind (storeBytes_keepsBytes _ _) fun _ => Keeps.pure _

end Reading

end Abyss
