import Abyss.Execve.Enter

/-!
# The program headers

The program headers of an ELF file are read one after the other, and a callback is invoked for each
of them. The offset of the first is sought before; it is kept as an `int`, and one that is negative
then is taken for an error, whose number is whatever `errno` happens to hold.

The status tells whether all headers were seen unless that number is zero, or unless the offset does
not fit the type for offsets on the 32-bit processor.
-/

namespace Abyss.Execve

open Bytes

/-- An offset as an `off_t`, which has the size of a word. -/
def offT (cpu : Cpu) (offset : ℕ) : ℤ := (BitVec.ofNat cpu.wordBits offset).toInt

/-- The file has this content, of which a read returns some of the first bytes; an offset that was
sought is the one that was asked for, and an error has a number. -/
structure File.Holds (cpu : Cpu) (content : List Byte) (file : File) : Prop where
  pread_ok : ∀ offset size bytes, file.pread offset size = .ok bytes →
    bytes <+: (content.drop offset).take size
  pread_error : ∀ offset size errno, file.pread offset size = .error errno → 0 < errno
  lseek_ok : ∀ offset sought, file.lseek offset = .ok sought → (sought : ℤ) = offT cpu offset
  lseek_error : ∀ offset errno, file.lseek offset = .error errno → 0 < errno

/-- What an iteration returns, what it makes of the data, and the headers for which the callback was
invoked with the statuses it returned. -/
structure Iteration (σ : Type) where
  status : ℤ
  data : σ
  calls : List (List Byte × ℤ)

section Iteration

variable {σ : Type} (callback : ElfHeader → List Byte → σ → ℤ × σ) (file : File) (elf : ElfHeader)

/-- Invoke the callback for the program headers from an offset on. -/
def invokeFrom : ℕ → ℕ → σ → Iteration σ
  | 0, _, data => ⟨0, data, []⟩
  | n + 1, offset, data =>
    match file.pread offset elf.phentsize with
    | .error errno => ⟨-errno, data, []⟩
    | .ok bytes =>
      if bytes.length ≠ elf.phentsize then ⟨-enotsup, data, []⟩
      else
        let (status, data) := callback elf bytes data
        if status ≠ 0 then ⟨status, data, [(bytes, status)]⟩
        else
          let rest := invokeFrom n (offset + elf.phentsize) data
          { rest with calls := (bytes, status) :: rest.calls }

/-- Invoke the callback for each program header, with what is in `errno` before. -/
def iterateWith (errno : ℤ) (data : σ) : Iteration σ :=
  if elf.phnum ≥ 0xffff then ⟨-enotsup, data, []⟩
  else if !knownPhentsize elf then ⟨-enotsup, data, []⟩
  else
    match file.lseek elf.phoff with
    | .error errno => ⟨-errno, data, []⟩
    | .ok offset =>
      if intOf offset < 0 then ⟨-errno, data, []⟩
      else invokeFrom callback file elf elf.phnum offset data

end Iteration

/-- The headers of a size that are stored at an offset, if there are so many. -/
def storedHeaders (content : List Byte) (size : ℕ) : ℕ → ℕ → Option (List (List Byte))
  | 0, _ => some []
  | n + 1, offset =>
    if ((content.drop offset).take size).length = size then
      (storedHeaders content size n (offset + size)).map ((content.drop offset).take size :: ·)
    else none

/-- An iteration that returns zero has invoked the callback on the headers that are stored at the
offset of the table, in order, and each call has returned zero. -/
def Iteration.Seen {σ : Type} (content : List Byte) (elf : ElfHeader) (it : Iteration σ) : Prop :=
  it.status = 0 →
    storedHeaders content elf.phentsize elf.phnum elf.phoff = some (it.calls.map Prod.fst) ∧
      ∀ call ∈ it.calls, call.2 = 0

/-! ## The headers that are read -/

section Reading

variable {σ : Type} {callback : ElfHeader → List Byte → σ → ℤ × σ} {cpu : Cpu} {content : List Byte}
  {file : File} {elf : ElfHeader}

/-- A read of the full size returns what is stored. -/
theorem File.Holds.pread_full (h : file.Holds cpu content) {offset size : ℕ} {bytes : List Byte}
    (hread : file.pread offset size = .ok bytes) (hlength : bytes.length = size) :
    bytes = (content.drop offset).take size := by
  have hpre := h.pread_ok _ _ _ hread
  refine hpre.eq_of_length (le_antisymm hpre.length_le ?_)
  rw [hlength]
  exact List.length_take_le _ _

/-- Headers that were all seen are stored. -/
theorem invokeFrom_stored (h : file.Holds cpu content) {n offset : ℕ} {data : σ}
    (hstatus : (invokeFrom callback file elf n offset data).status = 0) :
    storedHeaders content elf.phentsize n offset =
        some ((invokeFrom callback file elf n offset data).calls.map Prod.fst) ∧
      ∀ call ∈ (invokeFrom callback file elf n offset data).calls, call.2 = 0 := by
  induction n generalizing offset data with
  | zero => exact ⟨rfl, fun _ h => nomatch h⟩
  | succ n ih =>
    rw [invokeFrom] at hstatus ⊢
    cases hread : file.pread offset elf.phentsize with
    | error errno =>
      rw [hread] at hstatus
      have hpositive := h.pread_error _ _ _ hread
      exact absurd hstatus (by change ¬-errno = 0; omega)
    | ok bytes =>
      rw [hread] at hstatus
      dsimp only at hstatus ⊢
      by_cases hlength : bytes.length = elf.phentsize
      · rw [if_neg (not_not.mpr hlength)] at hstatus ⊢
        have hstored := h.pread_full hread hlength
        by_cases hcall : (callback elf bytes data).1 = 0
        · rw [if_neg (not_not.mpr hcall)] at hstatus ⊢
          obtain ⟨hrest, hzero⟩ := ih hstatus
          rw [storedHeaders, ← hstored, if_pos hlength, hrest]
          exact ⟨rfl, List.forall_mem_cons.mpr ⟨hcall, hzero⟩⟩
        · rw [if_pos hcall] at hstatus
          exact absurd hstatus hcall
      · rw [if_pos hlength] at hstatus
        exact absurd hstatus (by change ¬-enotsup = 0; decide)

/-- A file that is always read in full. -/
def File.ofContent (cpu : Cpu) (content : List Byte) : File where
  pread offset size := .ok ((content.drop offset).take size)
  lseek offset := if 0 ≤ offT cpu offset then .ok (offT cpu offset).toNat else .error einval

/-- It has this content. -/
theorem File.ofContent_holds (cpu : Cpu) (content : List Byte) :
    (File.ofContent cpu content).Holds cpu content where
  pread_ok offset size bytes hread := by
    obtain rfl := Except.ok.inj hread
    exact List.prefix_refl _
  pread_error offset size errno hread := nomatch hread
  lseek_ok offset sought hsought := by
    simp only [File.ofContent] at hsought
    split at hsought
    · obtain rfl := Except.ok.inj hsought
      omega
    · cases hsought
  lseek_error offset errno hsought := by
    simp only [File.ofContent] at hsought
    split at hsought
    · cases hsought
    · obtain rfl := Except.error.inj hsought
      decide

/-- Stored headers are all seen, if each call returns zero. -/
theorem invokeFrom_ofContent {n offset : ℕ} {headers : List (List Byte)}
    (h : storedHeaders content elf.phentsize n offset = some headers) :
    invokeFrom (fun _ _ data => (0, data)) (File.ofContent cpu content) elf n offset () =
      ⟨0, (), headers.map (·, 0)⟩ := by
  induction n generalizing offset headers with
  | zero =>
    obtain rfl := Option.some.inj h
    rfl
  | succ n ih =>
    rw [storedHeaders] at h
    split at h
    · rename_i hlength
      obtain ⟨rest, hrest, rfl⟩ := Option.map_eq_some_iff.mp h
      rw [invokeFrom]
      change (if ((content.drop offset).take elf.phentsize).length ≠ elf.phentsize then _ else _) = _
      rw [if_neg (not_not.mpr hlength)]
      dsimp only
      rw [if_neg (by decide), ih hrest]
      rfl
    · cases h

end Reading

/-! ## When the status can be trusted -/

/-- The table is empty or not supported, its offset cannot be sought, or else: an offset that is
negative as an `int` meets a number in `errno`, and the same headers, or too few, are stored at the
offset that is sought. -/
def TrustedTable (cpu : Cpu) (errno : ℤ) (content : List Byte) (elf : ElfHeader) : Prop :=
  elf.phnum = 0 ∨ 0xffff ≤ elf.phnum ∨ knownPhentsize elf = false ∨ offT cpu elf.phoff < 0 ∨
    if intOf (offT cpu elf.phoff) < 0 then errno ≠ 0
    else ∀ headers,
      storedHeaders content elf.phentsize elf.phnum (offT cpu elf.phoff).toNat = some headers →
        storedHeaders content elf.phentsize elf.phnum elf.phoff = some headers

section Trusted

variable {cpu : Cpu} {errno : ℤ} {content : List Byte} {elf : ElfHeader}

/-- The status for a table that can be trusted. -/
theorem iterateWith_seen (h : TrustedTable cpu errno content elf) {file : File}
    (hfile : file.Holds cpu content) {σ : Type} (callback : ElfHeader → List Byte → σ → ℤ × σ)
    (data : σ) : (iterateWith callback file elf errno data).Seen content elf := by
  intro hstatus
  unfold iterateWith at hstatus ⊢
  split_ifs at hstatus ⊢ with hmany hsize
  · exact absurd hstatus (by change ¬-enotsup = 0; decide)
  · exact absurd hstatus (by change ¬-enotsup = 0; decide)
  · cases hseek : file.lseek elf.phoff with
    | error errno =>
      rw [hseek] at hstatus
      have hpositive := hfile.lseek_error _ _ hseek
      exact absurd hstatus (by change ¬-errno = 0; omega)
    | ok offset =>
      rw [hseek] at hstatus
      dsimp only at hstatus ⊢
      have hoffset := hfile.lseek_ok _ _ hseek
      rcases h with hnone | hmany' | hsize' | hnegative | htable
      · split_ifs at hstatus ⊢
        · rw [hnone]
          exact ⟨rfl, fun _ h => nomatch h⟩
        · rw [hnone]
          exact ⟨rfl, fun _ h => nomatch h⟩
      · omega
      · simp [hsize'] at hsize
      · omega
      · rw [← hoffset] at htable
        split_ifs at hstatus htable ⊢
        · exact absurd hstatus (by change ¬-errno = 0; omega)
        · obtain ⟨hstored, hzero⟩ := invokeFrom_stored hfile hstatus
          exact ⟨htable _ hstored, hzero⟩

/-- The status of an iteration is zero only if the callback was invoked on exactly the stored
headers, for every file of this content and every callback, exactly for a table that can be trusted.
-/
theorem iterateWith_seen_iff :
    (∀ file : File, file.Holds cpu content → ∀ (σ : Type)
        (callback : ElfHeader → List Byte → σ → ℤ × σ) (data : σ),
        (iterateWith callback file elf errno data).Seen content elf) ↔
      TrustedTable cpu errno content elf := by
  refine ⟨fun hseen => ?_, fun h file hfile σ callback data => iterateWith_seen h hfile callback data⟩
  have hzero := hseen _ (File.ofContent_holds cpu content) Unit (fun _ _ data => (0, data)) ()
  by_contra hnot
  unfold TrustedTable at hnot
  push Not at hnot
  obtain ⟨hsome, hfew, hsize, hoffset, htable⟩ := hnot
  have hseek : (File.ofContent cpu content).lseek elf.phoff =
      .ok (offT cpu elf.phoff).toNat := if_pos hoffset
  have hiterate : iterateWith (fun _ _ data => (0, data)) (File.ofContent cpu content) elf errno () =
      if intOf (offT cpu elf.phoff) < 0 then ⟨-errno, (), []⟩
      else invokeFrom (fun _ _ data => (0, data)) (File.ofContent cpu content) elf elf.phnum
        (offT cpu elf.phoff).toNat () := by
    unfold iterateWith
    rw [if_neg (by omega), if_neg (by simpa using hsize), hseek]
    dsimp only
    rw [Int.toNat_of_nonneg hoffset]
  unfold Iteration.Seen at hzero
  rw [hiterate] at hzero
  split_ifs at hzero htable
  · -- The callback was not invoked, though there are headers.
    obtain ⟨hstored, -⟩ := hzero (by rw [not_not.mp htable]; rfl)
    obtain ⟨n, hn⟩ := Nat.exists_eq_succ_of_ne_zero hsome
    rw [hn, storedHeaders] at hstored
    split at hstored
    · obtain ⟨rest, -, hcons⟩ := Option.map_eq_some_iff.mp hstored
      cases hcons
    · cases hstored
  · push Not at htable
    obtain ⟨headers, hstored, hother⟩ := htable
    rw [invokeFrom_ofContent hstored] at hzero
    refine hother ((hzero rfl).1.trans ?_)
    simp [Function.comp_def]

/-- A table at 2 GiB is taken for an empty one. -/
theorem farTable_notSeen : ∃ (file : File) (elf : ElfHeader),
    file.Holds .arm64 [] ∧ elf.phoff = 2 ^ 31 ∧
      ¬(iterateWith (fun _ _ data => (0, data)) file elf 0 ()).Seen [] elf := by
  refine ⟨File.ofContent .arm64 [], ⟨true, etExec, 2 ^ 31, 56, 1⟩, File.ofContent_holds _ _, rfl, ?_⟩
  intro hseen
  exact absurd (hseen (by decide)).1 (by decide)

end Trusted

end Abyss.Execve
