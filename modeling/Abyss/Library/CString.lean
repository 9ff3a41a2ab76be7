import Abyss.Library.Bytes
import Abyss.Library.Machine

/-!
# Strings in buffers

A string has no zero in it, and is followed by one where it is kept in a buffer. A buffer is a
list of fixed length; a copy that does not fit into it faults, and so does the search for the
end of a string that has none.
-/

namespace CString

open Bytes Machine

variable {α : Type}

/-! ## Copying -/

/-- Store one character. -/
def store (i : ℕ) (c : α) : Machine (List α) Unit Unit :=
  attempt fun buffer => if i < buffer.length then some (buffer.set i c) else none

/-- `memmove` within the buffer. -/
def memmove (dest src n : ℕ) : Machine (List α) Unit Unit :=
  attempt fun buffer =>
    if src + n ≤ buffer.length ∧ dest + n ≤ buffer.length then
      some (overwrite buffer dest ((buffer.drop src).take n))
    else none

/-- `memcpy` into the buffer. -/
def memcpy (dest : ℕ) (data : List α) (n : ℕ) : Machine (List α) Unit Unit :=
  attempt fun buffer =>
    if n ≤ data.length ∧ dest + n ≤ buffer.length then
      some (overwrite buffer dest (data.take n))
    else none

/-- Store characters one after another. -/
def stores : ℕ → List α → Machine (List α) Unit Unit
  | _, [] => pure ()
  | i, c :: data => do
    store i c
    stores (i + 1) data

section Copying

variable {buffer data : List α} {i n : ℕ} {c : α}

/-- A store within the buffer. -/
theorem store_apply (h : i < buffer.length) :
    store i c buffer = (.ok (), buffer.set i c) := by
  simp only [store, attempt, if_pos h]

/-- A store behind the buffer is a fault. -/
theorem store_error (h : buffer.length ≤ i) : store i c buffer = (.error (), buffer) := by
  simp only [store, attempt, if_neg (Nat.not_lt_of_le h)]

/-- Characters that fit into the buffer are stored. -/
theorem stores_apply (h : i + data.length ≤ buffer.length) :
    stores i data buffer = (.ok (), overwrite buffer i data) := by
  induction data generalizing i buffer with
  | nil =>
    rw [stores, overwrite, List.append_nil, List.length_nil, Nat.add_zero, List.take_append_drop]
    rfl
  | cons c data ih =>
    rw [List.length_cons] at h
    have hi : i < buffer.length := by omega
    have hset : (buffer.set i c).take (i + 1) = buffer.take i ++ [c] := by
      rw [List.set_eq_take_append_cons_drop, if_pos hi, List.take_append]
      simp [Nat.min_eq_left (Nat.le_of_lt hi)]
    have hrest : (buffer.set i c).drop (i + 1 + data.length) =
        buffer.drop (i + (c :: data).length) := by
      rw [List.drop_set_of_lt (by omega), List.length_cons]
      congr 1
      omega
    rw [stores, bind_apply_ok (store_apply hi), ih (by rw [List.length_set]; omega), overwrite,
      hset, hrest, overwrite]
    simp

/-- Characters that do not fit into the buffer are not stored. -/
theorem stores_error (hdata : data ≠ []) (h : buffer.length < i + data.length) :
    ∃ buffer', stores i data buffer = (.error (), buffer') := by
  induction data generalizing i buffer with
  | nil => exact absurd rfl hdata
  | cons c data ih =>
    rw [List.length_cons] at h
    rw [stores]
    rcases Nat.lt_or_ge i buffer.length with hi | hi
    · have hmore : data ≠ [] := by
        rintro rfl
        rw [List.length_nil] at h
        omega
      rw [bind_apply_ok (store_apply hi)]
      exact ih hmore (by rw [List.length_set]; omega)
    · exact ⟨buffer, bind_apply_error (store_error hi)⟩

/-- Adjacent characters are stored one after another. -/
theorem stores_append (i : ℕ) (data rest : List α) :
    stores i (data ++ rest) = (do
      stores i data
      stores (i + data.length) rest) := by
  induction data generalizing i with
  | nil => rfl
  | cons c data ih =>
    rw [List.cons_append, stores, stores, bind_assoc, List.length_cons, ih]
    rw [show i + 1 + data.length = i + (data.length + 1) by omega]

/-- The values from an index on are moved. -/
theorem memmove_apply {dest src : ℕ} (hdata : data <+: buffer.drop src) (hsrc : src ≤ buffer.length)
    (hdest : dest + data.length ≤ buffer.length) :
    memmove dest src data.length buffer = (.ok (), overwrite buffer dest data) := by
  have hle := hdata.length_le
  rw [List.length_drop] at hle
  simp only [memmove, attempt]
  rw [if_pos ⟨by omega, hdest⟩, ← List.prefix_iff_eq_take.mp hdata]

/-- What is not in the buffer is not moved. -/
theorem memmove_error {dest src : ℕ} (h : buffer.length < src + n) :
    memmove dest src n buffer = (.error (), buffer) := by
  simp only [memmove, attempt]
  rw [if_neg fun hfits => absurd hfits.1 (Nat.not_le_of_lt h)]

/-- A copy that fits overwrites a part of the buffer. -/
theorem memcpy_apply {dest : ℕ} (hdest : dest + data.length ≤ buffer.length) :
    memcpy dest data data.length buffer = (.ok (), overwrite buffer dest data) := by
  simp only [memcpy, attempt]
  rw [if_pos ⟨Nat.le_refl _, hdest⟩, List.take_length]

/-- What is stored is there. -/
theorem prefix_overwrite (h : i + data.length ≤ buffer.length) :
    data <+: (overwrite buffer i data).drop i := by
  have htake : (buffer.take i).length = i := by
    rw [List.length_take]
    omega
  rw [overwrite, List.append_assoc, List.drop_left' htake]
  exact List.prefix_append ..

end Copying

/-! ## Strings -/

variable [Zero α]

/-- A string is in a buffer, with its terminator. -/
def Holds (buffer : List α) (i : ℕ) (s : List α) : Prop := (0 : α) ∉ s ∧ s ++ [0] <+: buffer.drop i

section Holds

variable {buffer s : List α} {i j : ℕ}

/-- The string and its terminator fit into the buffer. -/
theorem Holds.lt (h : Holds buffer i s) : i + s.length < buffer.length := by
  have hle := h.2.length_le
  rw [List.length_append, List.length_drop, List.length_singleton] at hle
  omega

/-- The end of a string is a string. -/
theorem Holds.drop (h : Holds buffer i s) (hj : j ≤ s.length) :
    Holds buffer (i + j) (s.drop j) := by
  obtain ⟨hs, rest, hrest⟩ := h
  refine ⟨fun hc => hs (List.mem_of_mem_drop hc), rest, ?_⟩
  rw [← List.drop_drop, ← hrest, List.append_assoc, List.append_assoc,
    List.drop_append_of_le_length hj]

/-- A buffer that starts with a string and a zero holds the string. -/
theorem holds_append (hs : (0 : α) ∉ s) (init rest : List α) :
    Holds (init ++ s ++ 0 :: rest) init.length s := by
  refine ⟨hs, rest, ?_⟩
  rw [List.append_assoc, List.append_assoc, List.drop_left, List.singleton_append]

/-- A buffer that holds a string is the string between what is before it and what follows. -/
theorem Holds.exists_append (h : Holds buffer i s) :
    ∃ rest, buffer = buffer.take i ++ s ++ 0 :: rest := by
  obtain ⟨-, rest, hrest⟩ := h
  refine ⟨rest, ?_⟩
  rw [List.append_assoc, ← List.singleton_append, ← List.append_assoc s, hrest,
    List.take_append_drop]

/-- A string is still held if the buffer did not change up to its end. -/
theorem Holds.of_take {buffer' : List α} {n : ℕ} (h : Holds buffer i s)
    (hn : i + s.length < n) (htake : buffer'.take n = buffer.take n) :
    Holds buffer' i s := by
  refine ⟨h.1, ?_⟩
  have hpre : ∀ b : List α, s ++ [0] <+: b.drop i ↔ s ++ [0] <+: (b.take n).drop i := by
    intro b
    have hlen : (s ++ [0]).length = s.length + 1 := by simp
    rw [List.drop_take, List.prefix_take_iff]
    exact ⟨fun hb => ⟨hb, by omega⟩, fun hb => hb.1⟩
  rw [hpre, htake, ← hpre]
  exact h.2

/-- What a buffer starts with becomes a string by a terminator behind it. -/
theorem holds_set (hs : (0 : α) ∉ s) (hpre : s <+: buffer) (hfit : s.length < buffer.length) :
    Holds (buffer.set s.length 0) 0 s := by
  obtain ⟨rest, rfl⟩ := hpre
  have hrest : rest ≠ [] := by
    rintro rfl
    simp at hfit
  obtain ⟨c, rest, rfl⟩ := List.exists_cons_of_ne_nil hrest
  rw [List.set_append_right _ _ (Nat.le_refl _), Nat.sub_self, List.set_cons_zero]
  exact holds_append hs [] rest

end Holds

/-! ## Copying strings -/

/-- `strcpy` into the buffer. -/
def strcpy (i : ℕ) (s : List α) : Machine (List α) Unit Unit := stores i (s ++ [0])

/-- `strncpy` into the buffer. -/
def strncpy (i : ℕ) (s : List α) (n : ℕ) : Machine (List α) Unit Unit :=
  stores i ((s ++ List.replicate n 0).take n)

section Strcpy

variable {buffer s : List α} {i n : ℕ}

/-- No terminator is stored behind as many characters as there are at least. -/
theorem strncpy_eq (h : n ≤ s.length) : strncpy i s n = stores i (s.take n) := by
  rw [strncpy, List.take_append_of_le_length h]

/-- A string that fits into the buffer is there afterwards. -/
theorem strcpy_apply (hs : (0 : α) ∉ s) (h : i + s.length < buffer.length) :
    ∃ buffer', strcpy i s buffer = (.ok (), buffer') ∧ Holds buffer' i s := by
  have hfit : i + (s ++ [0]).length ≤ buffer.length := by
    rw [List.length_append, List.length_singleton]
    omega
  exact ⟨_, stores_apply hfit, hs, prefix_overwrite hfit⟩

/-- There has to be room for the terminator. -/
theorem strcpy_error (h : buffer.length ≤ i + s.length) :
    ∃ buffer', strcpy i s buffer = (.error (), buffer') := by
  refine stores_error (by simp) ?_
  rw [List.length_append, List.length_singleton]
  omega

end Strcpy

/-! ## Appending -/

variable [DecidableEq α]

/-- What a buffer holds from an index up to the next zero, or else up to its end. -/
def stringAt (buffer : List α) (i : ℕ) : List α := (buffer.drop i).takeWhile fun c => c ≠ 0

/-- Append a string to the one that starts at an index. -/
def strcat (i : ℕ) (s : List α) : Machine (List α) Unit Unit :=
  attempt fun buffer =>
    let n := i + (stringAt buffer i).length
    if n + s.length < buffer.length then some (overwrite buffer n (s ++ [0])) else none

/-- Whether `strncmp` finds no difference between two strings up to a length. -/
def strncmpEq (s t : List α) (n : ℕ) : Prop := (s ++ [0]).take n = (t ++ [0]).take n

instance (s t : List α) (n : ℕ) : Decidable (strncmpEq s t n) :=
  inferInstanceAs (Decidable (_ = _))

section Strcat

variable {buffer s t : List α} {i j : ℕ}

/-- The string that is held is the one that is found. -/
theorem Holds.stringAt (h : Holds buffer i s) : stringAt buffer i = s := by
  obtain ⟨hs, rest, hrest⟩ := h
  rw [CString.stringAt, ← hrest, List.append_assoc, List.takeWhile_append_of_pos]
  · simp
  · intro c hc
    simp only [ne_eq, decide_eq_true_eq]
    rintro rfl
    exact hs hc

/-- Appending to a string from any point of it appends to it, and changes nothing before it. -/
theorem Holds.strcat (h : Holds buffer i s) (hj : j ≤ s.length) (ht : (0 : α) ∉ t)
    (hfit : i + s.length + t.length < buffer.length) :
    ∃ buffer', strcat (i + j) t buffer = (.ok (), buffer') ∧ buffer'.length = buffer.length ∧
      buffer'.take i = buffer.take i ∧ Holds buffer' i (s ++ t) := by
  have hend : i + j + (CString.stringAt buffer (i + j)).length = i + s.length := by
    rw [(h.drop hj).stringAt, List.length_drop]
    omega
  have hspace : i + s.length + (t ++ [0]).length ≤ buffer.length := by
    rw [List.length_append, List.length_singleton]
    omega
  obtain ⟨rest, hrest⟩ := h.exists_append
  have hi : (buffer.take i).length = i := by
    have := h.lt
    rw [List.length_take]
    omega
  have htake : buffer.take (i + s.length) = buffer.take i ++ s := by
    conv_lhs => rw [hrest]
    exact List.take_left' (by rw [List.length_append, hi])
  have hnul : (0 : α) ∉ s ++ t := fun hc => (List.mem_append.mp hc).elim h.1 ht
  have hshape : overwrite buffer (i + s.length) (t ++ [0]) =
      buffer.take i ++ (s ++ t) ++ 0 :: buffer.drop (i + s.length + (t ++ [0]).length) := by
    rw [overwrite, htake]
    simp only [List.append_assoc, List.singleton_append]
  refine ⟨overwrite buffer (i + s.length) (t ++ [0]), ?_, overwrite_length hspace, ?_, ?_⟩
  · simp only [CString.strcat, attempt, hend, if_pos hfit]
  · rw [hshape, List.append_assoc]
    exact List.take_left' hi
  · have hholds := holds_append hnul (buffer.take i)
      (buffer.drop (i + s.length + (t ++ [0]).length))
    rwa [← hshape, hi] at hholds

end Strcat

end CString
