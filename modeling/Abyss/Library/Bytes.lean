import Mathlib.Data.BitVec
import Mathlib.Data.List.Basic

/-!
# Bytes, words and blocks

A word is made of bytes, the least significant one first. A block of values replaces a range of
a memory, which maps all addresses to values, or a range of a buffer, which is a list.
-/

namespace Bytes

/-- An octet. -/
abbrev Byte := BitVec 8

/-- The word of the first bytes, the remaining ones being zero. -/
def wordOf (w : ℕ) (f : ℕ → Byte) : ℕ → BitVec w
  | 0 => 0
  | n + 1 => wordOf w f n ||| ((f n).setWidth w <<< (8 * n))

/-- A byte of a word. -/
def byteOf {w : ℕ} (v : BitVec w) (j : ℕ) : Byte := v.extractLsb' (8 * j) 8

section Words

variable {w n j : ℕ} {f g : ℕ → Byte}

/-- A bit of a word that is assembled from bytes is a bit of one of them. -/
theorem wordOf_getLsbD (w n : ℕ) (f : ℕ → Byte) (k : ℕ) :
    (wordOf w f n).getLsbD k =
      (decide (k < w) && decide (k < 8 * n) && (f (k / 8)).getLsbD (k % 8)) := by
  induction n with
  | zero => simp [wordOf]
  | succ n ih =>
    rw [wordOf, BitVec.getLsbD_or, ih, BitVec.getLsbD_shiftLeft, BitVec.getLsbD_setWidth]
    by_cases hw : k < w
    · by_cases hlow : k < 8 * n
      · have hup : k < 8 * (n + 1) := by omega
        simp [hw, hlow, hup]
      · by_cases hup : k < 8 * (n + 1)
        · have hdiv : k / 8 = n := by omega
          have hmod : k - 8 * n = k % 8 := by omega
          have hkw : k % 8 < w := by omega
          simp [hw, hlow, hup, hdiv, hmod, hkw]
        · have hfar : 8 ≤ k - 8 * n := by omega
          simp [hw, hlow, hup, BitVec.getLsbD_of_ge _ _ hfar]
    · simp [hw]

/-- The bytes of a word are those it is made of. -/
theorem byteOf_wordOf (hj : j < n) (hn : 8 * n ≤ w) : byteOf (wordOf w f n) j = f j := by
  refine BitVec.eq_of_getLsbD_eq fun i hi => ?_
  rw [byteOf, BitVec.getLsbD_extractLsb', wordOf_getLsbD]
  have hdiv : (8 * j + i) / 8 = j := by omega
  have hmod : (8 * j + i) % 8 = i := by omega
  have hw : 8 * j + i < w := by omega
  have hup : 8 * j + i < 8 * n := by omega
  simp [hi, hdiv, hmod, hw, hup]

/-- The remaining bytes are zero. -/
theorem byteOf_wordOf_of_le (hj : n ≤ j) : byteOf (wordOf w f n) j = 0 := by
  refine BitVec.eq_of_getLsbD_eq fun i hi => ?_
  rw [byteOf, BitVec.getLsbD_extractLsb', wordOf_getLsbD]
  have hup : ¬8 * j + i < 8 * n := by omega
  simp [hup]

/-- A word is made of its bytes. -/
theorem wordOf_byteOf (v : BitVec w) (hn : w ≤ 8 * n) : wordOf w (byteOf v) n = v := by
  refine BitVec.eq_of_getLsbD_eq fun i hi => ?_
  rw [wordOf_getLsbD, byteOf, BitVec.getLsbD_extractLsb']
  have hup : i < 8 * n := by omega
  have hback : 8 * (i / 8) + i % 8 = i := by omega
  have hmod : i % 8 < 8 := Nat.mod_lt _ (by decide)
  simp [hi, hup, hback, hmod]

/-- A word depends on the bytes it is made of only. -/
theorem wordOf_congr (h : ∀ j < n, f j = g j) : wordOf w f n = wordOf w g n := by
  induction n with
  | zero => rfl
  | succ n ih =>
    rw [wordOf, wordOf, ih fun j hj => h j (Nat.lt_succ_of_lt hj), h n (Nat.lt_succ_self n)]

/-- A word of fewer bytes is the same word exactly if the remaining bytes are zero. -/
theorem wordOf_eq_iff {c : ℕ} (hc : c ≤ n) (hn : 8 * n ≤ w) :
    wordOf w f c = wordOf w f n ↔ ∀ j, c ≤ j → j < n → f j = 0 := by
  constructor
  · intro h j hj hjn
    rw [← byteOf_wordOf (f := f) hjn hn, ← h, byteOf_wordOf_of_le hj]
  · intro h
    induction n, hc using Nat.le_induction with
    | base => rfl
    | succ n hcn ih =>
      rw [wordOf, ← ih (by omega) fun j hj hjn => h j hj (Nat.lt_succ_of_lt hjn),
        h n hcn (Nat.lt_succ_self n)]
      simp

/-- Words with the same bytes are equal. -/
theorem eq_of_byteOf {v v' : BitVec w} (hn : w ≤ 8 * n) (h : ∀ j < n, byteOf v j = byteOf v' j) :
    v = v' := by
  rw [← wordOf_byteOf v hn, ← wordOf_byteOf v' hn]
  refine BitVec.eq_of_getLsbD_eq fun i hi => ?_
  rw [wordOf_getLsbD, wordOf_getLsbD, h (i / 8) (by omega)]

/-- The first bytes of a word. -/
def bytesOf (v : BitVec w) (n : ℕ) : List Byte := (List.range n).map (byteOf v)

/-- There are as many bytes as were asked for. -/
@[simp] theorem bytesOf_length (v : BitVec w) (n : ℕ) : (bytesOf v n).length = n := by
  rw [bytesOf, List.length_map, List.length_range]

/-- The bytes of a word, one by one. -/
@[simp] theorem bytesOf_getElem (v : BitVec w) (h : j < (bytesOf v n).length) :
    (bytesOf v n)[j] = byteOf v j := by
  simp [bytesOf]

/-- The bytes of a disjunction. -/
theorem byteOf_or (v v' : BitVec w) (j : ℕ) : byteOf (v ||| v') j = byteOf v j ||| byteOf v' j := by
  refine BitVec.eq_of_getLsbD_eq fun i hi => ?_
  simp [byteOf, hi]

end Words

/-! ## Blocks -/

section Blocks

variable {α : Type}

/-- The values from an address on. -/
def block (f : ℕ → α) (a n : ℕ) : List α := (List.range n).map fun j => f (a + j)

/-- Replace the values from an address on. -/
def splice (f : ℕ → α) (a : ℕ) (data : List α) : ℕ → α := fun x =>
  if a ≤ x then (data[x - a]?).getD (f x) else f x

/-- Replace the values from an index of a buffer on. -/
def overwrite (buffer : List α) (i : ℕ) (data : List α) : List α :=
  buffer.take i ++ data ++ buffer.drop (i + data.length)

variable {f : ℕ → α} {a x i j n : ℕ} {data buffer : List α}

/-- A block has its length. -/
@[simp] theorem block_length (f : ℕ → α) (a n : ℕ) : (block f a n).length = n := by
  rw [block, List.length_map, List.length_range]

/-- The elements of a block, one by one. -/
@[simp] theorem block_getElem (f : ℕ → α) (a : ℕ) (h : j < (block f a n).length) :
    (block f a n)[j] = f (a + j) := by
  simp [block]

/-- A prefix of a block is a shorter block. -/
theorem take_block (f : ℕ → α) (a n m : ℕ) : (block f a n).take m = block f a (min m n) := by
  refine List.ext_getElem (by simp) fun j _ _ => ?_
  rw [List.getElem_take, block_getElem, block_getElem]

/-- The first value of a block with a property is found. -/
theorem findIdx_block {p : α → Bool} {j : ℕ} (hj : j < n) (hp : p (f (a + j)) = true)
    (hbefore : ∀ i < j, p (f (a + i)) = false) : (block f a n).findIdx p = j := by
  have hlt : j < (block f a n).length := by rwa [block_length]
  rw [List.findIdx_eq hlt, block_getElem]
  exact ⟨hp, fun i hi => by rw [block_getElem]; exact hbefore i hi⟩

/-- Nothing is found in a block without the property. -/
theorem findIdx_block_none {p : α → Bool} (h : ∀ j < n, p (f (a + j)) = false) :
    (block f a n).findIdx p = n := by
  have hnone : (block f a n).findIdx p = (block f a n).length := by
    rw [List.findIdx_eq_length]
    intro x hx
    obtain ⟨j, hj, rfl⟩ := List.getElem_of_mem hx
    rw [block_length] at hj
    rw [block_getElem]
    exact h j hj
  rw [hnone, block_length]

/-- Within the range the new data is read. -/
theorem splice_of_mem (hx : x < data.length) : splice f a data (a + x) = data[x] := by
  rw [splice, if_pos (Nat.le_add_right ..), Nat.add_sub_cancel_left, List.getElem?_eq_getElem hx]
  rfl

/-- In front of the range nothing is changed. -/
theorem splice_of_lt (hx : x < a) : splice f a data x = f x := if_neg (Nat.not_le_of_lt hx)

/-- Behind the range nothing is changed. -/
theorem splice_of_le (hx : a + data.length ≤ x) : splice f a data x = f x := by
  rw [splice]
  split
  · rw [List.getElem?_eq_none (by omega)]
    rfl
  · rfl

/-- Without data nothing is changed. -/
@[simp] theorem splice_nil : splice f a [] = f := by
  funext x
  by_cases hx : x < a
  · exact splice_of_lt hx
  · exact splice_of_le (Nat.le_of_not_lt hx)

/-- Adjacent blocks are one block. -/
theorem splice_append (f : ℕ → α) (a : ℕ) (data rest : List α) :
    splice (splice f a data) (a + data.length) rest = splice f a (data ++ rest) := by
  funext x
  rcases Nat.lt_or_ge x a with hlt | hge
  · rw [splice_of_lt hlt, splice_of_lt (by omega), splice_of_lt hlt]
  · obtain ⟨j, rfl⟩ := Nat.exists_eq_add_of_le hge
    rcases Nat.lt_or_ge j data.length with hj | hj
    · rw [splice_of_lt (by omega), splice_of_mem hj,
        splice_of_mem (by rw [List.length_append]; omega), List.getElem_append_left hj]
    · obtain ⟨i, rfl⟩ := Nat.exists_eq_add_of_le hj
      rw [← Nat.add_assoc]
      rcases Nat.lt_or_ge i rest.length with hi | hi
      · rw [splice_of_mem hi, Nat.add_assoc,
          splice_of_mem (by rw [List.length_append]; omega), List.getElem_append_right hj]
        simp
      · rw [splice_of_le (by omega), splice_of_le (by omega),
          splice_of_le (by rw [List.length_append]; omega)]

/-- A block hides what it covers. -/
theorem splice_splice {rest : List α} (h : data.length ≤ rest.length) :
    splice (splice f a data) a rest = splice f a rest := by
  funext x
  rcases Nat.lt_or_ge x a with hlt | hge
  · rw [splice_of_lt hlt, splice_of_lt hlt, splice_of_lt hlt]
  · obtain ⟨j, rfl⟩ := Nat.exists_eq_add_of_le hge
    rcases Nat.lt_or_ge j rest.length with hj | hj
    · rw [splice_of_mem hj, splice_of_mem hj]
    · rw [splice_of_le (by omega), splice_of_le (by omega), splice_of_le (by omega)]

/-- A part of a block does as much as the block exactly if the rest is there. -/
theorem splice_take_iff (n : ℕ) :
    splice f a (data.take n) = splice f a data ↔
      ∀ j (hj : j < data.length), n ≤ j → f (a + j) = data[j] := by
  have htake : (data.take n).length = min n data.length := List.length_take
  constructor
  · intro h j hj hn
    rw [← splice_of_mem (f := f) (a := a) hj, ← h, splice_of_le (by omega)]
  · intro h
    funext x
    rcases Nat.lt_or_ge x a with hlt | hge
    · rw [splice_of_lt hlt, splice_of_lt hlt]
    · obtain ⟨j, rfl⟩ := Nat.exists_eq_add_of_le hge
      rcases Nat.lt_or_ge j data.length with hj | hj
      · rcases Nat.lt_or_ge j n with hn | hn
        · rw [splice_of_mem (by omega), splice_of_mem hj, List.getElem_take]
        · rw [splice_of_le (by omega), splice_of_mem hj, h j hj hn]
      · rw [splice_of_le (by omega), splice_of_le (by omega)]

/-- A block of the values that are there changes nothing. -/
theorem splice_self (h : ∀ j (hj : j < data.length), data[j] = f (a + j)) : splice f a data = f := by
  funext x
  rcases Nat.lt_or_ge x a with hlt | hge
  · exact splice_of_lt hlt
  · obtain ⟨j, rfl⟩ := Nat.exists_eq_add_of_le hge
    rcases Nat.lt_or_ge j data.length with hj | hj
    · rw [splice_of_mem hj, h j hj]
    · exact splice_of_le (by omega)

/-- To overwrite a part of a buffer does not change its length. -/
theorem overwrite_length (h : i + data.length ≤ buffer.length) :
    (overwrite buffer i data).length = buffer.length := by
  simp only [overwrite, List.length_append, List.length_take, List.length_drop]
  omega

/-- In the block are the new values. -/
theorem overwrite_of_mem (h : i + data.length ≤ buffer.length) (hj : j < data.length) :
    (overwrite buffer i data)[i + j]? = data[j]? := by
  have htake : (buffer.take i).length = i := by
    rw [List.length_take]
    omega
  rw [overwrite, List.append_assoc, List.getElem?_append_right (by omega), htake,
    Nat.add_sub_cancel_left, List.getElem?_append_left hj]

/-- Before the block nothing changes. -/
theorem overwrite_of_lt (h : i + data.length ≤ buffer.length) (hj : j < i) :
    (overwrite buffer i data)[j]? = buffer[j]? := by
  have htake : (buffer.take i).length = i := by
    rw [List.length_take]
    omega
  rw [overwrite, List.append_assoc, List.getElem?_append_left (by omega),
    List.getElem?_take_of_lt hj]

/-- Behind the block nothing changes. -/
theorem overwrite_of_le (h : i + data.length ≤ buffer.length) (hj : i + data.length ≤ j) :
    (overwrite buffer i data)[j]? = buffer[j]? := by
  have hlen : (buffer.take i ++ data).length = i + data.length := by
    rw [List.length_append, List.length_take]
    omega
  rw [overwrite, List.getElem?_append_right (by omega), hlen, List.getElem?_drop]
  congr 1
  omega

/-- The first values of a buffer are those of a range of a memory. -/
def Copied (buffer : List α) (f : ℕ → α) (a n : ℕ) : Prop :=
  n ≤ buffer.length ∧ ∀ j < n, buffer[j]? = some (f (a + j))

/-- A copy of nothing. -/
theorem Copied.zero (buffer : List α) (f : ℕ → α) (a : ℕ) : Copied buffer f a 0 :=
  ⟨Nat.zero_le _, fun _ hj => absurd hj (Nat.not_lt_zero _)⟩

/-- The next block of the range is copied behind the others. -/
theorem Copied.overwrite (h : Copied buffer f a n) {m : ℕ} (hm : n + m ≤ buffer.length) :
    Copied (overwrite buffer n (block f (a + n) m)) f a (n + m) := by
  have hfit : n + (block f (a + n) m).length ≤ buffer.length := by rwa [block_length]
  refine ⟨by rwa [overwrite_length hfit], fun j hj => ?_⟩
  rcases Nat.lt_or_ge j n with hlt | hge
  · rw [overwrite_of_lt hfit hlt, h.2 j hlt]
  · obtain ⟨i, rfl⟩ := Nat.exists_eq_add_of_le hge
    have hi : i < (block f (a + n) m).length := by
      rw [block_length]
      omega
    rw [overwrite_of_mem hfit hi, List.getElem?_eq_getElem hi, block_getElem, Nat.add_assoc]

/-- A prefix of what was copied was copied, too. -/
theorem Copied.mono (h : Copied buffer f a n) {m : ℕ} (hm : m ≤ n) : Copied buffer f a m :=
  ⟨Nat.le_trans hm h.1, fun j hj => h.2 j (Nat.lt_of_lt_of_le hj hm)⟩

/-- A part of what is copied is a block. -/
theorem Copied.take_drop (h : Copied buffer f a (i + n)) :
    (buffer.drop i).take n = block f (a + i) n := by
  have hlen := h.1
  refine List.ext_getElem ?_ fun j hj hj' => ?_
  · rw [List.length_take, List.length_drop, block_length]
    omega
  · rw [block_length] at hj'
    have hcopied := h.2 (i + j) (Nat.add_lt_add_left hj' i)
    rw [List.getElem?_eq_getElem (by omega)] at hcopied
    rw [List.getElem_take, List.getElem_drop, block_getElem, Nat.add_assoc]
    exact Option.some.inj hcopied

/-- A buffer that is filled is the block. -/
theorem Copied.eq_block (h : Copied buffer f a n) (hn : buffer.length = n) :
    buffer = block f a n := by
  refine List.ext_getElem (by rw [hn, block_length]) fun j hj _ => ?_
  have hcopied := h.2 j (hn ▸ hj)
  rw [List.getElem?_eq_getElem hj] at hcopied
  rw [block_getElem]
  exact Option.some.inj hcopied

end Blocks
end Bytes
