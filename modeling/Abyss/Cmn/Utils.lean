import Abyss.Library.CString

/-!
# String utilities

The translation of `cmn_utils.c`. A string is split in place: its delimiters become terminators,
and the array of items gets the index of each field at the first character of the field, the
delimiter behind an empty field included. An access outside of the buffer or of the array gives
no result.
-/

namespace Abyss.Cmn

open Bytes CString

/-- The buffer of the string, and the array of items, whose entries are null or an index. -/
structure Split where
  src : List Byte
  items : List (Option ℕ)
deriving DecidableEq

/-- The loop of `cmn_utils_string_split`; the fuel bounds the characters that are looked at. -/
def cmnUtilsStringSplitFrom (ch : Byte) (itemsLen : ℕ) :
    ℕ → ℕ → ℕ → ℕ → Split → Option (ℕ × Split)
  | 0, _, _, _, _ => none
  | fuel + 1, i, cnt, pos, st =>
    if i < itemsLen then do
      let c ← st.src[pos]?
      if c = 0 then some (cnt, st)
      else do
        let item ← st.items[i]?
        let (cnt, items) :=
          if item = none then (cnt + 1, st.items.set i (some pos)) else (cnt, st.items)
        if c = ch then
          cmnUtilsStringSplitFrom ch itemsLen fuel (i + 1) cnt (pos + 1) ⟨st.src.set pos 0, items⟩
        else cmnUtilsStringSplitFrom ch itemsLen fuel i cnt (pos + 1) ⟨st.src, items⟩
    else some (cnt, st)

/-- `cmn_utils_string_split`: the number of items that were set. -/
def cmnUtilsStringSplit (src : Option (List Byte)) (ch : Byte) (items : Option (List (Option ℕ)))
    (itemsLen : ℕ) : Option (ℕ × Split) :=
  match src, items with
  | some src, some items =>
    if itemsLen ≤ items.length then
      cmnUtilsStringSplitFrom ch itemsLen (src.length + 1) 0 0 0
        ⟨src, overwrite items 0 (List.replicate itemsLen none)⟩
    else none
  | _, _ => some (0, ⟨src.getD [], items.getD []⟩)

/-! ## Fields -/

/-- The number of fields; the last one does not count if it is empty. -/
def countFields (fields : List (List Byte)) : ℕ :=
  if fields.getLast? = some [] then fields.length - 1 else fields.length

/-- The strings that the first items point to. -/
def Split.fields (st : Split) (count : ℕ) : List (List Byte) :=
  (st.items.take count).filterMap fun item => item.map (stringAt st.src)

section Fields

variable {ch : Byte} {s t : List Byte} {field : List Byte} {fields : List (List Byte)}

/-- A field more is counted, if it is not the last one. -/
theorem countFields_cons (h : fields ≠ []) :
    countFields (field :: fields) = countFields fields + 1 := by
  obtain ⟨first, rest, rfl⟩ := List.exists_cons_of_ne_nil h
  unfold countFields
  rw [List.getLast?_cons_cons]
  split
  · rename_i hlast
    simp
  · rfl

/-- A string without the delimiter is one field, or none if it is empty. -/
theorem countFields_splitOn_self (h : ch ∉ s) :
    countFields (s.splitOn ch) = if s = [] then 0 else 1 := by
  rw [List.splitOn_eq_singleton h, countFields]
  by_cases hs : s = []
  · simp [hs]
  · simp [hs]

/-- There are not more items than fields. -/
theorem countFields_le (fields : List (List Byte)) : countFields fields ≤ fields.length := by
  unfold countFields
  split
  · exact Nat.sub_le ..
  · exact Nat.le_refl _

/-- The last field is empty only behind a delimiter, or if there is nothing at all. -/
theorem splitOn_getLast? (h : (s.splitOn ch).getLast? = some []) :
    s = [] ∨ s.getLast? = some ch := by
  induction s with
  | nil => exact Or.inl rfl
  | cons c rest ih =>
    refine Or.inr ?_
    rw [List.splitOn_cons_eq_if_modifyHead] at h
    obtain ⟨first, others, hfields⟩ := List.exists_cons_of_ne_nil (List.splitOn_ne_nil ch rest)
    rw [hfields] at ih h
    by_cases hc : c = ch
    · rw [if_pos (beq_iff_eq.mpr hc), List.getLast?_cons_cons] at h
      rcases ih h with rfl | hlast
      · rw [hc]
        rfl
      · rw [List.getLast?_cons, hlast]
        rfl
    · rw [if_neg (by simpa using hc), List.modifyHead_cons] at h
      cases others with
      | nil => simp at h
      | cons next others =>
        rw [List.getLast?_cons_cons] at h ih
        rcases ih h with rfl | hlast
        · simp at hfields
        · rw [List.getLast?_cons, hlast]
          rfl

end Fields

/-! ## What a split leaves behind -/

/-- An entry points to a string of the buffer. -/
def Split.HasField (st : Split) (k : ℕ) (field : List Byte) : Prop :=
  ∃ p, st.items[k]? = some (some p) ∧ Holds st.src p field

/-- Where the loop stands: the current field starts behind `init`, and has an entry if it is not
empty. -/
structure Splitting (init cur : List Byte) (i cnt : ℕ) (items : List (Option ℕ)) : Prop where
  index_le : i ≤ items.length
  inside : cur ≠ [] → i < items.length
  pointer : cur ≠ [] → items[i]? = some (some init.length)
  unset : ∀ k, (if cur = [] then i ≤ k else i < k) → k < items.length → items[k]? = some none
  counted : cnt = if cur = [] then i else i + 1

/-- What is left behind for the fields from an entry on. -/
structure SplitTo (init : List Byte) (items : List (Option ℕ)) (i : ℕ) (fields : List (List Byte))
    (count : ℕ) (st : Split) : Prop where
  kept : ∀ k < i, st.items[k]? = items[k]?
  length_eq : st.items.length = items.length
  start : st.src.take init.length = init
  count_eq : count = min items.length (i + countFields fields)
  hasField : ∀ k, i + k < count → ∃ field, fields[k]? = some field ∧ st.HasField (i + k) field
  unset : ∀ k, count ≤ k → k < items.length → st.items[k]? = some none

section Split

variable {ch : Byte} {init cur rest : List Byte} {items : List (Option ℕ)} {i cnt fuel : ℕ}

/-- The items after the first character of a field is seen. -/
def startField (items : List (Option ℕ)) (i pos : ℕ) : List (Option ℕ) :=
  if items[i]? = some none then items.set i (some pos) else items

/-- A field has an entry from its first character on. -/
theorem Splitting.startField (h : Splitting init cur i cnt items) (hi : i < items.length) :
    (startField items i (init.length + cur.length))[i]? = some (some init.length) ∧
      ∀ k, k ≠ i → (startField items i (init.length + cur.length))[k]? = items[k]? := by
  unfold Cmn.startField
  by_cases hcur : cur = []
  · subst cur
    rw [if_pos (h.unset i (by simp) hi)]
    refine ⟨List.getElem?_set_self hi, fun k hk => List.getElem?_set_ne (Ne.symm hk)⟩
  · rw [if_neg (by rw [h.pointer hcur]; simp)]
    exact ⟨h.pointer hcur, fun _ _ => rfl⟩

/-- To begin a field does not change the number of items. -/
theorem startField_length (items : List (Option ℕ)) (i pos : ℕ) :
    (startField items i pos).length = items.length := by
  unfold startField
  split
  · exact List.length_set
  · rfl

/-- One character: it ends the current field, or it belongs to it. -/
theorem cmnUtilsStringSplitFrom_step (h : Splitting init cur i cnt items) {c : Byte}
    (hi : i < items.length) (hc : c ≠ 0) :
    cmnUtilsStringSplitFrom ch items.length (fuel + 1) i cnt (init.length + cur.length)
        ⟨init ++ cur ++ c :: rest, items⟩ =
      if c = ch then
        cmnUtilsStringSplitFrom ch items.length fuel (i + 1) (i + 1) (init.length + cur.length + 1)
          ⟨init ++ cur ++ 0 :: rest, startField items i (init.length + cur.length)⟩
      else
        cmnUtilsStringSplitFrom ch items.length fuel i (i + 1) (init.length + cur.length + 1)
          ⟨init ++ cur ++ c :: rest, startField items i (init.length + cur.length)⟩ := by
  have hpos : (init ++ cur).length = init.length + cur.length := List.length_append
  have hread : (init ++ cur ++ c :: rest)[init.length + cur.length]? = some c := by
    rw [← hpos, List.getElem?_append_right (Nat.le_refl _), Nat.sub_self]
    rfl
  have hset : (init ++ cur ++ c :: rest).set (init.length + cur.length) 0 =
      init ++ cur ++ 0 :: rest := by
    rw [← hpos, List.set_append_right _ _ (Nat.le_refl _), Nat.sub_self]
    rfl
  rw [cmnUtilsStringSplitFrom, if_pos hi]
  simp only [hread, Option.bind_eq_bind, Option.bind_some, if_neg hc, hset]
  unfold startField
  by_cases hcur : cur = []
  · have hnone : items[i]? = some none := h.unset i (by simp [hcur]) hi
    have hcnt : cnt = i := by rw [h.counted, if_pos hcur]
    simp only [hnone, Option.bind_some, if_pos, hcnt]
  · have hsome : items[i]? = some (some init.length) := h.pointer hcur
    have hcnt : cnt = i + 1 := by rw [h.counted, if_neg hcur]
    simp [hsome, hcnt]

/-- What is left behind does not depend on the entries from the current one on. -/
theorem SplitTo.of_items {items' : List (Option ℕ)} {fields : List (List Byte)} {count : ℕ}
    {st : Split} (h : SplitTo init items' i fields count st)
    (hother : ∀ k, k ≠ i → items'[k]? = items[k]?) (hlength : items'.length = items.length) :
    SplitTo init items i fields count st := by
  refine ⟨fun k hk => (h.kept k hk).trans (hother k (by omega)), h.length_eq.trans hlength, h.start,
    ?_, h.hasField, fun k hk hlt => h.unset k hk (by omega)⟩
  rw [← hlength]
  exact h.count_eq

/-- A field that has ended is the first one of those that are left behind. -/
theorem SplitTo.ended {items' : List (Option ℕ)} {fields : List (List Byte)} {count : ℕ}
    {st : Split} (h : SplitTo (init ++ cur ++ [0]) items' (i + 1) fields count st)
    (hcur : (0 : Byte) ∉ cur) (hself : items'[i]? = some (some init.length))
    (hother : ∀ k, k ≠ i → items'[k]? = items[k]?) (hlength : items'.length = items.length)
    (hfields : fields ≠ []) :
    SplitTo init items i (cur :: fields) count st := by
  have hstart : st.src.take (init ++ cur).length.succ =
      (init ++ cur ++ [0]).take (init ++ cur).length.succ := by
    have hlen : (init ++ cur ++ [(0 : Byte)]).length = (init ++ cur).length.succ :=
      List.length_append
    rw [← hlen, h.start, List.take_length]
  have hholds : Holds st.src init.length cur := by
    refine (holds_append hcur init []).of_take (n := (init ++ cur).length.succ) ?_ hstart
    rw [List.length_append]
    omega
  refine ⟨fun k hk => (h.kept k (by omega)).trans (hother k (by omega)),
    h.length_eq.trans hlength, ?_, ?_, ?_, fun k hk hlt => h.unset k hk (by omega)⟩
  · have hpre := congrArg (List.take init.length) h.start
    rw [List.take_take, List.append_assoc, List.take_left] at hpre
    rwa [Nat.min_eq_left (by rw [List.length_append]; omega)] at hpre
  · rw [countFields_cons hfields, h.count_eq, hlength]
    congr 1
    omega
  · intro k hk
    match k with
    | 0 => exact ⟨cur, rfl, init.length, (h.kept i (Nat.lt_succ_self i)).trans hself, hholds⟩
    | k + 1 =>
      obtain ⟨field, hfield, hentry⟩ := h.hasField k (by omega)
      exact ⟨field, hfield, by rwa [Nat.add_right_comm] at hentry⟩

/-- The loop leaves the fields of what it has not seen yet, the current field included. -/
theorem cmnUtilsStringSplitFrom_splitTo (hrest : (0 : Byte) ∉ rest)
    (hcur : (0 : Byte) ∉ cur ∧ ch ∉ cur) (h : Splitting init cur i cnt items)
    (hfuel : rest.length < fuel) :
    ∃ count st, cmnUtilsStringSplitFrom ch items.length fuel i cnt (init.length + cur.length)
        ⟨init ++ cur ++ (rest ++ [0]), items⟩ = some (count, st) ∧
      SplitTo init items i ((cur ++ rest).splitOn ch) count st := by
  induction rest generalizing fuel init cur i cnt items with
  | nil =>
    obtain ⟨fuel, rfl⟩ : ∃ n, fuel = n + 1 := ⟨fuel - 1, by simp at hfuel; omega⟩
    have hstart : (init ++ cur ++ [0]).take init.length = init := by
      rw [List.append_assoc, List.take_left]
    have hcount : cnt = min items.length (i + countFields (cur.splitOn ch)) := by
      have hle := h.index_le
      rw [countFields_splitOn_self hcur.2, h.counted]
      by_cases hne : cur = []
      · rw [if_pos hne, if_pos hne]
        omega
      · have hlt := h.inside hne
        rw [if_neg hne, if_neg hne]
        omega
    have hdone : cmnUtilsStringSplitFrom ch items.length (fuel + 1) i cnt (init.length + cur.length)
        ⟨init ++ cur ++ [0], items⟩ = some (cnt, ⟨init ++ cur ++ [0], items⟩) := by
      have hpos : (init ++ cur).length = init.length + cur.length := List.length_append
      have hread : (init ++ cur ++ [(0 : Byte)])[init.length + cur.length]? = some 0 := by
        rw [← hpos, List.getElem?_append_right (Nat.le_refl _), Nat.sub_self]
        rfl
      rw [cmnUtilsStringSplitFrom]
      simp only [hread, Option.bind_eq_bind, Option.bind_some, if_true, ite_self]
    refine ⟨cnt, _, hdone, ⟨fun _ _ => rfl, rfl, hstart, by rwa [List.append_nil], ?_, ?_⟩⟩
    · intro k hk
      rw [h.counted] at hk
      have hne : cur ≠ [] := fun hnil => by
        rw [if_pos hnil] at hk
        omega
      obtain rfl : k = 0 := by
        rw [if_neg hne] at hk
        omega
      rw [List.append_nil, List.splitOn_eq_singleton hcur.2]
      exact ⟨cur, rfl, init.length, h.pointer hne, holds_append hcur.1 init []⟩
    · intro k hk hlt
      refine h.unset k ?_ hlt
      rw [h.counted] at hk
      by_cases hne : cur = []
      · rwa [if_pos hne] at hk ⊢
      · rw [if_neg hne] at hk ⊢
        omega
  | cons c rest ih =>
    obtain ⟨fuel, rfl⟩ : ∃ n, fuel = n + 1 := ⟨fuel - 1, by simp at hfuel; omega⟩
    have hfuel' : rest.length < fuel := by simpa using hfuel
    rw [List.mem_cons, not_or] at hrest
    by_cases hi : i < items.length
    · obtain ⟨hself, hother⟩ := h.startField hi
      have hlength := startField_length items i (init.length + cur.length)
      rw [List.cons_append, cmnUtilsStringSplitFrom_step h hi (Ne.symm hrest.1)]
      generalize startField items i (init.length + cur.length) = items' at hself hother hlength ⊢
      have hunset : ∀ k, i < k → k < items'.length → items'[k]? = some none := by
        intro k hk hlt
        rw [hother k (by omega)]
        exact h.unset k (by split <;> omega) (by omega)
      by_cases hc : c = ch
      · -- The delimiter becomes the terminator of the field.
        subst c
        have hnext : Splitting (init ++ cur ++ [0]) [] (i + 1) (i + 1) items' := by
          refine ⟨by omega, fun hne => absurd rfl hne, fun hne => absurd rfl hne, ?_, rfl⟩
          intro k hk hlt
          exact hunset k (by rw [if_pos rfl] at hk; omega) hlt
        obtain ⟨count, st, hrun, hst⟩ :=
          ih hrest.2 ⟨List.not_mem_nil, List.not_mem_nil⟩ hnext hfuel'
        rw [if_pos rfl, ← hlength]
        refine ⟨count, st, ?_, ?_⟩
        · rw [← hrun]
          simp [Nat.add_assoc]
        · rw [List.splitOn_append_cons_self_of_not_mem hcur.2]
          exact hst.ended hcur.1 hself hother hlength (List.splitOn_ne_nil ch rest)
      · have hnext : Splitting init (cur ++ [c]) i (i + 1) items' := by
          refine ⟨by omega, fun _ => by omega, fun _ => hself, ?_, by simp⟩
          intro k hk hlt
          exact hunset k (by simpa using hk) hlt
        have hcur' : (0 : Byte) ∉ cur ++ [c] ∧ ch ∉ cur ++ [c] := by
          simp only [List.mem_append, List.mem_singleton, not_or]
          exact ⟨⟨hcur.1, hrest.1⟩, hcur.2, Ne.symm hc⟩
        obtain ⟨count, st, hrun, hst⟩ := ih hrest.2 hcur' hnext hfuel'
        rw [if_neg hc, ← hlength]
        refine ⟨count, st, ?_, ?_⟩
        · rw [← hrun]
          simp [Nat.add_assoc]
        · rw [← List.singleton_append, ← List.append_assoc]
          exact hst.of_items hother hlength
    · have hnil : cur = [] := by
        by_contra hne
        exact hi (h.inside hne)
      have hcnt : cnt = items.length := by
        have := h.index_le
        rw [h.counted, if_pos hnil]
        omega
      refine ⟨cnt, ⟨init ++ cur ++ (c :: rest ++ [0]), items⟩, ?_,
        ⟨fun _ _ => rfl, rfl, ?_, ?_, ?_, ?_⟩⟩
      · rw [cmnUtilsStringSplitFrom, if_neg hi]
      · rw [List.append_assoc, List.take_left]
      · have := h.index_le
        omega
      · intro k hk
        omega
      · intro k hk hlt
        omega

/-- The strings of the items that were set are the first fields. -/
theorem SplitTo.fields_eq {fields : List (List Byte)} {count : ℕ} {st : Split}
    (h : SplitTo [] items 0 fields count st) : st.fields count = fields.take count := by
  have hitems : (st.items.take count).map (fun item => item.map (stringAt st.src)) =
      (fields.take count).map some := by
    refine List.ext_getElem? fun k => ?_
    rw [List.getElem?_map, List.getElem?_map]
    rcases Nat.lt_or_ge k count with hk | hk
    · obtain ⟨field, hfield, p, hp, hholds⟩ := h.hasField k (by omega)
      rw [Nat.zero_add] at hp
      rw [List.getElem?_take_of_lt hk, List.getElem?_take_of_lt hk, hp, hfield, Option.map_some,
        Option.map_some, Option.map_some, hholds.stringAt]
    · rw [List.getElem?_take_eq_none hk, List.getElem?_take_eq_none hk]
      rfl
  have hid := congrArg (List.filterMap id) hitems
  rw [List.filterMap_map, List.filterMap_map] at hid
  simpa [Split.fields] using hid

end Split

/-- A string is split into its first fields, which the items point to; the remaining items are null.
If all fields fit and the last one is not empty, they make the string again. -/
theorem cmnUtilsStringSplit_splits {src : List Byte} (hsrc : (0 : Byte) ∉ src) (ch : Byte)
    (items : List (Option ℕ)) :
    ∃ count st, cmnUtilsStringSplit (some (src ++ [0])) ch (some items) items.length =
        some (count, st) ∧
      count = min items.length (countFields (src.splitOn ch)) ∧ st.items.length = items.length ∧
      (∀ k < count, ∃ field, (src.splitOn ch)[k]? = some field ∧ st.HasField k field) ∧
      (∀ k, count ≤ k → k < items.length → st.items[k]? = some none) ∧
      ((src.splitOn ch).length ≤ items.length → src.getLast? ≠ some ch →
        [ch].intercalate (st.fields count) = src) := by
  have hcleared : overwrite items 0 (List.replicate items.length none) =
      List.replicate items.length none := by
    simp [overwrite]
  have hstart : Splitting [] [] 0 0 (List.replicate items.length none : List (Option ℕ)) := by
    refine ⟨Nat.zero_le _, fun hne => absurd rfl hne, fun hne => absurd rfl hne, ?_, rfl⟩
    intro k _ hlt
    rw [List.length_replicate] at hlt
    exact List.getElem?_replicate_of_lt hlt
  obtain ⟨count, st, hrun, hst⟩ := cmnUtilsStringSplitFrom_splitTo hsrc
    (⟨List.not_mem_nil, List.not_mem_nil⟩ : (0 : Byte) ∉ [] ∧ ch ∉ []) hstart
    (Nat.lt_succ_of_lt (Nat.lt_succ_self src.length))
  rw [List.nil_append] at hst
  have hfields := hst.fields_eq
  obtain ⟨-, hlength, -, hcount, hfield, hunset⟩ := hst
  rw [List.length_replicate] at hrun hlength hcount hunset
  rw [Nat.zero_add] at hcount
  refine ⟨count, st, ?_, hcount, hlength, fun k hk => by simpa using hfield k (by omega), hunset,
    ?_⟩
  · unfold cmnUtilsStringSplit
    dsimp only
    rw [if_pos (Nat.le_refl _), hcleared]
    simpa using hrun
  · intro hfit hlast
    have hle := countFields_le (src.splitOn ch)
    rw [hfields]
    by_cases hempty : (src.splitOn ch).getLast? = some []
    · -- Only the empty string has a last field that is empty.
      rcases splitOn_getLast? hempty with rfl | hends
      · have hzero : count = 0 := by
          rw [hcount]
          exact Nat.min_eq_right (Nat.zero_le _)
        rw [hzero]
        rfl
      · exact absurd hends hlast
    · have hall : count = (src.splitOn ch).length := by
        rw [hcount, countFields, if_neg hempty]
        exact Nat.min_eq_right hfit
      rw [hall, List.take_length, List.intercalate_splitOn]

/-- Two fields out of three, the second one being empty. -/
theorem cmnUtilsStringSplit_splits_twoOfThree :
    ∃ count st, cmnUtilsStringSplit (some ([97, 44, 44, 98] ++ [0])) 44 (some [none, none]) 2 =
        some (count, st) ∧ count = 2 ∧ st.fields count = [[97], []] := by
  obtain ⟨count, st, hrun, hcount, -⟩ :=
    @cmnUtilsStringSplit_splits [97, 44, 44, 98] (by decide) 44 [none, none]
  refine ⟨count, st, hrun, hcount, ?_⟩
  have hst : some (2, (⟨[97, 0, 0, 98, 0], [some 0, some 2]⟩ : Split)) = some (count, st) :=
    (by decide : _ = cmnUtilsStringSplit _ _ _ _).trans hrun
  obtain ⟨rfl, rfl⟩ := Prod.mk.inj (Option.some.inj hst)
  decide

end Abyss.Cmn
