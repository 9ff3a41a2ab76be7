import Abyss.Syscall.RequiredSysnums

/-!
# The array of filtered syscalls

The list of filtered syscalls is an array of entries that ends with one of no syscall. It is searched
from its start for every entry that is merged, and grows by one place when none is found: the
terminator is overwritten, and the new last place is made one.

On well-formed arrays this is the merging of the lists of their entries, which tells what is found
in the merged array.
-/

namespace Abyss

open Outcome

/-- What stops the merging: an access outside an array, or an errno. -/
inductive ArrayFault where
  | outOfBounds
  | errno (status : ℤ)
deriving DecidableEq

section Arrays

variable (alloc : ℕ → Bool) (garbage : ℕ → FilteredSysnum)

/-- Allocate an array, whose places hold whatever was there. -/
def vlNewArray (count : ℕ) : Except ArrayFault (List FilteredSysnum) :=
  if alloc count then .ok ((List.range count).map garbage) else .error (.errno (-enomem))

/-- Give an array another number of places. -/
def vlArrayRealloc (array : List FilteredSysnum) (count : ℕ) :
    Except ArrayFault (List FilteredSysnum) :=
  if alloc count then
    .ok (array.take count ++ (List.range' array.length (count - array.length)).map garbage)
  else .error (.errno (-enomem))

/-- Make a place the terminator; its flags stay as they are. -/
def terminate (array : List FilteredSysnum) (i : ℕ) : List FilteredSysnum :=
  array.modify i fun entry => { entry with value := .void }

/-- Search an array from a place on for a value or the terminator. -/
def searchSysnum (value : Sysnum) : List FilteredSysnum → ℕ → Except ArrayFault ℕ
  | [], _ => .error .outOfBounds
  | entry :: rest, j =>
      if entry.value ≠ .void ∧ entry.value ≠ value then searchSysnum value rest (j + 1) else .ok j

/-- Merge one entry into the array. -/
def mergeIntoArray (array : List FilteredSysnum) (new : FilteredSysnum) :
    Except ArrayFault (List FilteredSysnum) := do
  let j ← searchSysnum new.value array 0
  match array[j]? with
  | none => .error .outOfBounds
  | some entry =>
    if entry.value = .void then do
      let array ← vlArrayRealloc alloc garbage array (j + 2)
      .ok (terminate (array.set j new) (j + 1))
    else .ok (array.set j { entry with flags := entry.flags ||| new.flags })

/-- Merge the entries of an array up to its terminator. -/
def mergeArrayFrom : List FilteredSysnum → List FilteredSysnum →
    Except ArrayFault (List FilteredSysnum)
  | [], _ => .error .outOfBounds
  | new :: rest, array =>
      if new.value = .void then .ok array
      else do
        let array ← mergeIntoArray alloc garbage array new
        mergeArrayFrom rest array

/-- Merge an array into another, which is allocated first if there is none. -/
def mergeSysnumArrays (sysnums : Option (List FilteredSysnum)) (new : List FilteredSysnum) :
    Except ArrayFault (List FilteredSysnum) := do
  let array ← match sysnums with
    | some array => .ok array
    | none => do
      let array ← vlNewArray alloc garbage 1
      .ok (terminate array 0)
  mergeArrayFrom alloc garbage new array

end Arrays

/-! ## Terminated arrays -/

/-- The array has these entries, none of which is a terminator, and then one. -/
structure Terminated (array entries : List FilteredSysnum) : Prop where
  ends : ∃ flags, array = entries ++ [⟨.void, flags⟩]
  named : ∀ entry ∈ entries, entry.value ≠ .void

/-- A list that is accumulated: none, or a terminated array of different values. -/
def Accumulated : Option (List FilteredSysnum) → List FilteredSysnum → Prop
  | none, entries => entries = []
  | some array, entries => Terminated array entries ∧ (entries.map (·.value)).Nodup

section Terminated

variable {alloc : ℕ → Bool} {garbage : ℕ → FilteredSysnum} {array entries rest : List FilteredSysnum}
  {new : FilteredSysnum} {flags : ℕ}

/-- A new value is searched for up to the terminator. -/
theorem searchSysnum_fresh {value : Sysnum} (hnamed : ∀ entry ∈ entries, entry.value ≠ .void)
    (hfresh : ∀ entry ∈ entries, entry.value ≠ value) (j : ℕ) :
    searchSysnum value (entries ++ ⟨.void, flags⟩ :: rest) j = .ok (j + entries.length) := by
  induction entries generalizing j with
  | nil => exact if_neg fun h => h.1 rfl
  | cons entry entries ih =>
    rw [List.forall_mem_cons] at hnamed hfresh
    rw [List.cons_append, searchSysnum, if_pos ⟨hnamed.1, hfresh.1⟩, ih hnamed.2 hfresh.2]
    simp only [List.length_cons]
    congr 1
    omega

/-- A value is found at its first entry. -/
theorem searchSysnum_found {before : List FilteredSysnum} {entry : FilteredSysnum}
    (hnamed : ∀ entry ∈ before, entry.value ≠ .void)
    (hother : ∀ other ∈ before, other.value ≠ entry.value) (j : ℕ) :
    searchSysnum entry.value (before ++ entry :: rest) j = .ok (j + before.length) := by
  induction before generalizing j with
  | nil => exact if_neg fun h => h.2 rfl
  | cons other before ih =>
    rw [List.forall_mem_cons] at hnamed hother
    rw [List.cons_append, searchSysnum, if_pos ⟨hnamed.1, hother.1⟩, ih hnamed.2 hother.2]
    simp only [List.length_cons]
    congr 1
    omega

/-- What is merged depends on the entry that is found. -/
theorem mergeIntoArray_at {j : ℕ} {entry : FilteredSysnum}
    (hsearch : searchSysnum new.value array 0 = .ok j) (hentry : array[j]? = some entry) :
    mergeIntoArray alloc garbage array new =
      if entry.value = .void then
        (vlArrayRealloc alloc garbage array (j + 2)).bind fun array =>
          .ok (terminate (array.set j new) (j + 1))
      else .ok (array.set j { entry with flags := entry.flags ||| new.flags }) := by
  simp only [mergeIntoArray, hsearch, hentry, bind, Except.bind]

/-- A larger array has one more place behind the terminator. -/
theorem vlArrayRealloc_terminated (hname : alloc (entries.length + 2) = true) :
    vlArrayRealloc alloc garbage (entries ++ [⟨.void, flags⟩]) (entries.length + 2) =
      .ok (entries ++ [⟨.void, flags⟩, garbage (entries.length + 1)]) := by
  rw [vlArrayRealloc, if_pos hname, List.take_of_length_le (by simp), List.length_append,
    List.length_singleton, Nat.add_sub_add_left]
  simp

variable (alloc garbage) in
/-- An entry of a new value takes the place of the terminator. -/
theorem mergeIntoArray_fresh (h : Terminated array entries) (hnew : new.value ≠ .void)
    (hfresh : ∀ entry ∈ entries, entry.value ≠ new.value) :
    (alloc (entries.length + 2) = true ∧
        ∃ array', mergeIntoArray alloc garbage array new = .ok array' ∧
          Terminated array' (entries ++ [new])) ∨
      alloc (entries.length + 2) = false ∧
        mergeIntoArray alloc garbage array new = .error (.errno (-enomem)) := by
  obtain ⟨⟨flags, rfl⟩, hnamed⟩ := h
  have hsearch : searchSysnum new.value (entries ++ [⟨.void, flags⟩]) 0 = .ok entries.length := by
    rw [searchSysnum_fresh hnamed hfresh, zero_add]
  have hplace : (entries ++ [⟨.void, flags⟩])[entries.length]? =
      some (⟨.void, flags⟩ : FilteredSysnum) := by simp
  rw [mergeIntoArray_at hsearch hplace, if_pos rfl]
  cases halloc : alloc (entries.length + 2) with
  | false =>
    have hfails : vlArrayRealloc alloc garbage (entries ++ [⟨.void, flags⟩])
        (entries.length + 2) = .error (.errno (-enomem)) := if_neg (by simp [halloc])
    rw [hfails]
    exact .inr ⟨rfl, rfl⟩
  | true =>
    rw [vlArrayRealloc_terminated halloc]
    refine .inl ⟨rfl, _, rfl, ⟨(garbage (entries.length + 1)).flags, ?_⟩, ?_⟩
    · have hset : (entries ++ [⟨.void, flags⟩, garbage (entries.length + 1)]).set entries.length
          new = entries ++ [new, garbage (entries.length + 1)] := by simp
      rw [hset, terminate, List.modify_eq_take_cons_drop (by simp)]
      simp [List.take_append, List.take_of_length_le]
    · rw [List.forall_mem_append, List.forall_mem_singleton]
      exact ⟨hnamed, hnew⟩

/-- The first entry of a value, and what more flags do to it. -/
theorem mergeFlags_split (hfound : ∃ entry ∈ entries, entry.value = new.value) :
    ∃ before entry after, entries = before ++ entry :: after ∧ entry.value = new.value ∧
      (∀ other ∈ before, other.value ≠ new.value) ∧
      mergeFlags new entries =
        before ++ { entry with flags := entry.flags ||| new.flags } :: after := by
  induction entries with
  | nil => simp at hfound
  | cons entry entries ih =>
    by_cases heq : entry.value = new.value
    · exact ⟨[], entry, entries, rfl, heq, by simp, if_pos heq⟩
    · obtain ⟨before, found, after, rfl, hvalue, hbefore, hmerged⟩ :=
        ih (by simpa [heq] using hfound)
      refine ⟨entry :: before, found, after, rfl, hvalue, ?_, ?_⟩
      · exact List.forall_mem_cons.mpr ⟨heq, hbefore⟩
      · rw [mergeFlags, if_neg heq, hmerged, List.cons_append]

/-- More flags are added to the entry of an old value, and nothing else is changed. -/
theorem mergeIntoArray_found (hnamed : ∀ entry ∈ entries, entry.value ≠ .void)
    (hfound : ∃ entry ∈ entries, entry.value = new.value) :
    mergeIntoArray alloc garbage (entries ++ [⟨.void, flags⟩]) new =
      .ok (mergeFlags new entries ++ [⟨.void, flags⟩]) := by
  obtain ⟨before, entry, after, rfl, hvalue, hbefore, hmerged⟩ := mergeFlags_split hfound
  rw [List.forall_mem_append, List.forall_mem_cons] at hnamed
  have hsearch : searchSysnum new.value (before ++ entry :: after ++ [⟨.void, flags⟩]) 0 =
      .ok before.length := by
    rw [List.append_assoc, List.cons_append, ← hvalue,
      searchSysnum_found hnamed.1 (hvalue ▸ hbefore), zero_add]
  have hplace : (before ++ entry :: after ++ [⟨.void, flags⟩])[before.length]? = some entry := by
    simp
  rw [mergeIntoArray_at hsearch hplace, if_neg hnamed.2.1, hmerged]
  simp

/-- More flags are added to named entries only. -/
theorem mergeFlags_named (hnamed : ∀ entry ∈ entries, entry.value ≠ .void) :
    ∀ entry ∈ mergeFlags new entries, entry.value ≠ .void := by
  intro entry hentry
  have hvalue : entry.value ∈ (mergeFlags new entries).map (·.value) := List.mem_map_of_mem hentry
  rw [mergeFlags_values] at hvalue
  obtain ⟨old, hold, heq⟩ := List.mem_map.mp hvalue
  exact heq ▸ hnamed old hold

variable (alloc garbage) in
/-- Merging into an array is merging into the list of its entries. -/
theorem mergeIntoArray_refines (h : Terminated array entries) (hnew : new.value ≠ .void) :
    (∃ array' entries', mergeIntoArray alloc garbage array new = .ok array' ∧
        Terminated array' entries' ∧ mergeFilteredSysnum alloc entries new = .ok entries') ∨
      (∃ count, alloc count = false) ∧
        mergeIntoArray alloc garbage array new = .error (.errno (-enomem)) := by
  by_cases hfound : ∃ entry ∈ entries, entry.value = new.value
  · obtain ⟨⟨flags, rfl⟩, hnamed⟩ := h
    refine .inl ⟨_, _, mergeIntoArray_found hnamed hfound, ⟨⟨flags, rfl⟩, ?_⟩, if_neg ?_⟩
    · exact mergeFlags_named hnamed
    · simpa using hfound
  · have hfresh : ∀ entry ∈ entries, entry.value ≠ new.value := by simpa using hfound
    rcases mergeIntoArray_fresh alloc garbage h hnew hfresh with
      ⟨halloc, array', harray, hterminated⟩ | ⟨hfails, herror⟩
    · refine .inl ⟨array', _, harray, hterminated, ?_⟩
      rw [mergeFilteredSysnum, if_pos (by simpa using hfresh), if_pos halloc]
    · exact .inr ⟨⟨_, hfails⟩, herror⟩

variable (alloc garbage) in
/-- Merging an array is merging the list of its entries. -/
theorem mergeArrayFrom_refines {newArray newEntries : List FilteredSysnum}
    (hnew : Terminated newArray newEntries) (h : Terminated array entries) :
    (∃ array' entries', mergeArrayFrom alloc garbage newArray array = .ok array' ∧
        Terminated array' entries' ∧
        newEntries.foldlM (mergeFilteredSysnum alloc) entries = .ok entries') ∨
      (∃ count, alloc count = false) ∧
        mergeArrayFrom alloc garbage newArray array = .error (.errno (-enomem)) := by
  obtain ⟨⟨flags, rfl⟩, hnamed⟩ := hnew
  induction newEntries generalizing array entries with
  | nil => exact .inl ⟨array, entries, if_pos rfl, h, rfl⟩
  | cons new newEntries ih =>
    rw [List.forall_mem_cons] at hnamed
    rw [List.cons_append, mergeArrayFrom, if_neg hnamed.1, List.foldlM_cons]
    rcases mergeIntoArray_refines alloc garbage h hnamed.1 with
      ⟨array', entries', harray, hterminated, hentries⟩ | ⟨hfails, herror⟩
    · rw [harray, hentries]
      exact ih hterminated hnamed.2
    · rw [herror]
      exact .inr ⟨hfails, rfl⟩

end Terminated

/-! ## What is found in a merged array -/

section Merged

variable {alloc : ℕ → Bool} {garbage : ℕ → FilteredSysnum}

/-- Merging one more entry keeps the entries in their places. -/
theorem mergeFilteredSysnum_places {sysnums sysnums' : List FilteredSysnum} {new : FilteredSysnum}
    (h : mergeFilteredSysnum alloc sysnums new = .ok sysnums') :
    sysnums.map (·.value) <+: sysnums'.map (·.value) := by
  unfold mergeFilteredSysnum at h
  split at h
  · split at h
    · obtain rfl := Except.ok.inj h
      rw [List.map_append]
      exact List.prefix_append _ _
    · cases h
  · obtain rfl := Except.ok.inj h
    rw [mergeFlags_values]

/-- Flags that are there already are not added. -/
theorem mergeFlags_eq_self {new : FilteredSysnum} {entries : List FilteredSysnum}
    (h : ∀ entry ∈ entries, entry.value = new.value → HasFlags entry.flags new.flags) :
    mergeFlags new entries = entries := by
  induction entries with
  | nil => rfl
  | cons entry entries ih =>
    rw [List.forall_mem_cons] at h
    by_cases heq : entry.value = new.value
    · have hflags : entry.flags ||| new.flags = entry.flags := by
        refine Nat.eq_of_testBit_eq fun i => ?_
        rw [Nat.testBit_or]
        cases hbit : new.flags.testBit i with
        | false => exact Bool.or_false _
        | true => rw [h.1 heq i hbit]; rfl
      rw [mergeFlags, if_pos heq, hflags]
    · rw [mergeFlags, if_neg heq, ih h.2]

/-- An array whose entries have been merged already is merged without a change. -/
theorem mergeArrayFrom_again {array merged newArray newEntries entries : List FilteredSysnum}
    (hnew : Terminated newArray newEntries) (h : Terminated array merged)
    (hmerged : MergedFrom entries merged) (hold : ∀ new ∈ newEntries, new ∈ entries) :
    mergeArrayFrom alloc garbage newArray array = .ok array := by
  obtain ⟨⟨newFlags, rfl⟩, hnewNamed⟩ := hnew
  obtain ⟨⟨flags, rfl⟩, hnamed⟩ := h
  induction newEntries with
  | nil => exact if_pos rfl
  | cons new newEntries ih =>
    rw [List.forall_mem_cons] at hnewNamed hold
    have hfound : ∃ entry ∈ merged, entry.value = new.value :=
      List.mem_map.mp ((hmerged.values _).mpr (List.mem_map_of_mem hold.1))
    have hsame : mergeFlags new merged = merged :=
      mergeFlags_eq_self fun entry hentry heq i hbit =>
        (hmerged.flags entry hentry i).mpr ⟨new, hold.1, heq.symm, hbit⟩
    rw [List.cons_append, mergeArrayFrom, if_neg hnewNamed.1, mergeIntoArray_found hnamed hfound,
      hsame]
    exact ih hold.2 hnewNamed.2

/-- Different values are merged already. -/
theorem mergedFrom_self {entries : List FilteredSysnum} (h : (entries.map (·.value)).Nodup) :
    MergedFrom entries entries := by
  refine ⟨h, fun _ => Iff.rfl, fun merged hmerged i => ?_⟩
  constructor
  · exact fun hbit => ⟨merged, hmerged, rfl, hbit⟩
  · rintro ⟨entry, hentry, hvalue, hbit⟩
    rwa [← List.inj_on_of_nodup_map h hentry hmerged hvalue]

/-- Merging the entries of a list one after the other. -/
theorem mergeFilteredSysnum_foldlM {start new merged : List FilteredSysnum}
    (hstart : (start.map (·.value)).Nodup)
    (h : new.foldlM (mergeFilteredSysnum alloc) start = .ok merged) :
    MergedFrom (start ++ new) merged ∧ start.map (·.value) <+: merged.map (·.value) := by
  refine foldlM_ok_invariant
    (fun before merged => MergedFrom (start ++ before) merged ∧
      start.map (·.value) <+: merged.map (·.value)) h ?_ ?_
  · rw [List.append_nil]
    exact ⟨mergedFrom_self hstart, List.prefix_refl _⟩
  · rintro before entry merged merged' ⟨hmerged, hplaces⟩ hstep
    rw [← List.append_assoc]
    exact ⟨mergeFilteredSysnum_ok hmerged hstep,
      hplaces.trans (mergeFilteredSysnum_places hstep)⟩

/-- Unless an allocation fails, the result of merging two arrays is a terminated array of the
different values of both, each with all flags of its entries in both, the entries that were there are
still in their places, and merging the same array again changes nothing. -/
theorem mergeSysnumArrays_merged (alloc : ℕ → Bool) (garbage : ℕ → FilteredSysnum)
    {sysnums : Option (List FilteredSysnum)} {entries newArray newEntries : List FilteredSysnum}
    (hold : Accumulated sysnums entries) (hnew : Terminated newArray newEntries) :
    (∃ count, alloc count = false) ∧
        mergeSysnumArrays alloc garbage sysnums newArray = .error (.errno (-enomem)) ∨
      ∃ array merged, mergeSysnumArrays alloc garbage sysnums newArray = .ok array ∧
        Terminated array merged ∧ MergedFrom (entries ++ newEntries) merged ∧
        entries.map (·.value) <+: merged.map (·.value) ∧
        mergeSysnumArrays alloc garbage (some array) newArray = .ok array := by
  -- A list that is not there yet is allocated with a terminator only.
  have hstart : (∃ count, alloc count = false) ∧
        mergeSysnumArrays alloc garbage sysnums newArray = .error (.errno (-enomem)) ∨
      ∃ array, Terminated array entries ∧
        mergeSysnumArrays alloc garbage sysnums newArray =
          mergeArrayFrom alloc garbage newArray array := by
    cases sysnums with
    | some array => exact .inr ⟨array, hold.1, rfl⟩
    | none =>
      obtain rfl : entries = [] := hold
      cases halloc : alloc 1 with
      | false =>
        have hfails : vlNewArray alloc garbage 1 = .error (.errno (-enomem)) :=
          if_neg (by simp [halloc])
        rw [mergeSysnumArrays, hfails]
        exact .inl ⟨⟨1, halloc⟩, rfl⟩
      | true =>
        have hallocated : vlNewArray alloc garbage 1 = .ok [garbage 0] := if_pos halloc
        rw [mergeSysnumArrays, hallocated]
        exact .inr ⟨_, ⟨⟨(garbage 0).flags, rfl⟩, fun _ h => nomatch h⟩, rfl⟩
  have hnodup : (entries.map (·.value)).Nodup := by
    cases sysnums with
    | some array => exact hold.2
    | none =>
      obtain rfl : entries = [] := hold
      exact List.nodup_nil
  rcases hstart with hfails | ⟨array, harray, hstart⟩
  · exact .inl hfails
  · rw [hstart]
    rcases mergeArrayFrom_refines alloc garbage hnew harray with
      ⟨array', merged, hmerge, hterminated, hentries⟩ | hfails
    · obtain ⟨hmerged, hplaces⟩ := mergeFilteredSysnum_foldlM hnodup hentries
      exact .inr ⟨array', merged, hmerge, hterminated, hmerged, hplaces,
        mergeArrayFrom_again hnew hterminated hmerged fun new hmem =>
          List.mem_append_right _ hmem⟩
    · exact .inl hfails

/-- Two entries of one value are merged into one, and a third is added. -/
theorem mergeSysnumArrays_merged_twice :
    ∃ array merged, mergeSysnumArrays (fun _ => true) (fun _ => ⟨.void, 0⟩) none
        [⟨.openat, 0⟩, ⟨.openat, 1⟩, ⟨.close, 0⟩, ⟨.void, 0⟩] = .ok array ∧
      Terminated array merged ∧
      MergedFrom ([] ++ [⟨.openat, 0⟩, ⟨.openat, 1⟩, ⟨.close, 0⟩]) merged ∧
      ([] : List FilteredSysnum).map (·.value) <+: merged.map (·.value) ∧
      mergeSysnumArrays (fun _ => true) (fun _ => ⟨.void, 0⟩) (some array)
        [⟨.openat, 0⟩, ⟨.openat, 1⟩, ⟨.close, 0⟩, ⟨.void, 0⟩] = .ok array :=
  have hold : Accumulated none [] := rfl
  have hnew : Terminated [⟨.openat, 0⟩, ⟨.openat, 1⟩, ⟨.close, 0⟩, ⟨.void, 0⟩]
      [⟨.openat, 0⟩, ⟨.openat, 1⟩, ⟨.close, 0⟩] := ⟨⟨0, rfl⟩, by decide⟩
  (mergeSysnumArrays_merged (fun _ => true) (fun _ => ⟨.void, 0⟩) hold hnew).resolve_left
    fun ⟨⟨_, hfails⟩, _⟩ => nomatch hfails

end Merged

end Abyss
