import Abyss.Syscall.Seccomp
import Mathlib.Data.List.Nodup
import Mathlib.Data.List.TakeWhile
import Mathlib.Logic.Function.Basic

/-!
# The list of filtered syscalls

`enable_syscall_filtering` adds the syscalls that the tracer itself needs to the user's list,
merges the duplicates and hands the result to the filter builder. Merging keeps one entry for
each value with the flags of all its entries, but the syscalls that the user lists are left
out of the tracer's own before the merge, and so are their flags.
-/

namespace Abyss

open Outcome

/-- What stops the setup: a store outside `sysnum_map`, one through a null array, an errno. -/
inductive FilterFault where
  | mapOverflow
  | nullArray
  | errno (status : ℤ)
deriving DecidableEq

/-- The syscalls that the tracer emulates at their exit. -/
def internalSysnums : List FilteredSysnum :=
  [⟨.ptrace, filterSysexit⟩, ⟨.wait4, filterSysexit⟩, ⟨.waitpid, filterSysexit⟩,
   ⟨.execve, filterSysexit⟩, ⟨.execveat, filterSysexit⟩, ⟨.readlinkat, filterSysexit⟩]

section Lists

variable (alloc : ℕ → Bool)

/-- Add the flags of an entry to the first entry of the same value. -/
def mergeFlags (new : FilteredSysnum) : List FilteredSysnum → List FilteredSysnum
  | [] => []
  | entry :: rest =>
      if entry.value = new.value then { entry with flags := entry.flags ||| new.flags } :: rest
      else entry :: mergeFlags new rest

/-- Merge one entry: an allocated new place for a new value, more flags for an old one. -/
def mergeFilteredSysnum (sysnums : List FilteredSysnum) (new : FilteredSysnum) :
    Except FilterFault (List FilteredSysnum) :=
  if sysnums.all (·.value ≠ new.value) then
    if alloc (sysnums.length + 2) then .ok (sysnums ++ [new]) else .error (.errno (-enomem))
  else .ok (mergeFlags new sysnums)

/-- Merge a terminated list into a list that may not have been allocated yet. -/
def mergeFilteredSysnums (sysnums : Option (List FilteredSysnum)) (new : List FilteredSysnum) :
    Except FilterFault (List FilteredSysnum) :=
  match sysnums with
  | none =>
      if alloc 1 then (untilVoid new).foldlM (mergeFilteredSysnum alloc) []
      else .error (.errno (-enomem))
  | some sysnums => (untilVoid new).foldlM (mergeFilteredSysnum alloc) sysnums

/-- Mark a value in `sysnum_map`, an array of 512 elements. -/
def markSysnum (map : ℕ → Bool) (entry : FilteredSysnum) : Except FilterFault (ℕ → Bool) :=
  if entry.value.toNat < 512 then .ok (Function.update map entry.value.toNat true)
  else .error .mapOverflow

/-- The user's entries, followed by the tracer's own for the values that are not marked. -/
def addInternalSysnums (add : List FilteredSysnum) : Except FilterFault (List FilteredSysnum) := do
  let map ← (untilVoid add).foldlM markSysnum fun _ => false
  if alloc ((untilVoid add).length + internalSysnums.length + 1) then
    .ok (untilVoid add ++ internalSysnums.filter fun entry => !map entry.value.toNat)
  else .error .nullArray

/-- The list handed to the filter builder. -/
def filteredSysnums (add : List FilteredSysnum) : Except FilterFault (List FilteredSysnum) := do
  let withInternal ← addInternalSysnums alloc add
  mergeFilteredSysnums alloc none withInternal

/-- Build the list and install its filter; `libc` is what `find_libc_exec_maps` reads. -/
def enableSyscallFiltering (t : Target) (setNoNewPrivs : Except ℤ Unit)
    (setSeccomp : SockFprog → Except ℤ Unit) (libc : BitVec 64 × BitVec 64)
    (add : List FilteredSysnum) (excludeLibc : Bool) : Except FilterFault Unit := do
  let sysnums ← filteredSysnums alloc add
  match setSeccompFilters alloc t setNoNewPrivs setSeccomp ⟨excludeLibc, libc.1, libc.2⟩ sysnums with
  | .ok () => .ok ()
  | .error status => .error (.errno status)

end Lists

/-! ## Merging -/

/-- `flags` has at least the bits of `wanted`. -/
def HasFlags (flags wanted : ℕ) : Prop :=
  ∀ i, wanted.testBit i = true → flags.testBit i = true

/-- A list has one entry for each value of the entries, with all the flags of that value. -/
structure MergedFrom (entries sysnums : List FilteredSysnum) : Prop where
  nodup : (sysnums.map (·.value)).Nodup
  values : ∀ s, s ∈ sysnums.map (·.value) ↔ s ∈ entries.map (·.value)
  flags : ∀ merged ∈ sysnums, ∀ i, merged.flags.testBit i = true ↔
    ∃ entry ∈ entries, entry.value = merged.value ∧ entry.flags.testBit i = true

/-- Adding flags keeps the values. -/
theorem mergeFlags_values (new : FilteredSysnum) (sysnums : List FilteredSysnum) :
    (mergeFlags new sysnums).map (·.value) = sysnums.map (·.value) := by
  induction sysnums with
  | nil => rfl
  | cons entry rest ih =>
    by_cases h : entry.value = new.value
    · simp [mergeFlags, h]
    · simp [mergeFlags, h, ih]

/-- An entry of distinct values after adding flags is an old one, with the flags if it is meant. -/
theorem mem_mergeFlags {new merged : FilteredSysnum} {sysnums : List FilteredSysnum}
    (hnodup : (sysnums.map (·.value)).Nodup) (h : merged ∈ mergeFlags new sysnums) :
    ∃ old ∈ sysnums, merged.value = old.value ∧
      merged.flags = if old.value = new.value then old.flags ||| new.flags else old.flags := by
  induction sysnums with
  | nil => cases h
  | cons entry rest ih =>
    rw [List.map_cons, List.nodup_cons] at hnodup
    by_cases heq : entry.value = new.value
    · rw [mergeFlags, if_pos heq, List.mem_cons] at h
      rcases h with rfl | hrest
      · exact ⟨entry, List.mem_cons_self, rfl, by simp [heq]⟩
      · have hother : merged.value ≠ new.value := by
          intro hvalue
          exact hnodup.1 (heq ▸ hvalue ▸ List.mem_map_of_mem hrest)
        exact ⟨merged, List.mem_cons_of_mem _ hrest, rfl, by simp [hother]⟩
    · rw [mergeFlags, if_neg heq, List.mem_cons] at h
      rcases h with rfl | hrest
      · exact ⟨merged, List.mem_cons_self, rfl, by simp [heq]⟩
      · obtain ⟨old, hold, hsame⟩ := ih hnodup.2 hrest
        exact ⟨old, List.mem_cons_of_mem _ hold, hsame⟩

/-- Merging one more entry merges the entries up to it. -/
theorem mergeFilteredSysnum_ok {alloc : ℕ → Bool} {entries sysnums sysnums' : List FilteredSysnum}
    {new : FilteredSysnum} (hmerged : MergedFrom entries sysnums)
    (h : mergeFilteredSysnum alloc sysnums new = .ok sysnums') :
    MergedFrom (entries ++ [new]) sysnums' := by
  unfold mergeFilteredSysnum at h
  by_cases hnew : sysnums.all (·.value ≠ new.value) = true
  · have hfresh : new.value ∉ sysnums.map (·.value) := by
      intro hmem
      obtain ⟨entry, hentry, hvalue⟩ := List.mem_map.mp hmem
      exact of_decide_eq_true (List.all_eq_true.mp hnew entry hentry) hvalue
    rw [if_pos hnew] at h
    split at h
    · obtain rfl := Except.ok.inj h
      refine ⟨?_, ?_, ?_⟩
      · rw [List.map_append, List.nodup_append]
        refine ⟨hmerged.nodup, by simp, ?_⟩
        intro s hs s' hs' heq
        rw [List.map_singleton, List.mem_singleton] at hs'
        exact hfresh (hs' ▸ heq ▸ hs)
      · intro s
        simp only [List.map_append, List.mem_append, hmerged.values s]
      · intro merged hmem i
        simp only [List.mem_append, List.mem_singleton] at hmem ⊢
        rcases hmem with hold | rfl
        · have hother : new.value ≠ merged.value := by
            intro heq
            exact hfresh (heq ▸ List.mem_map_of_mem hold)
          rw [hmerged.flags merged hold i]
          constructor
          · rintro ⟨entry, hentry, hbit⟩
            exact ⟨entry, .inl hentry, hbit⟩
          · rintro ⟨entry, hentry | rfl, hvalue, hbit⟩
            · exact ⟨entry, hentry, hvalue, hbit⟩
            · exact absurd hvalue hother
        · constructor
          · exact fun hbit => ⟨merged, .inr rfl, rfl, hbit⟩
          · rintro ⟨entry, hentry | rfl, hvalue, hbit⟩
            · exact absurd ((hmerged.values _).mpr (hvalue ▸ List.mem_map_of_mem hentry)) hfresh
            · exact hbit
    · cases h
  · have hlisted : new.value ∈ sysnums.map (·.value) := by
      by_contra hfresh
      refine hnew (List.all_eq_true.mpr fun entry hentry => decide_eq_true fun hvalue => ?_)
      exact hfresh (hvalue ▸ List.mem_map_of_mem hentry)
    rw [if_neg hnew] at h
    obtain rfl := Except.ok.inj h
    refine ⟨?_, ?_, ?_⟩
    · rw [mergeFlags_values]
      exact hmerged.nodup
    · intro s
      have hnew' := (hmerged.values _).mp hlisted
      rw [mergeFlags_values, hmerged.values s, List.map_append, List.mem_append,
        List.map_singleton, List.mem_singleton]
      exact ⟨.inl, fun hs => hs.elim id fun heq => heq ▸ hnew'⟩
    · intro merged hmem i
      obtain ⟨old, hold, hvalue, hflags⟩ := mem_mergeFlags hmerged.nodup hmem
      have hbits := hmerged.flags old hold i
      simp only [List.mem_append, List.mem_singleton, hvalue, or_and_right, exists_or,
        exists_eq_left, ← hbits]
      by_cases heq : old.value = new.value
      · simp [hflags, heq, Nat.testBit_or]
      · simp [hflags, heq, Ne.symm heq]

/-- A merged list has one entry for each value, with all the flags. -/
theorem mergeFilteredSysnums_ok {alloc : ℕ → Bool} {new sysnums : List FilteredSysnum}
    (h : mergeFilteredSysnums alloc none new = .ok sysnums) :
    MergedFrom (untilVoid new) sysnums := by
  simp only [mergeFilteredSysnums] at h
  split at h
  · exact foldlM_ok_invariant MergedFrom h ⟨by simp, by simp, by simp⟩
      fun _ _ _ _ hmerged hstep => mergeFilteredSysnum_ok hmerged hstep
  · cases h

/-- With memory left, merging always ends. -/
theorem mergeFilteredSysnums_exists {alloc : ℕ → Bool} (halloc : ∀ n, alloc n = true)
    (new : List FilteredSysnum) :
    ∃ sysnums, mergeFilteredSysnums alloc none new = .ok sysnums := by
  have hstep : ∀ sysnums entry, ∃ sysnums', mergeFilteredSysnum alloc sysnums entry =
      .ok sysnums' := by
    intro sysnums entry
    rw [mergeFilteredSysnum, halloc, if_pos rfl]
    split
    · exact ⟨_, rfl⟩
    · exact ⟨_, rfl⟩
  have hfold : ∀ entries start : List FilteredSysnum, ∃ sysnums,
      entries.foldlM (mergeFilteredSysnum alloc) start = .ok sysnums := by
    intro entries
    induction entries with
    | nil => exact fun start => ⟨start, rfl⟩
    | cons entry entries ih =>
      intro start
      obtain ⟨next, hnext⟩ := hstep start entry
      obtain ⟨sysnums, hsysnums⟩ := ih next
      exact ⟨sysnums, by rw [List.foldlM_cons, hnext]; exact hsysnums⟩
  rw [mergeFilteredSysnums, halloc, if_pos rfl]
  exact hfold _ _

/-! ## The tracer's own syscalls -/

/-- The integers of the tracer's own syscalls stand for nothing else. -/
theorem internalSysnums_toNat {own : FilteredSysnum} (hown : own ∈ internalSysnums) {v : Sysnum}
    (h : v.toNat = own.value.toNat) : v = own.value := by
  have hsmall : ∀ own ∈ internalSysnums, own.value.toNat < 436 := by decide
  have hnamed := hsmall own hown
  have hidx : v.ctorIdx = own.value.toNat := by
    rw [← h]
    rw [← h] at hnamed
    unfold Sysnum.toNat at hnamed ⊢
    split
    · simp at hnamed
    · rfl
  simp only [internalSysnums, List.mem_cons, List.not_mem_nil, or_false] at hown
  rcases hown with rfl | rfl | rfl | rfl | rfl | rfl
  · exact Sysnum.ptrace.elim v hidx rfl
  · exact Sysnum.wait4.elim v hidx rfl
  · exact Sysnum.waitpid.elim v hidx rfl
  · exact Sysnum.execve.elim v hidx rfl
  · exact Sysnum.execveat.elim v hidx rfl
  · exact Sysnum.readlinkat.elim v hidx rfl

/-- Marking succeeds for small values, and marks exactly these. -/
theorem markSysnum_foldlM (entries : List FilteredSysnum) (map : ℕ → Bool) :
    (∃ map', entries.foldlM markSysnum map = .ok map') ↔
      ∀ entry ∈ entries, entry.value.toNat < 512 := by
  induction entries generalizing map with
  | nil => simp [List.foldlM_nil, pure_ok_iff]
  | cons entry entries ih =>
    simp only [List.foldlM_cons, bind_ok_iff, List.forall_mem_cons]
    unfold markSysnum
    by_cases h : entry.value.toNat < 512
    · simp only [h, ↓reduceIte, Except.ok.injEq, exists_eq_left', true_and]
      exact ih _
    · simp [h]

/-- The marks are the integers of the entries. -/
theorem markSysnum_marks {entries : List FilteredSysnum} {map : ℕ → Bool}
    (h : entries.foldlM markSysnum (fun _ => false) = .ok map) (n : ℕ) :
    map n = true ↔ ∃ entry ∈ entries, entry.value.toNat = n := by
  refine foldlM_ok_invariant (fun before map =>
    ∀ n, map n = true ↔ ∃ entry ∈ before, entry.value.toNat = n) h (by simp) ?_ n
  intro before entry map map' hmap hstep n
  unfold markSysnum at hstep
  split at hstep
  · obtain rfl := Except.ok.inj hstep
    simp only [List.mem_append, List.mem_singleton, or_and_right, exists_or, exists_eq_left,
      ← hmap n, Function.update_apply]
    by_cases hn : n = entry.value.toNat
    · simp [hn]
    · simp [hn, Ne.symm hn]
  · cases hstep

/-- What the handed list has to contain. -/
structure InterceptsRequired (add sysnums : List FilteredSysnum) : Prop where
  user : ∀ entry ∈ untilVoid add,
    ∃ merged ∈ sysnums, merged.value = entry.value ∧ HasFlags merged.flags entry.flags
  once : ∀ own ∈ internalSysnums, sysnums.countP (·.value = own.value) = 1
  sysexit : ∀ own ∈ internalSysnums, ∀ merged ∈ sysnums, merged.value = own.value →
    HasFlags merged.flags filterSysexit

/-- The user's values fit the map, and each of the tracer's own that the user lists is listed
for the exit stage by the user. -/
def KeepsSysexit (add : List FilteredSysnum) : Prop :=
  (∀ entry ∈ untilVoid add, entry.value.toNat < 512) ∧
    ∀ own ∈ internalSysnums, (∃ entry ∈ untilVoid add, entry.value = own.value) →
      ∃ entry ∈ untilVoid add, entry.value = own.value ∧ HasFlags entry.flags filterSysexit

/-- The handed list merges the user's entries and the tracer's own that the user left out. -/
theorem filteredSysnums_ok {alloc : ℕ → Bool} {add sysnums : List FilteredSysnum}
    (h : filteredSysnums alloc add = .ok sysnums) :
    ∃ missing, MergedFrom (untilVoid add ++ missing) sysnums ∧
      ∀ entry, entry ∈ missing ↔ entry ∈ internalSysnums ∧
        ¬∃ user ∈ untilVoid add, user.value = entry.value := by
  simp only [filteredSysnums, addInternalSysnums, bind_ok_iff, ite_ok_iff] at h
  obtain ⟨both, ⟨map, hmap, hboth⟩, hmerge⟩ := h
  have hmerged := mergeFilteredSysnums_ok hmerge
  rcases hboth with ⟨-, hboth⟩ | ⟨-, hboth⟩
  · obtain rfl := Except.ok.inj hboth
    refine ⟨internalSysnums.filter fun entry => !map entry.value.toNat, ?_, ?_⟩
    · have huntil : untilVoid (untilVoid add ++
          internalSysnums.filter fun entry => !map entry.value.toNat) =
          untilVoid add ++ internalSysnums.filter fun entry => !map entry.value.toNat := by
        have hvoid : ∀ own ∈ internalSysnums, own.value ≠ .void := by decide
        refine List.takeWhile_eq_self_iff.mpr fun entry hentry => ?_
        rcases List.mem_append.mp hentry with huser | hown
        · unfold untilVoid at huser
          simpa using List.mem_takeWhile_imp huser
        · exact decide_eq_true (hvoid entry (List.mem_of_mem_filter hown))
      rwa [huntil] at hmerged
    · intro entry
      rw [List.mem_filter, Bool.not_eq_true', ← Bool.not_eq_true, markSysnum_marks hmap]
      refine and_congr_right fun hown => not_congr ?_
      refine exists_congr fun user => and_congr_right fun _ => ?_
      exact ⟨internalSysnums_toNat hown, fun h => by rw [h]⟩
  · cases hboth

/-- `FILTER_SYSEXIT` is the lowest bit. -/
theorem hasFlags_filterSysexit (flags : ℕ) :
    HasFlags flags filterSysexit ↔ flags.testBit 0 = true := by
  constructor
  · exact fun h => h 0 rfl
  · intro h i hi
    obtain rfl : i = 0 := Nat.testBit_one_eq_true_iff_self_eq_zero.mp hi
    exact h

/-- Some required syscall loses its exit stage exactly when the user lists it without one. -/
theorem filteredSysnums_interceptsRequired_iff {alloc : ℕ → Bool}
    (halloc : ∀ n, alloc n = true) (add : List FilteredSysnum) :
    (∃ sysnums, filteredSysnums alloc add = .ok sysnums ∧ InterceptsRequired add sysnums) ↔
      KeepsSysexit add := by
  have hsmall : (∃ sysnums, filteredSysnums alloc add = .ok sysnums) ↔
      ∀ entry ∈ untilVoid add, entry.value.toNat < 512 := by
    rw [← markSysnum_foldlM _ fun _ => false]
    simp only [filteredSysnums, addInternalSysnums, bind_ok_iff, halloc, ↓reduceIte]
    constructor
    · rintro ⟨_, _, ⟨map, hmap, -⟩, -⟩
      exact ⟨map, hmap⟩
    · rintro ⟨map, hmap⟩
      obtain ⟨sysnums, hsysnums⟩ := mergeFilteredSysnums_exists halloc (untilVoid add ++
        internalSysnums.filter fun entry => !map entry.value.toNat)
      exact ⟨sysnums, _, ⟨map, hmap, rfl⟩, hsysnums⟩
  have hown : ∀ {missing sysnums : List FilteredSysnum},
      MergedFrom (untilVoid add ++ missing) sysnums →
      (∀ entry, entry ∈ missing ↔ entry ∈ internalSysnums ∧
        ¬∃ user ∈ untilVoid add, user.value = entry.value) →
      ∀ own ∈ internalSysnums, ∃ merged ∈ sysnums, merged.value = own.value := by
    intro missing sysnums hmerged hmissing own hmem
    refine List.mem_map.mp ((hmerged.values own.value).mpr ?_)
    by_cases huser : ∃ user ∈ untilVoid add, user.value = own.value
    · obtain ⟨user, huser, hvalue⟩ := huser
      exact hvalue ▸ List.mem_map_of_mem (List.mem_append_left _ huser)
    · exact List.mem_map_of_mem (List.mem_append_right _ ((hmissing own).mpr ⟨hmem, huser⟩))
  constructor
  · rintro ⟨sysnums, h, hrequired⟩
    refine ⟨hsmall.mp ⟨sysnums, h⟩, fun own hmem huser => ?_⟩
    obtain ⟨missing, hmerged, hmissing⟩ := filteredSysnums_ok h
    obtain ⟨merged, hin, hvalue⟩ := hown hmerged hmissing own hmem
    have hbit := (hasFlags_filterSysexit _).mp (hrequired.sysexit own hmem merged hin hvalue)
    obtain ⟨entry, hentry, hsame, hflag⟩ := (hmerged.flags merged hin 0).mp hbit
    rcases List.mem_append.mp hentry with hlisted | hadded
    · exact ⟨entry, hlisted, hsame.trans hvalue, (hasFlags_filterSysexit _).mpr hflag⟩
    · rw [← hvalue, ← hsame] at huser
      exact absurd huser ((hmissing entry).mp hadded).2
  · rintro ⟨hvalues, hflagged⟩
    obtain ⟨sysnums, h⟩ := hsmall.mpr hvalues
    obtain ⟨missing, hmerged, hmissing⟩ := filteredSysnums_ok h
    refine ⟨sysnums, h, ?_, ?_, ?_⟩
    · intro entry hentry
      have hin := List.mem_append_left missing hentry
      obtain ⟨merged, hmem, hvalue⟩ :=
        List.mem_map.mp ((hmerged.values entry.value).mpr (List.mem_map_of_mem hin))
      exact ⟨merged, hmem, hvalue, fun i hi =>
        (hmerged.flags merged hmem i).mpr ⟨entry, hin, hvalue.symm, hi⟩⟩
    · intro own hmem
      obtain ⟨merged, hin, hvalue⟩ := hown hmerged hmissing own hmem
      have hlisted : own.value ∈ sysnums.map (·.value) := List.mem_map.mpr ⟨merged, hin, hvalue⟩
      have hcount := List.count_eq_one_of_mem hmerged.nodup hlisted
      rw [List.count, List.countP_map] at hcount
      simpa [Function.comp_def, beq_eq_decide] using hcount
    · intro own hmem merged hin hvalue
      refine (hasFlags_filterSysexit _).mpr ((hmerged.flags merged hin 0).mpr ?_)
      by_cases huser : ∃ user ∈ untilVoid add, user.value = own.value
      · obtain ⟨entry, hentry, hsame, hflag⟩ := hflagged own hmem huser
        exact ⟨entry, List.mem_append_left _ hentry, hsame.trans hvalue.symm,
          (hasFlags_filterSysexit _).mp hflag⟩
      · have hsysexit : ∀ own ∈ internalSysnums, own.flags.testBit 0 = true := by decide
        exact ⟨own, List.mem_append_right _ ((hmissing own).mpr ⟨hmem, huser⟩), hvalue.symm,
          hsysexit own hmem⟩

/-- Listing `execve` without its exit stage takes the exit stage away. -/
theorem filteredSysnums_drops_execve_sysexit :
    ∃ sysnums, filteredSysnums (fun _ => true) [⟨.execve, 0⟩] = .ok sysnums ∧
      ¬InterceptsRequired [⟨.execve, 0⟩] sysnums := by
  refine ⟨[⟨.execve, 0⟩, ⟨.ptrace, 1⟩, ⟨.wait4, 1⟩, ⟨.waitpid, 1⟩, ⟨.execveat, 1⟩,
    ⟨.readlinkat, 1⟩], by decide +kernel, fun hrequired => ?_⟩
  have hflags := hrequired.sysexit ⟨.execve, filterSysexit⟩ (by simp [internalSysnums])
    ⟨.execve, 0⟩ (by simp) rfl
  exact absurd (hflags 0 rfl) (by decide)

/-- A list with `openat` alone keeps the required exit stages. -/
theorem filteredSysnums_interceptsRequired_openat :
    (∃ sysnums, filteredSysnums (fun _ => true) [⟨.openat, 0⟩] = .ok sysnums ∧
      InterceptsRequired [⟨.openat, 0⟩] sysnums) ↔ KeepsSysexit [⟨.openat, 0⟩] :=
  filteredSysnums_interceptsRequired_iff (fun _ => rfl) _

end Abyss
