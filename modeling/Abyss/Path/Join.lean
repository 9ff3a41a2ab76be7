import Abyss.Execve.Path
import Abyss.Library.CString

/-!
# Joining paths

The translation of `join_paths`, at the level of the buffer that the paths are copied into. The
length of the result is kept beside the buffer; each path is appended with a separator more or
less, unless the limit is exceeded. The stores are checked against the bounds of the buffer.
-/

namespace Abyss.Paths

open Bytes CString Machine
open Abyss.Execve (Path slash appendPath)

/-- Read one character of the buffer. -/
def charAt (i : ℕ) : Machine (List Byte) Unit Byte := do
  let result ← read
  match result[i]? with
  | some c => pure c
  | none => fault ()

/-- The last character of a result that is not empty. -/
def lastChar (length : ℕ) : Machine (List Byte) Unit Byte :=
  if 0 < length then charAt (length - 1) else pure 0

/-- The loop of `join_paths`, from a length of the result on. -/
def joinPathsFrom : ℕ → List (Option Path) → Machine (List Byte) Unit ℤ
  | _, [] => pure 0
  | length, none :: rest => joinPathsFrom length rest
  | length, some path :: rest => do
    let last ← lastChar length
    if 0 < length ∧ last ≠ slash ∧ path.headD 0 ≠ slash then
      -- A new path separator is needed.
      let newLength := length + path.length + 1
      if newLength + 1 ≥ pathMax then pure (-enametoolong)
      else do
        strcat length [slash]
        strcat length path
        joinPathsFrom newLength rest
    else if 0 < length ∧ last = slash ∧ path.headD 0 = slash then
      -- There are already two path separators.
      let newLength := length + path.length - 1
      if newLength + 1 ≥ pathMax then pure (-enametoolong)
      else do
        strcat length path.tail
        joinPathsFrom newLength rest
    else
      -- There is already one path separator, or the result is empty.
      let newLength := length + path.length
      if newLength + 1 ≥ pathMax then pure (-enametoolong)
      else do
        strcat length path
        joinPathsFrom newLength rest

/-- `join_paths`, into the buffer that is the state. -/
def joinPaths (paths : List (Option Path)) : Machine (List Byte) Unit ℤ := do
  attempt fun result => if 0 < result.length then some (result.set 0 0) else none
  joinPathsFrom 0 paths

/-! ## The concatenation of paths -/

/-- Two parts with one separator in between. -/
def separated (left right : Path) : Path :=
  if left.getLast? = some slash ∧ right.head? = some slash then left ++ right.tail
  else if left.getLast? ≠ some slash ∧ right.head? ≠ some slash then left ++ slash :: right
  else left ++ right

/-- All parts, each one separated from those before it. -/
def joinParts : List Path → Path
  | [] => []
  | first :: rest => rest.foldl separated first

/-- The join of the paths that are not null, those that are empty being skipped at the start. -/
def joined (paths : List (Option Path)) : Path :=
  joinParts ((paths.filterMap id).dropWhile (· = []))

/-- The limit that is enforced. -/
def Fits (path : Path) : Prop := path.length + 1 < pathMax

instance (path : Path) : Decidable (Fits path) := inferInstanceAs (Decidable (_ < _))

/-- What one step of the loop makes of the result. -/
def appendPart (result path : Path) : Path := if result = [] then path else separated result path

/-- What the loop makes of the result. -/
def appendParts (result : Path) (paths : List (Option Path)) : Path :=
  (paths.filterMap id).foldl appendPart result

section Parts

variable {left right result path : Path} {paths rest : List (Option Path)} {parts : List Path}

/-- A path that is separated from another one begins with it. -/
theorem separated_prefix (left right : Path) : left <+: separated left right := by
  unfold separated
  split_ifs <;> exact List.prefix_append ..

/-- A path to which a part is appended begins with what it was. -/
theorem prefix_appendPart (result path : Path) : result <+: appendPart result path := by
  unfold appendPart
  split
  · rename_i h
    rw [h]
    exact List.nil_prefix
  · exact separated_prefix ..

/-- No part is appended. -/
@[simp] theorem appendParts_nil (result : Path) : appendParts result [] = result := rfl

/-- A part that is null is skipped. -/
@[simp] theorem appendParts_none (result : Path) (rest : List (Option Path)) :
    appendParts result (none :: rest) = appendParts result rest := rfl

/-- Parts are appended one after the other. -/
@[simp] theorem appendParts_some (result path : Path) (rest : List (Option Path)) :
    appendParts result (some path :: rest) = appendParts (appendPart result path) rest := rfl

/-- The result only grows. -/
theorem prefix_appendParts (result : Path) (paths : List (Option Path)) :
    result <+: appendParts result paths := by
  induction paths generalizing result with
  | nil => exact List.prefix_refl _
  | cons path rest ih =>
    cases path with
    | none => exact ih result
    | some path => exact (prefix_appendPart result path).trans (ih _)

/-- Once there is a result, the parts are separated. -/
theorem foldl_appendPart (h : result ≠ []) (parts : List Path) :
    parts.foldl appendPart result = parts.foldl separated result := by
  induction parts generalizing result with
  | nil => rfl
  | cons path rest ih =>
    have hnext : separated result path ≠ [] := fun hnil =>
      h (List.prefix_nil.mp (hnil ▸ separated_prefix result path))
    rw [List.foldl_cons, List.foldl_cons, appendPart, if_neg h]
    exact ih hnext

/-- The loop makes the join. -/
theorem joined_eq (paths : List (Option Path)) : joined paths = appendParts [] paths := by
  unfold joined appendParts
  induction paths.filterMap id with
  | nil => rfl
  | cons path rest ih =>
    by_cases h : path = []
    · rw [List.dropWhile_cons_of_pos (by simpa using h), ih, List.foldl_cons, h]
      rfl
    · rw [List.dropWhile_cons_of_neg (by simpa using h), List.foldl_cons]
      exact (foldl_appendPart h rest).symm

end Parts

/-! ## The loop -/

section Loop

variable {result path suffix : Path} {buffer : List Byte} {paths rest : List (Option Path)}

/-- The last character is read where the result ends. -/
theorem lastChar_apply (h : Holds buffer 0 result) :
    lastChar result.length buffer = (.ok (result.getLast?.getD 0), buffer) := by
  obtain ⟨behind, hbehind⟩ := h.exists_append
  unfold lastChar
  by_cases hne : result = []
  · subst result
    rfl
  · have hpos := List.length_pos_iff.mpr hne
    have hread : buffer[result.length - 1]? = some (result.getLast?.getD 0) := by
      rw [hbehind, List.take_zero, List.nil_append, List.getElem?_append_left (by omega),
        List.getLast?_eq_getElem?, List.getElem?_eq_getElem (by omega)]
      rfl
    rw [if_pos hpos]
    unfold charAt
    rw [bind_apply_ok (read_apply buffer)]
    simp only [hread, pure_apply]

/-- A path begins with a separator exactly if its first character is one. -/
theorem headD_eq_slash (path : Path) : path.headD 0 = slash ↔ path.head? = some slash := by
  cases path with
  | nil => decide
  | cons c rest => simp

/-- A suffix is appended to the result. -/
theorem strcat_apply (h : Holds buffer 0 result) (hlength : buffer.length = pathMax)
    (hsuffix : (0 : Byte) ∉ suffix) (hfits : Fits (result ++ suffix)) :
    ∃ buffer', strcat result.length suffix buffer = (.ok (), buffer') ∧
      buffer'.length = pathMax ∧ Holds buffer' 0 (result ++ suffix) := by
  unfold Fits at hfits
  rw [List.length_append] at hfits
  obtain ⟨buffer', hrun, hlength', -, hholds⟩ :=
    h.strcat (Nat.le_refl result.length) hsuffix (by omega)
  rw [Nat.zero_add] at hrun
  exact ⟨buffer', hrun, hlength'.trans hlength, hholds⟩

/-- What a step of the loop does: it fails where the result would exceed the limit, and otherwise
goes on with the result that has one more part. -/
def StepsTo (result path : Path) (rest : List (Option Path)) (buffer : List Byte)
    (run : Except Unit ℤ × List Byte) : Prop :=
  if Fits (appendPart result path) then
    ∃ buffer', run = joinPathsFrom (appendPart result path).length rest buffer' ∧
      buffer'.length = pathMax ∧ Holds buffer' 0 (appendPart result path)
  else run = (.ok (-enametoolong), buffer)

/-- A step that appends one suffix. -/
theorem stepsTo_suffix (h : Holds buffer 0 result) (hlength : buffer.length = pathMax)
    (hsuffix : (0 : Byte) ∉ suffix) (hpart : appendPart result path = result ++ suffix) :
    StepsTo result path rest buffer
      ((if (result.length + suffix.length) + 1 ≥ pathMax then pure (-enametoolong)
        else do
          strcat result.length suffix
          joinPathsFrom (result.length + suffix.length) rest : Machine (List Byte) Unit ℤ)
        buffer) := by
  unfold StepsTo
  rw [hpart]
  by_cases hfits : Fits (result ++ suffix)
  · obtain ⟨buffer', hrun, hlength', hholds⟩ := strcat_apply h hlength hsuffix hfits
    rw [if_pos hfits]
    unfold Fits at hfits
    rw [List.length_append] at hfits ⊢
    refine ⟨buffer', ?_, hlength', hholds⟩
    rw [if_neg (by omega), bind_apply_ok hrun]
  · rw [if_neg hfits]
    unfold Fits at hfits
    rw [List.length_append] at hfits
    rw [if_pos (by omega)]
    rfl

/-- A step that appends a separator and a path. -/
theorem stepsTo_separator (h : Holds buffer 0 result) (hlength : buffer.length = pathMax)
    (hpath : (0 : Byte) ∉ path) (hpart : appendPart result path = result ++ slash :: path) :
    StepsTo result path rest buffer
      ((if (result.length + path.length + 1) + 1 ≥ pathMax then pure (-enametoolong)
        else do
          strcat result.length [slash]
          strcat result.length path
          joinPathsFrom (result.length + path.length + 1) rest : Machine (List Byte) Unit ℤ)
        buffer) := by
  have hlen : (result ++ slash :: path).length = result.length + path.length + 1 := by
    rw [List.length_append, List.length_cons, Nat.add_assoc]
  unfold StepsTo
  rw [hpart]
  by_cases hfits : Fits (result ++ slash :: path)
  · rw [if_pos hfits]
    unfold Fits at hfits
    have hfirst : Fits (result ++ [slash]) := by
      unfold Fits
      rw [List.length_append, List.length_singleton]
      omega
    obtain ⟨buffer₁, hrun₁, hlength₁, hholds₁⟩ := strcat_apply h hlength (by decide) hfirst
    have hlen₁ : (result ++ [slash]).length = result.length + 1 := List.length_append
    obtain ⟨buffer₂, hrun₂, hlength₂, -, hholds₂⟩ :=
      hholds₁.strcat (j := result.length) (by omega) hpath (by omega)
    rw [Nat.zero_add] at hrun₂
    rw [List.append_assoc, List.singleton_append] at hholds₂
    refine ⟨buffer₂, ?_, hlength₂.trans hlength₁, hholds₂⟩
    rw [if_neg (by omega), bind_apply_ok hrun₁, bind_apply_ok hrun₂, hlen]
  · rw [if_neg hfits]
    unfold Fits at hfits
    rw [if_pos (by omega)]
    rfl

/-- One path of the list. -/
theorem joinPathsFrom_step (h : Holds buffer 0 result) (hlength : buffer.length = pathMax)
    (hpath : (0 : Byte) ∉ path) :
    StepsTo result path rest buffer (joinPathsFrom result.length (some path :: rest) buffer) := by
  rw [joinPathsFrom, bind_apply_ok (lastChar_apply h)]
  by_cases hne : result = []
  · subst result
    exact stepsTo_suffix h hlength hpath rfl
  · have hpos := List.length_pos_iff.mpr hne
    have hlast : result.getLast?.getD 0 = slash ↔ result.getLast? = some slash := by
      rw [List.getLast?_eq_some_getLast hne, Option.getD_some, Option.some.injEq]
    have hpart : appendPart result path = separated result path := if_neg hne
    simp only [hpos, true_and, headD_eq_slash, hlast, ne_eq]
    unfold separated at hpart
    by_cases hleft : result.getLast? = some slash <;> by_cases hright : path.head? = some slash
    · -- One of the two separators is dropped.
      obtain ⟨tail, rfl⟩ : ∃ tail, path = slash :: tail :=
        ⟨path.tail, (List.cons_head?_tail hright).symm⟩
      rw [if_pos ⟨hleft, hright⟩] at hpart
      rw [if_neg (by simp [hleft]), if_pos ⟨hleft, hright⟩]
      have hlength' : result.length + (slash :: tail).length - 1 = result.length + tail.length := by
        simp
      rw [hlength']
      exact stepsTo_suffix h hlength (fun h => hpath (List.mem_cons_of_mem _ h)) hpart
    · rw [if_neg (by simp [hright]), if_neg (by simp [hleft])] at hpart
      rw [if_neg (by simp [hleft]), if_neg (by simp [hright])]
      exact stepsTo_suffix h hlength hpath hpart
    · rw [if_neg (by simp [hleft]), if_neg (by simp [hright])] at hpart
      rw [if_neg (by simp [hright]), if_neg (by simp [hleft])]
      exact stepsTo_suffix h hlength hpath hpart
    · -- The separator is appended before the path.
      rw [if_neg (by simp [hleft]), if_pos ⟨hleft, hright⟩] at hpart
      rw [if_pos ⟨hleft, hright⟩]
      exact stepsTo_separator h hlength hpath hpart

/-- How the loop ends: with the result that has all parts, or where the limit would be exceeded,
with the result that has the preceding ones. -/
def EndsWith (result : Path) (paths : List (Option Path)) (status : ℤ) (buffer : List Byte) :
    Prop :=
  if Fits (appendParts result paths) then status = 0 ∧ Holds buffer 0 (appendParts result paths)
  else
    status = -enametoolong ∧ ∃ before path after, paths = before ++ some path :: after ∧
      Fits (appendParts result before) ∧ ¬Fits (appendParts result (before ++ [some path])) ∧
      Holds buffer 0 (appendParts result before)

/-- A result that fits has a start that fits. -/
theorem Fits.of_isPrefix {start : Path} (h : Fits path) (hstart : start <+: path) : Fits start := by
  have hle := hstart.length_le
  unfold Fits at h ⊢
  omega

/-- All paths of the list. -/
theorem joinPathsFrom_endsWith (h : Holds buffer 0 result) (hlength : buffer.length = pathMax)
    (hfits : Fits result) (hpaths : ∀ path, some path ∈ paths → (0 : Byte) ∉ path) :
    ∃ status buffer', joinPathsFrom result.length paths buffer = (.ok status, buffer') ∧
      buffer'.length = pathMax ∧ EndsWith result paths status buffer' := by
  induction paths generalizing result buffer with
  | nil =>
    refine ⟨0, buffer, rfl, hlength, ?_⟩
    unfold EndsWith
    rw [appendParts_nil, if_pos hfits]
    exact ⟨rfl, h⟩
  | cons path rest ih =>
    have hrest : ∀ path, some path ∈ rest → (0 : Byte) ∉ path := fun path hp =>
      hpaths path (List.mem_cons_of_mem _ hp)
    cases path with
    | none =>
      obtain ⟨status, buffer', hrun, hlength', hends⟩ := ih h hlength hfits hrest
      refine ⟨status, buffer', hrun, hlength', ?_⟩
      unfold EndsWith at hends ⊢
      rw [appendParts_none]
      split
      · rwa [if_pos ‹_›] at hends
      · rw [if_neg ‹_›] at hends
        obtain ⟨hstatus, before, path, after, rfl, hends⟩ := hends
        exact ⟨hstatus, none :: before, path, after, rfl, hends⟩
    | some path =>
      have hstep : StepsTo result path rest buffer _ :=
        joinPathsFrom_step h hlength (hpaths path (List.mem_cons_self ..))
      unfold StepsTo at hstep
      by_cases hnext : Fits (appendPart result path)
      · rw [if_pos hnext] at hstep
        obtain ⟨buffer₁, hrun₁, hlength₁, hholds₁⟩ := hstep
        obtain ⟨status, buffer', hrun, hlength', hends⟩ := ih hholds₁ hlength₁ hnext hrest
        refine ⟨status, buffer', hrun₁.trans hrun, hlength', ?_⟩
        unfold EndsWith at hends ⊢
        rw [appendParts_some]
        split
        · rwa [if_pos ‹_›] at hends
        · rw [if_neg ‹_›] at hends
          obtain ⟨hstatus, before, path', after, rfl, hends⟩ := hends
          exact ⟨hstatus, some path :: before, path', after, rfl, hends⟩
      · rw [if_neg hnext] at hstep
        have hall : ¬Fits (appendParts result (some path :: rest)) := fun hall =>
          hnext (hall.of_isPrefix (prefix_appendParts ..))
        refine ⟨_, buffer, hstep, hlength, ?_⟩
        unfold EndsWith
        rw [if_neg hall]
        exact ⟨rfl, [], path, rest, rfl, hfits, hnext, h⟩

/-- The result is emptied first. -/
theorem joinPaths_endsWith {result : List Byte} (hresult : result.length = pathMax)
    (hpaths : ∀ path, some path ∈ paths → (0 : Byte) ∉ path) :
    ∃ status result', joinPaths paths result = (.ok status, result') ∧ result'.length = pathMax ∧
      EndsWith [] paths status result' := by
  have hempty : Holds (result.set 0 0) 0 [] := by
    obtain ⟨c, rest, rfl⟩ := List.exists_cons_of_length_pos (hresult ▸ (by decide : 0 < pathMax))
    exact holds_append List.not_mem_nil [] rest
  have hlength : (result.set 0 0).length = pathMax := by rwa [List.length_set]
  obtain ⟨status, result', hrun, hlength', hends⟩ :=
    joinPathsFrom_endsWith hempty hlength (by decide) hpaths
  refine ⟨status, result', ?_, hlength', hends⟩
  have hclear : attempt (fun result : List Byte =>
      if 0 < result.length then some (result.set 0 0) else none) result =
      (.ok (), result.set 0 0) := by
    simp only [attempt]
    rw [if_pos (by rw [hresult]; decide)]
  rw [joinPaths, bind_apply_ok hclear]
  exact hrun

end Loop

/-- The paths are joined without a store outside of the buffer. The join is the result if it is
below the limit, and otherwise the join of the paths that precede the one that exceeds it. -/
theorem joinPaths_joins {paths : List (Option Path)}
    (hpaths : ∀ path, some path ∈ paths → (0 : Byte) ∉ path) {result : List Byte}
    (hresult : result.length = pathMax) :
    ∃ status result', joinPaths paths result = (.ok status, result') ∧ result'.length = pathMax ∧
      if Fits (joined paths) then status = 0 ∧ Holds result' 0 (joined paths)
      else
        status = -enametoolong ∧ ∃ before path after, paths = before ++ some path :: after ∧
          Fits (joined before) ∧ ¬Fits (joined (before ++ [some path])) ∧
          Holds result' 0 (joined before) := by
  obtain ⟨status, result', hrun, hlength, hends⟩ := joinPaths_endsWith hresult hpaths
  refine ⟨status, result', hrun, hlength, ?_⟩
  unfold EndsWith at hends
  simpa only [joined_eq] using hends

/-- The parts "/a/", nothing, and "/b". -/
theorem joinPaths_joins_bothSeparators :
    ∃ result', joinPaths [some [47, 97, 47], none, some [47, 98]] (List.replicate pathMax 1) =
      (.ok 0, result') ∧ Holds result' 0 [47, 97, 47, 98] := by
  obtain ⟨status, result', hrun, -, hends⟩ :=
    @joinPaths_joins [some [47, 97, 47], none, some [47, 98]] (by simp)
      (List.replicate pathMax 1) List.length_replicate
  rw [if_pos (by decide)] at hends
  obtain ⟨rfl, hholds⟩ := hends
  exact ⟨result', hrun, hholds⟩

/-- Nothing is added between an empty first part and the next one. -/
theorem emptyFirst_notSeparated : ¬∀ (paths : List (Option Path)) (result : List Byte),
    (∀ path, some path ∈ paths → (0 : Byte) ∉ path) → result.length = pathMax →
      ∃ status result', joinPaths paths result = (.ok status, result') ∧
        (status = 0 → Holds result' 0 (joinParts (paths.filterMap id))) := by
  intro hclaim
  have hpaths : ∀ path, some path ∈ [some [], some [(98 : Byte)]] → (0 : Byte) ∉ path := by simp
  have hresult : (List.replicate pathMax (1 : Byte)).length = pathMax := List.length_replicate
  obtain ⟨status, result', hrun, hseparated⟩ := hclaim _ _ hpaths hresult
  obtain ⟨status', result'', hrun', -, hends⟩ := joinPaths_endsWith hresult hpaths
  rw [EndsWith, if_pos (by decide)] at hends
  obtain ⟨rfl, hholds⟩ := hends
  obtain ⟨hstatus, rfl⟩ := Prod.mk.inj (hrun.symm.trans hrun')
  have hsame := (hseparated (Except.ok.inj hstatus)).stringAt
  rw [hholds.stringAt] at hsame
  exact absurd hsame (by decide)

/-! ## The join as a value -/

/-- A path is appended if there is room for it. -/
theorem appendPath_eq (result path : Path) :
    appendPath result path =
      if Fits (appendPart result path) then .ok (appendPart result path)
      else Execve.status (-enametoolong) := by
  have hjoined : (if result ≠ [] ∧ result.getLast? ≠ some slash ∧ path.head? ≠ some slash then
        result ++ slash :: path
      else if result ≠ [] ∧ result.getLast? = some slash ∧ path.head? = some slash then
        result ++ path.tail
      else result ++ path) = appendPart result path := by
    unfold appendPart separated
    by_cases hnil : result = []
    · simp [hnil]
    · by_cases hleft : result.getLast? = some slash <;>
        by_cases hright : path.head? = some slash <;> simp [hnil, hleft, hright]
  unfold appendPath
  rw [hjoined]
  dsimp only
  by_cases hfits : Fits (appendPart result path)
  · rw [if_pos hfits, if_neg (Nat.not_le_of_lt hfits)]
  · rw [if_neg hfits, if_pos (Nat.le_of_not_lt hfits)]

/-- The join of paths as the translation of paths uses it. -/
theorem joinPaths_eq (paths : List (Option Path)) :
    Execve.joinPaths (paths.filterMap id) =
      if Fits (joined paths) then .ok (joined paths) else Execve.status (-enametoolong) := by
  have hfold : ∀ result, Fits result → (paths.filterMap id).foldlM appendPath result =
      if Fits (appendParts result paths) then .ok (appendParts result paths)
      else Execve.status (-enametoolong) := by
    induction paths with
    | nil =>
      intro result hfits
      rw [appendParts_nil, if_pos hfits]
      rfl
    | cons path rest ih =>
      intro result hfits
      cases path with
      | none => exact ih result hfits
      | some path =>
        change (appendPath result path >>= fun result =>
          (rest.filterMap id).foldlM appendPath result) = _
        rw [appendPath_eq, appendParts_some]
        by_cases hnext : Fits (appendPart result path)
        · rw [if_pos hnext]
          exact ih _ hnext
        · rw [if_neg hnext, if_neg fun hall => hnext (hall.of_isPrefix (prefix_appendParts ..))]
          rfl
  rw [Execve.joinPaths, hfold [] (by decide), joined_eq]

/-- The buffer has the path that the translation of paths goes on with. -/
theorem joinPaths_refines {paths : List Path} (hpaths : ∀ path ∈ paths, (0 : Byte) ∉ path)
    {result : List Byte} (hresult : result.length = pathMax) :
    ∃ status result', joinPaths (paths.map some) result = (.ok status, result') ∧
      ((∃ path, Execve.joinPaths paths = .ok path ∧ status = 0 ∧ Holds result' 0 path) ∨
        Execve.joinPaths paths = Execve.status status) := by
  have hsome : ∀ path, some path ∈ paths.map some → (0 : Byte) ∉ path := by simpa using hpaths
  obtain ⟨status, result', hrun, -, hends⟩ := joinPaths_endsWith hresult hsome
  have hjoin := joinPaths_eq (paths.map some)
  rw [List.filterMap_map, Function.id_comp, List.filterMap_some] at hjoin
  refine ⟨status, result', hrun, ?_⟩
  rw [EndsWith, ← joined_eq] at hends
  rw [hjoin]
  split at hends
  · rename_i hfits
    rw [if_pos hfits]
    exact Or.inl ⟨_, rfl, hends⟩
  · rename_i hlong
    rw [if_neg hlong, hends.1]
    exact Or.inr rfl

/-- An absolute path of the tracee is the path of the host, unless it is too long. -/
theorem translatePath_eq_self (link : ℤ → Option Path) (getcwd : Execve.Getcwd) (dirFd : ℤ)
    {path : Path} (h : Execve.Absolute path) :
    Execve.translatePath link getcwd dirFd path =
      if Fits path then .ok path else Execve.status (-enametoolong) := by
  obtain ⟨rest, rfl⟩ := List.head?_eq_some_iff.mp h
  have hjoined : joined [some [slash], some (slash :: rest)] = slash :: rest := rfl
  rw [Execve.translatePath_absolute getcwd h, ← hjoined]
  exact joinPaths_eq [some [slash], some (slash :: rest)]

end Abyss.Paths
