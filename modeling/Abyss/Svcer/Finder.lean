import Abyss.Library.Hull
import Abyss.Svcer.Disposition
import Abyss.Svcer.HookFilter
import Mathlib.Data.List.TakeWhile

/-!
# Where the libraries are

The hooker looks for itself, the C library, the linker and the vDSO in the maps of the process.
The lines are matched by the name at their end, which is a full path except for the hooker's own,
and the range of a library runs from the lowest start to the highest end of its lines. So a range
covers its library, but whatever is mapped between two parts of it belongs to the range too.
-/

namespace Abyss.Svcer

open Bytes

/-! ## Text -/

/-- The bytes of a text. -/
def text (s : String) : List Byte := s.toList.map fun c => BitVec.ofNat 8 c.toNat

/-- `'\n'`. -/
def newline : Byte := 10

/-- What starts with the last `c` of a string. -/
def strrchr (c : Byte) : List Byte → Option (List Byte)
  | [] => none
  | d :: s =>
    match strrchr c s with
    | some rest => some rest
    | none => if d = c then some (d :: s) else none

/-- `src` is what `target` starts with, up to its end or to the end of the line. -/
def strcmpex : List Byte → List Byte → Bool
  | [], [] => true
  | c :: _, [] => c = newline
  | [], _ :: _ => false
  | c :: target, d :: src => c = d && strcmpex target src

/-- The value of a hexadecimal digit. -/
def hexVal (c : Byte) : Option ℕ :=
  if 48 ≤ c ∧ c ≤ 57 then some (c.toNat - 48)
  else if 97 ≤ c ∧ c ≤ 102 then some (c.toNat - 87)
  else if 65 ≤ c ∧ c ≤ 70 then some (c.toNat - 55)
  else none

/-- The value of the digits in front of a string, and what follows. -/
def readDigits : ℕ → List Byte → ℕ × List Byte
  | n, [] => (n, [])
  | n, c :: s =>
    match hexVal c with
    | some d => readDigits (16 * n + d) s
    | none => (n, c :: s)

/-- `isspace`. -/
def isspace (c : Byte) : Bool := c = 32 ∨ 9 ≤ c ∧ c ≤ 13

/-- Skip the sign of a number. -/
def skipSign : List Byte → Bool × List Byte
  | 45 :: s => (true, s)
  | 43 :: s => (false, s)
  | s => (false, s)

/-- Skip the mark of a hexadecimal number if a digit follows. -/
def skipMark : List Byte → List Byte
  | 48 :: x :: c :: s =>
    if (x = 120 ∨ x = 88) ∧ (hexVal c).isSome then c :: s else 48 :: x :: c :: s
  | s => s

/-- The value of a number that may have a sign and may be too large. -/
def numberOf (w : ℕ) (negative : Bool) (n : ℕ) : BitVec w :=
  if 2 ^ 64 ≤ n then BitVec.ofNat w (2 ^ 64 - 1)
  else if negative then -BitVec.ofNat w n
  else BitVec.ofNat w n

/-- The conversion `%x` of `sscanf`, for a word. -/
def scanHex (w : ℕ) (s : List Byte) : Option (BitVec w × List Byte) :=
  let (negative, s) := skipSign (s.dropWhile isspace)
  match skipMark s with
  | [] => none
  | c :: s =>
    match hexVal c with
    | none => none
    | some d =>
      let (n, rest) := readDigits d s
      some (numberOf w negative n, rest)

/-- The two numbers in front of a line. -/
def scanRange (cpu : Cpu) (line : List Byte) : Option (AddrRange cpu) := do
  let (first, s) ← scanHex cpu.wordBits line
  match s with
  | 45 :: s =>
    let (last, _) ← scanHex cpu.wordBits s
    return ⟨first, last⟩
  | _ => none

/-! ## The lines of the maps -/

/-- `fgets`, which leaves the loop at the end of the line or when the buffer is full. -/
def fgets : ℕ → List Byte → List Byte × List Byte
  | 0, s => ([], s)
  | _ + 1, [] => ([], [])
  | n + 1, c :: s =>
    if c = newline then ([c], s)
    else
      let (line, rest) := fgets n s
      (c :: line, rest)

/-- The size of the buffer for a line. -/
def lineSize : ℕ := 1024

/-- What `fgets` returns before the end of the file. -/
def fgetsAll : ℕ → List Byte → List (List Byte)
  | _, [] => []
  | 0, _ => []
  | n + 1, s =>
    let (line, rest) := fgets (lineSize - 1) s
    line :: fgetsAll n rest

/-- The lines of a file as strings. -/
def readLines (file : List Byte) : List (List Byte) :=
  (fgetsAll file.length file).map fun line => line.takeWhile fun c => c ≠ 0

/-- `fgets` takes a line that fits into the buffer, with its end. -/
theorem fgets_line {line : List Byte} (hline : newline ∉ line) {n : ℕ} (hn : line.length < n)
    (rest : List Byte) : fgets n (line ++ newline :: rest) = (line ++ [newline], rest) := by
  induction line generalizing n with
  | nil =>
    obtain ⟨n, rfl⟩ : ∃ m, n = m + 1 := ⟨n - 1, by simp at hn; omega⟩
    rfl
  | cons c line ih =>
    obtain ⟨n, rfl⟩ : ∃ m, n = m + 1 := ⟨n - 1, by simp at hn; omega⟩
    rw [List.mem_cons, not_or] at hline
    rw [List.length_cons] at hn
    rw [List.cons_append, fgets, if_neg (Ne.symm hline.1), ih hline.2 (by omega), List.cons_append]

/-- The first line, and the others. -/
theorem fgetsAll_succ (n : ℕ) {s : List Byte} (h : s ≠ []) :
    fgetsAll (n + 1) s =
      (fgets (lineSize - 1) s).1 :: fgetsAll n (fgets (lineSize - 1) s).2 := by
  cases s with
  | nil => exact absurd rfl h
  | cons c s => rfl

/-- A file whose lines fit into the buffer is read line by line. -/
theorem readLines_lines (lines : List (List Byte))
    (hlines : ∀ line ∈ lines, newline ∉ line ∧ (0 : Byte) ∉ line ∧ line.length < lineSize - 1) :
    readLines (lines.flatMap (· ++ [newline])) = lines.map (· ++ [newline]) := by
  have hall : ∀ n, (lines.flatMap (· ++ [newline])).length ≤ n →
      fgetsAll n (lines.flatMap (· ++ [newline])) = lines.map (· ++ [newline]) := by
    induction lines with
    | nil =>
      intro n _
      cases n <;> rfl
    | cons line rest ih =>
      intro n hn
      rw [List.forall_mem_cons] at hlines
      obtain ⟨⟨hline, -, hlen⟩, hrest⟩ := hlines
      rw [List.flatMap_cons, List.append_assoc, List.singleton_append] at hn ⊢
      rw [List.length_append, List.length_cons] at hn
      obtain ⟨n, rfl⟩ : ∃ m, n = m + 1 := ⟨n - 1, by omega⟩
      rw [fgetsAll_succ n (by simp), fgets_line hline hlen, ih hrest n (by omega), List.map_cons]
  rw [readLines, hall _ (Nat.le_refl _), List.map_map]
  refine List.map_congr_left fun line hline => ?_
  refine List.takeWhile_eq_self_iff.mpr fun c hc => decide_eq_true ?_
  rcases List.mem_append.mp hc with hc | hc
  · exact fun h0 => (hlines line hline).2.1 (h0 ▸ hc)
  · rw [List.mem_singleton.mp hc]
    decide

/-! ## The search -/

/-- The libraries that are looked for. -/
inductive Lib where
  | vdso
  | libc
  | linker
  | self
deriving DecidableEq

/-- The names of the libraries. -/
structure LibNames where
  libc : List Byte
  linker : List Byte
  self : List Byte

/-- What the system answers to the search: where the links point to, the descriptor of the maps,
whether there is memory for the stream and for the line, and the maps. -/
structure SearchEnv where
  readlink : List Byte → Option (List Byte)
  openat : ℤ
  fdopen : Bool
  malloc : Bool
  maps : List Byte

/-- The path of the C library. -/
def libcPath : Cpu → List Byte
  | .armEabi => text "/system/lib/libc.so"
  | .arm64 => text "/system/lib64/libc.so"

/-- The path of the linker. -/
def linkerPath : Cpu → List Byte
  | .armEabi => text "/system/bin/linker"
  | .arm64 => text "/system/bin/linker64"

/-- `REAL_NAME_LENGTH`. -/
def realNameLength : ℕ := 256

/-- The result of `readlink`, and what it writes to the buffer. -/
def readlinkOf (env : SearchEnv) (path : List Byte) : ℤ × List Byte :=
  match env.readlink path with
  | none => (-1, [])
  | some target =>
    let name := target.take (realNameLength - 1)
    (name.length, name)

/-- The real name of a library, or the result of the search. -/
def realName (env : SearchEnv) (path : List Byte) (error : ℤ) : Except ℤ (List Byte) :=
  let (ret, name) := readlinkOf env path
  if ret ≤ 0 then
    if ret ≠ einval then .error error
    else .ok path
  else .ok (name.takeWhile fun c => c ≠ 0)

/-- `doInitSysLibPath`. -/
def doInitSysLibPath (cpu : Cpu) (env : SearchEnv) : Except ℤ (List Byte × List Byte) := do
  let libc ← realName env (libcPath cpu) (-10)
  let linker ← realName env (linkerPath cpu) (-11)
  return (libc, linker)

section Search

variable {cpu : Cpu}

/-- Extend a range by that of a line. -/
def AddrRange.extend (range found : AddrRange cpu) : AddrRange cpu where
  first := if found.first < range.first then found.first else range.first
  last := if range.last < found.last then found.last else range.last

/-- `SvcerFinder::doSearchLine`. -/
def doSearchLine (names : LibNames) (finder : SvcerFinder cpu) (line : List Byte) :
    SvcerFinder cpu :=
  match scanRange cpu line with
  | none => finder
  | some found =>
    match strrchr 32 line with
    | none => finder
    | some blank =>
      let pos := blank.drop 1
      if strcmpex pos (text "[vdso]") then { finder with vdso := finder.vdso.extend found }
      else if strcmpex pos names.libc then { finder with libc := finder.libc.extend found }
      else if strcmpex pos names.linker then { finder with linker := finder.linker.extend found }
      else
        let shortname :=
          match strrchr 47 pos with
          | some slash => slash.drop 1
          | none => pos
        if strcmpex shortname names.self then { finder with self := finder.self.extend found }
        else finder

/-- The range before any line. -/
def AddrRange.unset : AddrRange cpu := ⟨BitVec.allOnes cpu.wordBits, 0⟩

/-- The constructor of `SvcerFinder`. -/
def SvcerFinder.new (cpu : Cpu) : SvcerFinder cpu := ⟨.unset, .unset, .unset, .unset⟩

/-- `SvcerFinder::isValid`. -/
def SvcerFinder.isValid (finder : SvcerFinder cpu) : Bool :=
  if finder.libc.last ≤ finder.libc.first then false
  else if finder.linker.last ≤ finder.linker.first then false
  else if finder.self.last ≤ finder.self.first then false
  else true

/-- The names to look for and the lines that are read, or the result of the search. -/
def openMaps (cpu : Cpu) (env : SearchEnv) (selfLibName : List Byte) :
    Except ℤ (LibNames × List (List Byte)) := do
  let (libc, linker) ← doInitSysLibPath cpu env
  if env.openat < 0 then throw (-20)
  let lines := if env.fdopen && env.malloc then readLines env.maps else []
  return (⟨libc, linker, selfLibName⟩, lines)

/-- `SvcerFinder::search`. -/
def search (env : SearchEnv) (selfLibName : List Byte) (finder : SvcerFinder cpu) :
    ℤ × SvcerFinder cpu :=
  match openMaps cpu env selfLibName with
  | .error ret => (ret, finder)
  | .ok (names, lines) =>
    let found := lines.foldl (doSearchLine names) finder
    (if found.isValid then 0 else -29, found)

end Search

/-! ## What a line stands for -/

section Mapping

variable {cpu : Cpu}

/-- The range of a library. -/
def SvcerFinder.range (finder : SvcerFinder cpu) : Lib → AddrRange cpu
  | .vdso => finder.vdso
  | .libc => finder.libc
  | .linker => finder.linker
  | .self => finder.self

/-- The library that a name stands for: the hooker itself goes by the last component of its path,
whatever the directory. -/
def LibNames.library (names : LibNames) (name : List Byte) : Option Lib :=
  if strcmpex name (text "[vdso]") then some .vdso
  else if strcmpex name names.libc then some .libc
  else if strcmpex name names.linker then some .linker
  else if strcmpex (((strrchr 47 name).map (List.drop 1)).getD name) names.self then some .self
  else none

/-- The range of a line, if it has one and its name, after the last blank, is that of a library. -/
def LibNames.mapping (names : LibNames) (line : List Byte) : Option (Lib × AddrRange cpu) := do
  let found ← scanRange cpu line
  let blank ← strrchr 32 line
  let lib ← names.library (blank.drop 1)
  return (lib, found)

/-- The range of a line of one library. -/
def LibNames.rangeOf (names : LibNames) (lib : Lib) (line : List Byte) : Option (AddrRange cpu) :=
  match names.mapping line with
  | some (l, found) => if l = lib then some found else none
  | none => none

/-- The ranges of the lines of a library. -/
def LibNames.ranges (cpu : Cpu) (names : LibNames) (lib : Lib) (lines : List (List Byte)) :
    List (AddrRange cpu) :=
  lines.filterMap (names.rangeOf lib)

/-- A line that the search reads maps a range of a library. -/
def Maps (cpu : Cpu) (env : SearchEnv) (selfLibName : List Byte) (lib : Lib)
    (found : AddrRange cpu) : Prop :=
  ∃ names lines, openMaps cpu env selfLibName = .ok (names, lines) ∧
    ∃ line ∈ lines, names.mapping line = some (lib, found)

/-- The ends of a range. -/
def AddrRange.ends (range : AddrRange cpu) : ℕ × ℕ := (range.first.toNat, range.last.toNat)

/-- No range is known to a new finder. -/
@[simp] theorem range_new (cpu : Cpu) (lib : Lib) : (SvcerFinder.new cpu).range lib = .unset := by
  cases lib <;> rfl

/-- A range is extended to the hull of both. -/
theorem extend_ends (range found : AddrRange cpu) :
    (range.extend found).ends = Hull.extend range.ends found.ends := by
  unfold AddrRange.extend AddrRange.ends Hull.extend
  congr 1
  · by_cases h : found.first < range.first
    · rw [if_pos h, Nat.min_eq_right (Nat.le_of_lt h)]
    · rw [if_neg h, Nat.min_eq_left (Nat.le_of_not_lt h)]
  · by_cases h : range.last < found.last
    · rw [if_pos h, Nat.max_eq_right (Nat.le_of_lt h)]
    · rw [if_neg h, Nat.max_eq_left (Nat.le_of_not_lt h)]

/-- A line extends the range of its library, and no other. -/
theorem doSearchLine_range (names : LibNames) (finder : SvcerFinder cpu) (line : List Byte)
    (lib : Lib) :
    (doSearchLine names finder line).range lib =
      match names.rangeOf lib line with
      | some found => (finder.range lib).extend found
      | none => finder.range lib := by
  unfold doSearchLine LibNames.rangeOf LibNames.mapping
  cases scanRange cpu line with
  | none => rfl
  | some found =>
    cases strrchr 32 line with
    | none => rfl
    | some blank =>
      have hname : (match strrchr 47 (blank.drop 1) with
          | some slash => slash.drop 1
          | none => blank.drop 1) =
          ((strrchr 47 (blank.drop 1)).map (List.drop 1)).getD (blank.drop 1) := by
        cases strrchr 47 (blank.drop 1) <;> rfl
      simp only [hname, LibNames.library, Option.bind_eq_bind, Option.bind_some]
      split_ifs <;> cases lib <;> rfl

/-- A line is for a library exactly if it maps a file of its name. -/
theorem rangeOf_eq_some {names : LibNames} {lib : Lib} {line : List Byte} {found : AddrRange cpu} :
    names.rangeOf lib line = some found ↔ names.mapping line = some (lib, found) := by
  unfold LibNames.rangeOf
  rcases names.mapping line with - | ⟨l, r⟩
  · simp
  · by_cases h : l = lib
    · simp [h]
    · simp [h]

/-- The ranges of a library are those of the lines that map it. -/
theorem mem_ranges {names : LibNames} {lib : Lib} {lines : List (List Byte)}
    {found : AddrRange cpu} :
    found ∈ names.ranges cpu lib lines ↔
      ∃ line ∈ lines, names.mapping line = some (lib, found) := by
  simp only [LibNames.ranges, List.mem_filterMap, rangeOf_eq_some]

/-- The lines extend the range of a library one after the other. -/
theorem foldl_doSearchLine_range (names : LibNames) (lines : List (List Byte))
    (finder : SvcerFinder cpu) (lib : Lib) :
    ((lines.foldl (doSearchLine names) finder).range lib).ends =
      ((names.ranges cpu lib lines).map AddrRange.ends).foldl Hull.extend
        (finder.range lib).ends := by
  unfold LibNames.ranges
  induction lines generalizing finder with
  | nil => rfl
  | cons line rest ih =>
    rw [List.foldl_cons, ih, doSearchLine_range, List.filterMap_cons]
    cases names.rangeOf lib line with
    | none => rfl
    | some found =>
      simp only [List.map_cons, List.foldl_cons, extend_ends]

end Mapping

/-! ## What is found -/

section Found

variable {cpu : Cpu}

/-- An address lies in one of some ranges, or after one of them and before another. -/
def Between (maps : AddrRange cpu → Prop) (address : BitVec 64) : Prop :=
  (∃ found, maps found ∧ found.Contains address) ∨
    (∃ found, maps found ∧ found.last.toNat ≤ address.toNat) ∧
      ∃ found, maps found ∧ address.toNat < found.first.toNat

/-- A range reaches from the lowest start of some ranges to their highest end, and is empty if there
are none. -/
structure Spans (maps : AddrRange cpu → Prop) (range : AddrRange cpu) : Prop where
  covers : ∀ found, maps found → range.first ≤ found.first ∧ found.last ≤ range.last
  first : range.first < range.last → ∃ found, maps found ∧ range.first = found.first
  last : range.first < range.last → ∃ found, maps found ∧ range.last = found.last

/-- No address of the range is before all of the ranges or after all of them. -/
theorem Spans.between {maps : AddrRange cpu → Prop} {range : AddrRange cpu}
    (h : Spans maps range) {address : BitVec 64} (ha : range.Contains address) :
    Between maps address := by
  have hlt : range.first < range.last := Nat.lt_of_le_of_lt ha.1 ha.2
  obtain ⟨low, hlow, hfirst⟩ := h.first hlt
  obtain ⟨high, hhigh, hlast⟩ := h.last hlt
  by_cases hin : address.toNat < low.last.toNat
  · exact .inl ⟨low, hlow, hfirst ▸ ha.1, hin⟩
  by_cases hin' : high.first.toNat ≤ address.toNat
  · exact .inl ⟨high, hhigh, hin', hlast ▸ ha.2⟩
  exact .inr ⟨⟨low, hlow, Nat.le_of_not_lt hin⟩, high, hhigh, Nat.lt_of_not_le hin'⟩

/-- The lines span the range that is found for a library. -/
theorem foldl_doSearchLine_spans (names : LibNames) (lines : List (List Byte)) (lib : Lib) :
    Spans (fun found => found ∈ names.ranges cpu lib lines)
      ((lines.foldl (doSearchLine names) (SvcerFinder.new cpu)).range lib) := by
  have hends := foldl_doSearchLine_range names lines (SvcerFinder.new cpu) lib
  rw [range_new] at hends
  generalize (lines.foldl (doSearchLine names) (SvcerFinder.new cpu)).range lib = range at hends
  by_cases hne : names.ranges cpu lib lines = []
  · rw [hne] at hends ⊢
    have hnot : ¬range.first < range.last := by
      have hzero : range.last.toNat = 0 := (Prod.ext_iff.mp hends).2
      exact fun hlt => Nat.not_lt_zero _ (Nat.lt_of_lt_of_eq hlt hzero)
    exact ⟨fun _ hfound => absurd hfound List.not_mem_nil, fun h => absurd h hnot,
      fun h => absurd h hnot⟩
  · have hsome : (names.ranges cpu lib lines).map AddrRange.ends ≠ [] :=
      fun h => hne (List.map_eq_nil_iff.mp h)
    have hout : ∀ i ∈ (names.ranges cpu lib lines).map AddrRange.ends,
        i.1 ≤ (AddrRange.unset : AddrRange cpu).ends.1 ∧
          (AddrRange.unset : AddrRange cpu).ends.2 ≤ i.2 := by
      intro i hi
      obtain ⟨found, -, rfl⟩ := List.mem_map.mp hi
      refine ⟨?_, Nat.zero_le _⟩
      have hlt := found.first.isLt
      simp only [AddrRange.ends, AddrRange.unset, BitVec.toNat_allOnes]
      omega
    have hull := Hull.isHull_foldl_extend hsome hout
    rw [← hends] at hull
    refine ⟨fun found hfound => hull.covers _ (List.mem_map_of_mem hfound), fun _ => ?_,
      fun _ => ?_⟩
    · obtain ⟨i, hi, hlower⟩ := hull.lower
      obtain ⟨found, hfound, rfl⟩ := List.mem_map.mp hi
      exact ⟨found, hfound, BitVec.eq_of_toNat_eq hlower⟩
    · obtain ⟨i, hi, hupper⟩ := hull.upper
      obtain ⟨found, hfound, rfl⟩ := List.mem_map.mp hi
      exact ⟨found, hfound, BitVec.eq_of_toNat_eq hupper⟩

/-- A name that cannot be read is the error that was passed. -/
theorem realName_error {env : SearchEnv} {path : List Byte} {error ret : ℤ}
    (h : realName env path error = .error ret) : ret = error := by
  unfold realName at h
  dsimp only at h
  split_ifs at h
  · cases h
    rfl

/-- A search that does not get to the lines does not return zero. -/
theorem openMaps_error {env : SearchEnv} {selfLibName : List Byte} {ret : ℤ}
    (h : openMaps cpu env selfLibName = .error ret) : ret ≠ 0 := by
  unfold openMaps doInitSysLibPath at h
  cases hlibc : realName env (libcPath cpu) (-10) with
  | error e =>
    obtain rfl := realName_error hlibc
    rw [hlibc] at h
    cases h
    decide
  | ok libc =>
    cases hlinker : realName env (linkerPath cpu) (-11) with
    | error e =>
      obtain rfl := realName_error hlinker
      rw [hlibc, hlinker] at h
      cases h
      decide
    | ok linker =>
      rw [hlibc, hlinker] at h
      by_cases hopen : env.openat < 0
      · simp only [bind, Except.bind, pure, Except.pure, if_pos hopen] at h
        cases h
        decide
      · simp only [bind, Except.bind, pure, Except.pure, if_neg hopen] at h
        cases h

/-- A finder is valid if it has found all libraries but the one of the kernel. -/
theorem isValid_iff (finder : SvcerFinder cpu) :
    finder.isValid = true ↔
      ∀ lib, lib ≠ .vdso → (finder.range lib).first < (finder.range lib).last := by
  unfold SvcerFinder.isValid
  constructor
  · intro h lib hlib
    split_ifs at h with hlibc hlinker hself
    cases lib with
    | vdso => exact absurd rfl hlib
    | libc => exact BitVec.not_le.mp hlibc
    | linker => exact BitVec.not_le.mp hlinker
    | self => exact BitVec.not_le.mp hself
  · intro h
    have hlibc : ¬finder.libc.last ≤ finder.libc.first := BitVec.not_le.mpr (h .libc nofun)
    have hlinker : ¬finder.linker.last ≤ finder.linker.first :=
      BitVec.not_le.mpr (h .linker nofun)
    have hself : ¬finder.self.last ≤ finder.self.first := BitVec.not_le.mpr (h .self nofun)
    rw [if_neg hlibc, if_neg hlinker, if_neg hself]

/-- What is spared is the range of a library. -/
theorem mem_sparedRanges {mode : ℕ} {finder : SvcerFinder cpu} {range : AddrRange cpu}
    (h : range ∈ sparedRanges mode finder) : ∃ lib, range = finder.range lib := by
  unfold sparedRanges at h
  simp only [List.mem_append, List.mem_singleton] at h
  rcases h with ((h | h) | h) | h
  · exact ⟨.self, h⟩
  · split_ifs at h
    · exact ⟨.vdso, List.mem_singleton.mp h⟩
    · exact absurd h List.not_mem_nil
  · split_ifs at h
    · exact ⟨.libc, List.mem_singleton.mp h⟩
    · exact absurd h List.not_mem_nil
  · split_ifs at h
    · exact ⟨.linker, List.mem_singleton.mp h⟩
    · exact absurd h List.not_mem_nil

/-- Each range that the search finds covers the lines that map its library and has their lowest
start and highest end, so that an address whose calls are let through lies in a line of a library or
between two of them. The search succeeds only if the C library, the linker and the hooker were
found. -/
theorem search_spans (env : SearchEnv) (selfLibName : List Byte) :
    let result := search env selfLibName (SvcerFinder.new cpu)
    (∀ lib, Spans (Maps cpu env selfLibName lib) (result.2.range lib)) ∧
      (∀ mode, ∀ range ∈ sparedRanges mode result.2, ∀ address, range.Contains address →
        ∃ lib, range = result.2.range lib ∧ Between (Maps cpu env selfLibName lib) address) ∧
      (result.1 = 0 → ∀ lib, lib ≠ .vdso →
        (result.2.range lib).first < (result.2.range lib).last) := by
  intro result
  have hspans : ∀ lib, Spans (Maps cpu env selfLibName lib) (result.2.range lib) := by
    intro lib
    cases hopen : openMaps cpu env selfLibName with
    | error ret =>
      have hmaps : Maps cpu env selfLibName lib =
          fun found => found ∈ ([] : List (AddrRange cpu)) := by
        funext found
        refine Eq.trans (eq_false ?_) (eq_false List.not_mem_nil).symm
        rintro ⟨names, lines, hok, -⟩
        rw [hopen] at hok
        cases hok
      have hnew : result.2 = SvcerFinder.new cpu := by
        simp only [result, search, hopen]
      rw [hmaps, hnew]
      exact foldl_doSearchLine_spans ⟨[], [], []⟩ [] lib
    | ok opened =>
      obtain ⟨names, lines⟩ := opened
      have hmaps : Maps cpu env selfLibName lib =
          fun found => found ∈ names.ranges cpu lib lines := by
        funext found
        rw [mem_ranges, Maps, hopen]
        simp
      have hfound : result.2 = lines.foldl (doSearchLine names) (SvcerFinder.new cpu) := by
        simp only [result, search, hopen]
      rw [hmaps, hfound]
      exact foldl_doSearchLine_spans names lines lib
  refine ⟨hspans, ?_, ?_⟩
  · intro mode range hrange address haddress
    obtain ⟨lib, rfl⟩ := mem_sparedRanges hrange
    exact ⟨lib, rfl, (hspans lib).between haddress⟩
  · intro hzero
    rw [← isValid_iff]
    cases hopen : openMaps cpu env selfLibName with
    | error ret =>
      have hret : result.1 = ret := by simp only [result, search, hopen]
      exact absurd (hret ▸ hzero) (openMaps_error hopen)
    | ok opened =>
      obtain ⟨names, lines⟩ := opened
      simp only [result, search, hopen] at hzero ⊢
      by_contra hnot
      rw [if_neg hnot] at hzero
      cases hzero

end Found

/-! ## A gap -/

/-- The maps of a process with another file between two parts of the C library. -/
def gapMaps : List (List Byte) :=
  [text "1000-2000 r-xp 0 0:0 1 /apex/libc.so", text "2000-3000 r-xp 0 0:0 2 /data/libx.so",
    text "3000-4000 rw-p 0 0:0 1 /apex/libc.so", text "5000-6000 r-xp 0 0:0 3 /apex/linker64",
    text "7000-8000 r-xp 0 0:0 4 /data/libself.so"]

/-- The system where the process runs. -/
def gapEnv : SearchEnv where
  readlink path :=
    if path = libcPath .arm64 then some (text "/apex/libc.so") else some (text "/apex/linker64")
  openat := 3
  fdopen := true
  malloc := true
  maps := gapMaps.flatMap (· ++ [newline])

set_option maxRecDepth 100000 in
/-- The search succeeds, and the address of the other file is in the range of the C library. -/
theorem gap_inRange :
    (search gapEnv (text "libself.so") (SvcerFinder.new .arm64)).1 = 0 ∧
      ¬∀ (env : SearchEnv) (selfLibName : List Byte) (lib : Lib) (address : BitVec 64),
        ((search env selfLibName (SvcerFinder.new .arm64)).2.range lib).Contains address →
          ∃ found : AddrRange .arm64, Maps .arm64 env selfLibName lib found ∧
            found.Contains address := by
  refine ⟨rfl, fun h => ?_⟩
  have hrange : (search gapEnv (text "libself.so") (SvcerFinder.new .arm64)).2.range .libc =
      ⟨0x1000, 0x4000⟩ := rfl
  obtain ⟨found, ⟨names, lines, hopen, hmaps⟩, hfound⟩ :=
    h gapEnv (text "libself.so") .libc 0x2800 (hrange ▸ by decide)
  have hopen' : openMaps .arm64 gapEnv (text "libself.so") =
      .ok (⟨text "/apex/libc.so", text "/apex/linker64", text "libself.so"⟩,
        gapMaps.map (· ++ [newline])) := by
    rw [← readLines_lines gapMaps (by decide)]
    rfl
  obtain ⟨rfl, rfl⟩ := Prod.mk.inj (Except.ok.inj (hopen.symm.trans hopen'))
  rw [← mem_ranges] at hmaps
  have hranges : LibNames.ranges .arm64
      ⟨text "/apex/libc.so", text "/apex/linker64", text "libself.so"⟩ .libc
        (gapMaps.map (· ++ [newline])) = [⟨0x1000, 0x2000⟩, ⟨0x3000, 0x4000⟩] := rfl
  rw [hranges, List.mem_cons, List.mem_singleton] at hmaps
  rcases hmaps with rfl | rfl
  · exact absurd hfound (by decide)
  · exact absurd hfound (by decide)

end Abyss.Svcer
