import Abyss.Execve.Shebang
import Mathlib.Data.List.DropRight

/-!
# The first line of a script

The interpreter of a script and its argument are read character by character into two buffers. What
has been stored of the path tells where the reader is: a terminator at its end means that blanks
have been seen behind the path, and the next character begins the argument.

A line that ends within the limit has its first word in the one buffer and the rest, without the
blanks around it, in the other. The limit is one below the size of the buffer, since the last character
that is read is not used any more; and where the file ends before the line does, the last
character of the path, or the whole argument, is lost.
-/

namespace Abyss.Execve

open Bytes

/-- A store outside a buffer. -/
inductive OutOfBuffer where
  | outOfBuffer
deriving DecidableEq

/-- What is returned, what is in the buffers then, and how many bytes were read. -/
structure Extraction where
  status : ℤ
  userPath : List Byte
  argument : List Byte
  consumed : ℕ

/-- The string in a buffer. -/
def cString (buffer : List Byte) : List Byte := buffer.takeWhile (· ≠ 0)

/-- Store a character in a buffer. -/
def put (buffer : List Byte) (i : ℕ) (c : Byte) : Except OutOfBuffer (List Byte) :=
  if i < buffer.length then .ok (buffer.set i c) else .error .outOfBuffer

/-- Remove trailing blanks down from a place, except for the first character. -/
def removeTrailing : ℕ → List Byte → List Byte
  | 0, argument => argument
  | i + 1, argument =>
    if isBlank (argument.getD (i + 1) 0) then removeTrailing i (argument.set (i + 1) 0)
    else argument

section Slurping

variable (file : File)

/-- Slurp the argument up to the end of the line; `left` is the number of characters up to the limit,
counted from the current one, `i` is the place of the current one, and `length` the number of those
that have been read. -/
def fillArgument (userPath : List Byte) :
    ℕ → ℕ → ℕ → Byte → List Byte → Except OutOfBuffer Extraction
  | 0, length, i, _, argument => do
    let argument ← put argument i 0
    .ok ⟨1, userPath, argument, length⟩
  | left + 1, length, i, tmp, argument =>
    if isNewline tmp then do
      let argument ← put argument i 0
      if i = 0 then .error .outOfBuffer
      else .ok ⟨1, userPath, removeTrailing (i - 1) argument, length⟩
    else do
      let argument ← put argument i tmp
      match file.pread length 1 with
      | .error errno => .ok ⟨-errno, userPath, argument, length⟩
      | .ok [] => do
        let argument ← put argument 0 0
        .ok ⟨1, userPath, argument, length⟩
      | .ok (c :: _) => fillArgument userPath left (length + 1) (i + 1) c argument

/-- What is stored for a character of the path, or behind it. -/
def storedChar (c : Byte) : Byte := if isBlank c then 0 else c

/-- Slurp the path of the interpreter up to a blank or the end of the line. -/
def fillPath : ℕ → ℕ → ℕ → Byte → List Byte → List Byte → Except OutOfBuffer Extraction
  | 0, length, i, _, userPath, argument => do
    let userPath ← put userPath i 0
    let argument ← put argument 0 0
    .ok ⟨1, userPath, argument, length⟩
  | left + 1, length, i, tmp, userPath, argument =>
    if isNewline tmp then do
      let userPath ← put userPath i 0
      let argument ← put argument 0 0
      .ok ⟨1, userPath, argument, length⟩
    else if !isBlank tmp && decide (i > 1) && userPath.getD (i - 1) 0 = 0 then
      fillArgument file userPath (left + 1) length 0 tmp argument
    else do
      let userPath ← put userPath i (storedChar tmp)
      match file.pread length 1 with
      | .error errno => .ok ⟨-errno, userPath, argument, length⟩
      | .ok [] => do
        -- The terminator takes the place of the last character.
        let userPath ← put userPath i 0
        let argument ← put argument 0 0
        .ok ⟨1, userPath, argument, length⟩
      | .ok (c :: _) => fillPath left (length + 1) (i + 1) c userPath argument

end Slurping

/-- Skip the leading blanks; `left` is the number of characters that may be read behind the next one,
and `length` of those before it. -/
def skipLeading (file : File) : ℕ → ℕ → Except (ℤ × ℕ) (Byte × ℕ)
  | left, length =>
    match file.pread length 1 with
    | .error errno => .error (-errno, length)
    | .ok [] => .error (-enoexec, length)
    | .ok (c :: _) =>
      match left with
      | 0 => .ok (c, length + 1)
      | left + 1 => if isBlank c then skipLeading file left (length + 1) else .ok (c, length + 1)

/-- Extract the path of the interpreter of a script and its argument into the two buffers. -/
def fillShebang (binprmBufSize : ℕ) (openFile : Except ℤ File) (userPath argument : List Byte) :
    Except OutOfBuffer Extraction := do
  let argument ← put argument 0 0
  match openFile with
  | .error errno => .ok ⟨-errno, userPath, argument, 0⟩
  | .ok file =>
    match file.pread 0 2 with
    | .error errno => .ok ⟨-errno, userPath, argument, 0⟩
    | .ok bytes =>
      if bytes.length < 2 then .ok ⟨0, userPath, argument, bytes.length⟩
      else if bytes ≠ [35, 33] then .ok ⟨0, userPath, argument, 2⟩
      else do
        let userPath ← put userPath 0 0
        match skipLeading file (binprmBufSize - 3) 2 with
        | .error (status, length) => .ok ⟨status, userPath, argument, length⟩
        | .ok (tmp, length) =>
          fillPath file (binprmBufSize - length) length 0 tmp userPath argument

/-! ## The text of a line -/

/-- Neither a blank nor the end of a line. -/
def isText (c : Byte) : Bool := !isBlank c && !isNewline c

/-- The first word of a line. -/
def wordOf (line : List Byte) : List Byte := line.takeWhile isText

/-- What follows the first word of a line and the blanks behind it, up to the end of the line. -/
def restOf (line : List Byte) : List Byte :=
  ((line.dropWhile isText).dropWhile isBlank).takeWhile fun c => !isNewline c

/-- The text that is looked at: what follows the leading blanks, up to one below the limit. -/
def scannedText (binprmBufSize : ℕ) (content : List Byte) : List Byte :=
  ((content.take (binprmBufSize - 1)).drop 2).dropWhile isBlank

/-- A file that is read without failing has this content. -/
def File.Reads (file : File) (content : List Byte) : Prop :=
  ∀ offset size, file.pread offset size = .ok ((content.drop offset).take size)

section Strings

/-- A terminator ends the string at once. -/
theorem cString_zero (v : List Byte) : cString (0 :: v) = [] :=
  List.takeWhile_cons_of_neg (by simp)

/-- Any other character is in the string. -/
theorem cString_cons {c : Byte} (hc : c ≠ 0) (v : List Byte) : cString (c :: v) = c :: cString v :=
  List.takeWhile_cons_of_pos (decide_eq_true hc)

/-- What is stored behind a terminator does not matter. -/
theorem cString_append_zero (v z : List Byte) : cString (v ++ 0 :: z) = cString v := by
  induction v with
  | nil => exact cString_zero z
  | cons c v ih =>
    by_cases hc : c = 0
    · rw [hc, List.cons_append, cString_zero, cString_zero]
    · rw [List.cons_append, cString_cons hc, cString_cons hc, ih]

/-- A string ends at its first terminator. -/
theorem cString_append_of_mem {v : List Byte} (h : 0 ∈ v) (z : List Byte) :
    cString (v ++ z) = cString v := by
  obtain ⟨u, w, rfl⟩ := List.append_of_mem h
  rw [List.append_assoc, List.cons_append, cString_append_zero, cString_append_zero]

/-- A character is stored behind a prefix of a buffer. -/
theorem put_append (v z : List Byte) (c c' : Byte) :
    put (v ++ c :: z) v.length c' = .ok (v ++ c' :: z) := by
  unfold put
  rw [if_pos (by simp), List.set_append_right _ _ le_rfl]
  simp

/-- A store within what is left of a buffer. -/
theorem put_of_lt {v z : List Byte} (h : 0 < z.length) (c : Byte) :
    put (v ++ z) v.length c = .ok (v ++ c :: z.tail) := by
  obtain ⟨d, z, rfl⟩ := List.exists_cons_of_length_pos h
  exact put_append v z d c

/-- The trailing blanks of a string whose first character is no blank are removed. -/
theorem removeTrailing_append {v z : List Byte}
    (hfirst : ∀ c ∈ v.head?, isBlank c = false) (hv : v ≠ []) :
    cString (removeTrailing (v.length - 1) (v ++ 0 :: z)) = cString (v.rdropWhile isBlank) := by
  induction v using List.reverseRecOn generalizing z with
  | nil => exact absurd rfl hv
  | append_singleton v c ih =>
    rw [List.length_append, List.length_singleton, Nat.add_sub_cancel]
    rcases List.eq_nil_or_concat' v with rfl | ⟨u, d, rfl⟩
    · have hc : isBlank c = false := hfirst c rfl
      rw [List.rdropWhile_concat_neg _ _ _ (by simp [hc])]
      exact cString_append_zero [c] z
    · have hlength : (u ++ [d]).length = u.length + 1 := by simp
      have hlast : (u ++ [d] ++ [c] ++ 0 :: z).getD (u.length + 1) 0 = c := by
        simp [List.getD]
      rw [hlength, removeTrailing, hlast]
      by_cases hc : isBlank c = true
      · rw [if_pos hc, List.rdropWhile_concat_pos _ _ _ hc]
        have hset : (u ++ [d] ++ [c] ++ 0 :: z).set (u.length + 1) 0 = u ++ [d] ++ 0 :: 0 :: z := by
          simp
        have hih := ih (z := 0 :: z) (by simpa using hfirst) (by simp)
        rw [hset]
        simpa using hih
      · rw [if_neg hc, List.rdropWhile_concat_neg _ _ _ hc]
        exact cString_append_zero _ z

/-- A string is itself without its trailing blanks, and then these. -/
theorem exists_trailing (v : List Byte) :
    ∃ blanks : List Byte, (∀ c ∈ blanks, isBlank c = true) ∧ v = v.rdropWhile isBlank ++ blanks := by
  induction v using List.reverseRecOn with
  | nil => exact ⟨[], List.forall_mem_nil _, rfl⟩
  | append_singleton v c ih =>
    by_cases hc : isBlank c = true
    · obtain ⟨blanks, hblanks, hv⟩ := ih
      refine ⟨blanks ++ [c], ?_, ?_⟩
      · rw [List.forall_mem_append, List.forall_mem_singleton]
        exact ⟨hblanks, hc⟩
      · rw [List.rdropWhile_concat_pos _ _ _ hc, ← List.append_assoc, ← hv]
    · refine ⟨[], List.forall_mem_nil _, ?_⟩
      rw [List.rdropWhile_concat_neg _ _ _ hc, List.append_nil]

end Strings

/-! ## The scan of a line -/

/-- The line ends within the limit, or the file goes on up to the limit; `left` is the number of
characters up to it, counted from the current one, and `rest` is what follows that. -/
def Ends (left : ℕ) (t : Byte) (rest : List Byte) : Prop :=
  (∃ c ∈ (t :: rest).take left, isNewline c = true) ∨ left ≤ rest.length

section Scan

variable {file : File} {content rest userPath argument v z : List Byte} {left length : ℕ}
  {t : Byte}

/-- At the end of the file nothing is read. -/
theorem File.Reads.pread_nil (h : file.Reads content) (hrest : content.drop length = []) :
    file.pread length 1 = .ok [] := by
  rw [h, hrest]
  rfl

/-- Before the end the next character is read. -/
theorem File.Reads.pread_cons (h : file.Reads content) {c : Byte}
    (hrest : content.drop length = c :: rest) :
    file.pread length 1 = .ok [c] ∧ content.drop (length + 1) = rest := by
  refine ⟨by rw [h, hrest]; rfl, ?_⟩
  rw [← List.drop_drop, hrest]
  rfl

/-- Behind a character that does not end the line there is another one. -/
theorem Ends.step (h : Ends (left + 1) t rest) (htmp : isNewline t = false) :
    ∃ c rest', rest = c :: rest' ∧ Ends left c rest' := by
  cases rest with
  | nil =>
    rcases h with ⟨c, hc, hnewline⟩ | hlong
    · rw [List.take_succ_cons, List.take_nil, List.mem_singleton] at hc
      rw [hc, htmp] at hnewline
      cases hnewline
    · cases hlong
  | cons c rest =>
    refine ⟨c, rest, rfl, ?_⟩
    rcases h with ⟨d, hd, hnewline⟩ | hlong
    · rw [List.take_succ_cons, List.mem_cons] at hd
      rcases hd with heq | hd
      · rw [heq, htmp] at hnewline
        cases hnewline
      · exact .inl ⟨d, hd, hnewline⟩
    · exact .inr (Nat.le_of_succ_le_succ hlong)

/-- What is in the buffer of the argument is a text without its trailing blanks, or with some of them
if the line does not end within the limit. -/
def HasArgument (ended : Prop) (text buffer : List Byte) : Prop :=
  ∃ blanks : List Byte, (∀ c ∈ blanks, isBlank c = true) ∧ (ended → blanks = []) ∧
    cString buffer = cString (text.rdropWhile isBlank ++ blanks)

/-- Slurping an argument stays within the buffer and the limit. -/
theorem fillArgument_ok (hfile : file.Reads content) (hrest : content.drop length = rest)
    (hroom : left < z.length) (hstart : v ≠ [] ∨ isNewline t = false) :
    ∃ e, fillArgument file userPath left length v.length t (v ++ z) = .ok e ∧
      e.status = 1 ∧ e.userPath = userPath ∧ e.consumed ≤ length + left := by
  induction left generalizing length v z t rest with
  | zero =>
    rw [fillArgument, put_of_lt hroom]
    exact ⟨_, rfl, rfl, rfl, le_rfl⟩
  | succ left ih =>
    rw [fillArgument]
    by_cases hnewline : isNewline t = true
    · have hv : v.length ≠ 0 := by
        rcases hstart with hv | htmp
        · exact fun h => hv (List.length_eq_zero_iff.mp h)
        · rw [hnewline] at htmp
          cases htmp
      rw [if_pos hnewline, put_of_lt (by omega)]
      refine ⟨_, if_neg hv, rfl, rfl, ?_⟩
      exact Nat.le_add_right _ _
    · rw [if_neg hnewline, put_of_lt (by omega)]
      cases rest with
      | nil =>
        rw [hfile.pread_nil hrest]
        have hroom' : 0 < (v ++ t :: z.tail).length := by simp
        refine ⟨⟨1, userPath, (v ++ t :: z.tail).set 0 0, length⟩, ?_, rfl, rfl, ?_⟩
        · change (put (v ++ t :: z.tail) 0 0).bind _ = _
          rw [put, if_pos hroom']
          rfl
        · exact Nat.le_add_right _ _
      | cons c rest =>
        obtain ⟨hread, hrest'⟩ := hfile.pread_cons hrest
        rw [hread]
        have hih := ih (v := v ++ [t]) (z := z.tail) (t := c) hrest'
          (by rw [List.length_tail]; omega) (.inl (by simp))
        rw [List.length_append, List.length_singleton, List.append_assoc] at hih
        obtain ⟨e, he, hstatus, huser, hconsumed⟩ := hih
        exact ⟨e, he, hstatus, huser, by omega⟩

/-- A character that does not end the line does not tell whether it ends. -/
theorem exists_newline_cons (htmp : isNewline t = false) :
    (∃ c ∈ (t :: rest).take (left + 1), isNewline c = true) ↔
      ∃ c ∈ rest.take left, isNewline c = true := by
  rw [List.take_succ_cons]
  simp [htmp]

/-- The argument is the text up to the end of the line. -/
theorem fillArgument_argument (hfile : file.Reads content) (hrest : content.drop length = rest)
    (hroom : left < z.length) (hends : Ends left t rest)
    (hfirst : ∀ c ∈ (v ++ [t]).head?, isBlank c = false)
    (hstart : v ≠ [] ∨ isNewline t = false) {e : Extraction}
    (he : fillArgument file userPath left length v.length t (v ++ z) = .ok e) :
    HasArgument (∃ c ∈ (t :: rest).take left, isNewline c = true)
      (v ++ ((t :: rest).take left).takeWhile fun c => !isNewline c) e.argument := by
  induction left generalizing length v z t rest with
  | zero =>
    rw [fillArgument, put_of_lt hroom] at he
    obtain rfl := Except.ok.inj he
    obtain ⟨blanks, hblanks, hv⟩ := exists_trailing v
    refine ⟨blanks, hblanks, by simp, ?_⟩
    rw [List.take_zero, List.takeWhile_nil, List.append_nil, ← hv]
    exact cString_append_zero v _
  | succ left ih =>
    rw [fillArgument] at he
    by_cases hnewline : isNewline t = true
    · have hv : v ≠ [] := by
        refine hstart.resolve_right ?_
        rw [hnewline]
        decide
      have hlength : v.length ≠ 0 := fun h => hv (List.length_eq_zero_iff.mp h)
      rw [if_pos hnewline, put_of_lt (by omega)] at he
      change (if v.length = 0 then _ else _) = _ at he
      rw [if_neg hlength] at he
      obtain rfl := Except.ok.inj he
      refine ⟨[], List.forall_mem_nil _, fun _ => rfl, ?_⟩
      rw [List.take_succ_cons, List.takeWhile_cons_of_neg (by simp [hnewline]), List.append_nil,
        List.append_nil]
      refine removeTrailing_append (fun c hc => hfirst c ?_) hv
      rwa [List.head?_append_of_ne_nil _ hv]
    · have htmp : isNewline t = false := Bool.not_eq_true _ ▸ hnewline
      rw [if_neg hnewline, put_of_lt (by omega)] at he
      obtain ⟨c, rest, rfl, hends'⟩ := hends.step htmp
      obtain ⟨hread, hrest'⟩ := hfile.pread_cons hrest
      change (match file.pread length 1 with
        | .error _ => _
        | .ok [] => _
        | .ok (_ :: _) => _) = _ at he
      rw [hread] at he
      have hih := ih (v := v ++ [t]) (z := z.tail) (t := c) hrest'
        (by rw [List.length_tail]; omega) hends' ?_ (.inl (by simp)) ?_
      · rw [exists_newline_cons htmp, List.take_succ_cons,
          List.takeWhile_cons_of_pos (by simp [htmp])]
        rwa [List.append_assoc] at hih
      · rwa [List.head?_append_of_ne_nil _ (by simp)]
      · rw [List.length_append, List.length_singleton, List.append_assoc]
        exact he

/-- What was stored last. -/
theorem getD_last (hv : v ≠ []) : (v ++ z).getD (v.length - 1) 0 = v.getLast hv := by
  have hlt : v.length - 1 < v.length := Nat.sub_one_lt fun h => hv (List.length_eq_zero_iff.mp h)
  rw [List.getD_eq_getElem?_getD, List.getElem?_append_left hlt, List.getLast_eq_getElem]
  simp [hlt]

/-- Without a terminator no argument begins. -/
theorem not_argument (hv : 0 ∉ v) :
    ¬(!isBlank t && decide (v.length > 1) && decide ((v ++ z).getD (v.length - 1) 0 = 0)) = true := by
  rw [Bool.and_eq_true, Bool.and_eq_true, decide_eq_true_iff, decide_eq_true_iff]
  rintro ⟨⟨-, hlong⟩, hlast⟩
  have hne : v ≠ [] := List.ne_nil_of_length_pos (by omega)
  rw [getD_last hne] at hlast
  exact hv (hlast ▸ List.getLast_mem hne)

/-- Slurping a path stays within both buffers and the limit. -/
theorem fillPath_ok (hfile : file.Reads content) (hrest : content.drop length = rest)
    (hroom : left < z.length) (hargument : left < argument.length) :
    ∃ e, fillPath file left length v.length t (v ++ z) argument = .ok e ∧
      e.status = 1 ∧ e.consumed ≤ length + left := by
  have hput : ∀ c, put argument 0 c = .ok (c :: argument.tail) := fun c =>
    put_of_lt (v := []) (by omega) c
  induction left generalizing length v z t rest with
  | zero =>
    rw [fillPath, put_of_lt hroom, hput]
    exact ⟨_, rfl, rfl, le_rfl⟩
  | succ left ih =>
    rw [fillPath]
    split_ifs with hnewline hbegins
    · rw [put_of_lt (by omega), hput]
      exact ⟨_, rfl, rfl, Nat.le_add_right _ _⟩
    · have hfilled : ∃ e, fillArgument file (v ++ z) (left + 1) length 0 t argument = .ok e ∧
          e.status = 1 ∧ e.userPath = v ++ z ∧ e.consumed ≤ length + (left + 1) :=
        fillArgument_ok (v := []) hfile hrest hargument (.inr (Bool.not_eq_true _ ▸ hnewline))
      obtain ⟨e, he, hstatus, -, hconsumed⟩ := hfilled
      exact ⟨e, he, hstatus, hconsumed⟩
    · rw [put_of_lt (by omega)]
      cases rest with
      | nil =>
        rw [hfile.pread_nil hrest]
        refine ⟨⟨1, v ++ 0 :: z.tail, 0 :: argument.tail, length⟩, ?_, rfl, Nat.le_add_right _ _⟩
        change (put (v ++ _ :: z.tail) v.length 0).bind _ = _
        rw [put_append]
        change (put argument 0 0).bind _ = _
        rw [hput]
        rfl
      | cons c rest =>
        obtain ⟨hread, hrest'⟩ := hfile.pread_cons hrest
        rw [hread]
        have hih := ih (v := v ++ [storedChar t]) (z := z.tail) (t := c) hrest'
          (by rw [List.length_tail]; omega) (by omega)
        rw [List.length_append, List.length_singleton, List.append_assoc] at hih
        obtain ⟨e, he, hstatus, hconsumed⟩ := hih
        exact ⟨e, he, hstatus, by omega⟩

/-- A character of the path, or a blank behind it, is stored. -/
theorem fillPath_next (hfile : file.Reads content) {c : Byte} (hrest : content.drop length = c :: rest)
    (hroom : left + 1 < z.length) (hnewline : isNewline t = false)
    (hbegins : ¬(!isBlank t && decide (v.length > 1) &&
      decide ((v ++ z).getD (v.length - 1) 0 = 0)) = true) :
    fillPath file (left + 1) length v.length t (v ++ z) argument =
      fillPath file left (length + 1) (v ++ [storedChar t]).length c
        ((v ++ [storedChar t]) ++ z.tail) argument := by
  rw [fillPath, if_neg (by rw [hnewline]; decide), if_neg hbegins, put_of_lt (by omega),
    (hfile.pread_cons hrest).1, List.length_append, List.length_singleton, List.append_assoc]
  rfl

/-- What is stored of the path is kept. -/
theorem fillPath_keeps (hfile : file.Reads content) (hrest : content.drop length = rest)
    (hroom : left < z.length) (hargument : left < argument.length) (hends : Ends left t rest)
    {e : Extraction}
    (he : fillPath file left length v.length t (v ++ z) argument = .ok e) :
    ∃ z', e.userPath = v ++ z' := by
  have hput : ∀ c, put argument 0 c = .ok (c :: argument.tail) := fun c =>
    put_of_lt (v := []) (by omega) c
  induction left generalizing length v z t rest with
  | zero =>
    rw [fillPath, put_of_lt hroom, hput] at he
    obtain rfl := Except.ok.inj he
    exact ⟨_, rfl⟩
  | succ left ih =>
    by_cases hnewline : isNewline t = true
    · rw [fillPath, if_pos hnewline, put_of_lt (by omega), hput] at he
      obtain rfl := Except.ok.inj he
      exact ⟨_, rfl⟩
    by_cases hbegins : (!isBlank t && decide (v.length > 1) &&
        decide ((v ++ z).getD (v.length - 1) 0 = 0)) = true
    · rw [fillPath, if_neg hnewline, if_pos hbegins] at he
      have hfilled : ∃ e, fillArgument file (v ++ z) (left + 1) length 0 t argument = .ok e ∧
          e.status = 1 ∧ e.userPath = v ++ z ∧ e.consumed ≤ length + (left + 1) :=
        fillArgument_ok (v := []) hfile hrest hargument (.inr (Bool.not_eq_true _ ▸ hnewline))
      obtain ⟨e', he', -, huser, -⟩ := hfilled
      obtain rfl := Except.ok.inj (he'.symm.trans he)
      exact ⟨z, huser⟩
    · have htmp : isNewline t = false := Bool.not_eq_true _ ▸ hnewline
      obtain ⟨c, rest, rfl, hends'⟩ := hends.step htmp
      rw [fillPath_next hfile hrest hroom htmp hbegins] at he
      obtain ⟨z', hz'⟩ := ih (hfile.pread_cons hrest).2 (by rw [List.length_tail]; omega) (by omega)
        hends' he
      exact ⟨storedChar t :: z', by rw [hz', List.append_assoc]; rfl⟩

/-- The path is the first word of the line. -/
theorem fillPath_userPath (hfile : file.Reads content) (hrest : content.drop length = rest)
    (hroom : left < z.length) (hargument : left < argument.length) (hends : Ends left t rest)
    (hv : 0 ∉ v) {e : Extraction}
    (he : fillPath file left length v.length t (v ++ z) argument = .ok e) :
    cString e.userPath = cString (v ++ wordOf ((t :: rest).take left)) := by
  have hput : ∀ c, put argument 0 c = .ok (c :: argument.tail) := fun c =>
    put_of_lt (v := []) (by omega) c
  induction left generalizing length v z t rest with
  | zero =>
    rw [fillPath, put_of_lt hroom, hput] at he
    obtain rfl := Except.ok.inj he
    rw [List.take_zero, wordOf, List.takeWhile_nil, List.append_nil]
    exact cString_append_zero v _
  | succ left ih =>
    rw [List.take_succ_cons]
    by_cases hnewline : isNewline t = true
    · rw [fillPath, if_pos hnewline, put_of_lt (by omega), hput] at he
      obtain rfl := Except.ok.inj he
      rw [wordOf, List.takeWhile_cons_of_neg (by simp [isText, hnewline]), List.append_nil]
      exact cString_append_zero v _
    · have htmp : isNewline t = false := Bool.not_eq_true _ ▸ hnewline
      obtain ⟨c, rest, rfl, hends'⟩ := hends.step htmp
      rw [fillPath_next hfile hrest hroom htmp (not_argument hv)] at he
      have hrest' := (hfile.pread_cons hrest).2
      have hroom' : left < z.tail.length := by rw [List.length_tail]; omega
      by_cases hstored : storedChar t = 0
      · -- A terminator is stored, behind which the string does not matter.
        obtain ⟨z', hz'⟩ := fillPath_keeps hfile hrest' hroom' (by omega) hends' he
        rw [hz', hstored, List.append_assoc]
        refine (cString_append_zero v _).trans ?_
        by_cases hblank : isBlank t = true
        · rw [wordOf, List.takeWhile_cons_of_neg (by simp [isText, hblank]), List.append_nil]
        · have hzero : t = 0 := by rwa [storedChar, if_neg hblank] at hstored
          rw [wordOf, List.takeWhile_cons_of_pos (by simp [isText, hblank, htmp]), hzero]
          exact (cString_append_zero v _).symm
      · have hblank : isBlank t = false := by
          by_contra h
          exact hstored (if_pos (Bool.not_eq_false _ ▸ h))
        have hchar : storedChar t = t := if_neg (by rw [hblank]; decide)
        rw [hchar] at he hstored
        have hih := ih hrest' hroom' (by omega) hends' ?_ he
        · rw [wordOf, List.takeWhile_cons_of_pos (by simp [isText, hblank, htmp])]
          rwa [List.append_assoc] at hih
        · rw [List.mem_append, List.mem_singleton, not_or]
          exact ⟨hv, Ne.symm hstored⟩

/-- An empty argument is that of no text. -/
theorem hasArgument_nil (ended : Prop) (z : List Byte) : HasArgument ended [] (0 :: z) :=
  ⟨[], List.forall_mem_nil _, fun _ => rfl, cString_zero z⟩

/-- Behind the path and a blank the argument begins with the first character that is no blank. -/
theorem fillPath_argument_behind (hfile : file.Reads content) (hrest : content.drop length = rest)
    (hroom : left < z.length) (hargument : left < argument.length) (hends : Ends left t rest)
    (hlong : 1 < v.length) (hlast : v.getLast? = some 0) {e : Extraction}
    (he : fillPath file left length v.length t (v ++ z) argument = .ok e) :
    HasArgument (∃ c ∈ (t :: rest).take left, isNewline c = true)
      ((((t :: rest).take left).dropWhile isBlank).takeWhile fun c => !isNewline c)
      e.argument := by
  have hput : ∀ c, put argument 0 c = .ok (c :: argument.tail) := fun c =>
    put_of_lt (v := []) (by omega) c
  induction left generalizing length v z t rest with
  | zero =>
    rw [fillPath, put_of_lt hroom, hput] at he
    obtain rfl := Except.ok.inj he
    exact hasArgument_nil _ _
  | succ left ih =>
    by_cases hnewline : isNewline t = true
    · rw [fillPath, if_pos hnewline, put_of_lt (by omega), hput] at he
      obtain rfl := Except.ok.inj he
      have hblank : isBlank t = false := by
        unfold isNewline at hnewline
        unfold isBlank
        rcases of_decide_eq_true hnewline with rfl | rfl <;> decide
      rw [List.take_succ_cons, List.dropWhile_cons_of_neg (by simp [hblank]),
        List.takeWhile_cons_of_neg (by simp [hnewline])]
      exact hasArgument_nil _ _
    · have htmp : isNewline t = false := Bool.not_eq_true _ ▸ hnewline
      by_cases hblank : isBlank t = true
      · obtain ⟨c, rest, rfl, hends'⟩ := hends.step htmp
        rw [fillPath_next hfile hrest hroom htmp (by simp [hblank])] at he
        have hchar : storedChar t = 0 := if_pos hblank
        rw [hchar] at he
        have hih := ih (hfile.pread_cons hrest).2 (by rw [List.length_tail]; omega) (by omega)
          hends' (by rw [List.length_append]; omega) (by simp) he
        rwa [exists_newline_cons htmp, List.take_succ_cons, List.dropWhile_cons_of_pos hblank]
      · have hne : v ≠ [] := List.ne_nil_of_length_pos (by omega)
        have hbegins : (!isBlank t && decide (v.length > 1) &&
            decide ((v ++ z).getD (v.length - 1) 0 = 0)) = true := by
          rw [getD_last hne, List.getLast_of_getLast?_eq_some hlast]
          simp [hblank, hlong]
        rw [fillPath, if_neg hnewline, if_pos hbegins] at he
        have hargument' := fillArgument_argument (v := []) hfile hrest hargument hends
          (by simpa using hblank) (.inr htmp) he
        rwa [List.take_succ_cons, List.dropWhile_cons_of_neg hblank, ← List.take_succ_cons]

/-- The argument is the rest of the line, if there is no terminator in the first word. -/
theorem fillPath_argument (hfile : file.Reads content) (hrest : content.drop length = rest)
    (hroom : left < z.length) (hargument : left < argument.length) (hends : Ends left t rest)
    (hv : 0 ∉ v) (hfirst : v ≠ [] ∨ left = 0 ∨ isBlank t = false)
    (hword : 0 ∉ wordOf ((t :: rest).take left)) {e : Extraction}
    (he : fillPath file left length v.length t (v ++ z) argument = .ok e) :
    HasArgument (∃ c ∈ (t :: rest).take left, isNewline c = true)
      (restOf ((t :: rest).take left)) e.argument := by
  have hput : ∀ c, put argument 0 c = .ok (c :: argument.tail) := fun c =>
    put_of_lt (v := []) (by omega) c
  induction left generalizing length v z t rest with
  | zero =>
    rw [fillPath, put_of_lt hroom, hput] at he
    obtain rfl := Except.ok.inj he
    exact hasArgument_nil _ _
  | succ left ih =>
    by_cases hnewline : isNewline t = true
    · rw [fillPath, if_pos hnewline, put_of_lt (by omega), hput] at he
      obtain rfl := Except.ok.inj he
      have hblank : isBlank t = false := by
        unfold isNewline at hnewline
        unfold isBlank
        rcases of_decide_eq_true hnewline with rfl | rfl <;> decide
      rw [List.take_succ_cons, restOf, List.dropWhile_cons_of_neg (by simp [isText, hnewline]),
        List.dropWhile_cons_of_neg (by simp [hblank]),
        List.takeWhile_cons_of_neg (by simp [hnewline])]
      exact hasArgument_nil _ _
    · have htmp : isNewline t = false := Bool.not_eq_true _ ▸ hnewline
      obtain ⟨c, rest, rfl, hends'⟩ := hends.step htmp
      rw [fillPath_next hfile hrest hroom htmp (not_argument hv)] at he
      have hrest' := (hfile.pread_cons hrest).2
      have hroom' : left < z.tail.length := by rw [List.length_tail]; omega
      rw [exists_newline_cons htmp, List.take_succ_cons]
      by_cases hblank : isBlank t = true
      · have hne : v ≠ [] := by
          rcases hfirst with hne | hzero | hfirst
          · exact hne
          · cases hzero
          · rw [hblank] at hfirst
            cases hfirst
        have hchar : storedChar t = 0 := if_pos hblank
        rw [hchar] at he
        have hlong : 1 < (v ++ [(0 : Byte)]).length := by
          have := List.length_pos_of_ne_nil hne
          rw [List.length_append, List.length_singleton]
          omega
        rw [restOf, List.dropWhile_cons_of_neg (by simp [isText, hblank]),
          List.dropWhile_cons_of_pos hblank]
        exact fillPath_argument_behind hfile hrest' hroom' (by omega) hends' hlong (by simp) he
      · have htext : isText t = true := by simp [isText, hblank, htmp]
        rw [List.take_succ_cons, wordOf, List.takeWhile_cons_of_pos htext, List.mem_cons,
          not_or] at hword
        have hchar : storedChar t = t := if_neg hblank
        rw [hchar] at he
        rw [restOf, List.dropWhile_cons_of_pos htext]
        refine ih hrest' hroom' (by omega) hends' ?_ (.inl (by simp)) hword.2 he
        rw [List.mem_append, List.mem_singleton, not_or]
        exact ⟨hv, hword.1⟩

/-- Behind the leading blanks, which the file may end with, the text that is looked at begins. -/
theorem skipLeading_spec (left length : ℕ) (hfile : file.Reads content)
    (hrest : content.drop length = rest) :
    if rest.all isBlank = true ∧ rest.length ≤ left then
      ∃ consumed ≤ length + left, skipLeading file left length = .error (-enoexec, consumed)
    else ∃ t length', skipLeading file left length = .ok (t, length') ∧
      length' ≤ length + left + 1 ∧
      (t :: content.drop length').take (length + left + 1 - length') =
        (rest.take left).dropWhile isBlank ∧
      (length + left + 1 - length' = 0 ∨ isBlank t = false) ∧ length < length' := by
  induction left generalizing length rest with
  | zero =>
    rw [skipLeading]
    cases rest with
    | nil =>
      rw [if_pos (by simp), hfile.pread_nil hrest]
      exact ⟨length, le_rfl, rfl⟩
    | cons c rest =>
      rw [if_neg (by simp), (hfile.pread_cons hrest).1]
      refine ⟨c, length + 1, rfl, le_rfl, ?_, .inl (by omega), by omega⟩
      simp
  | succ left ih =>
    rw [skipLeading]
    cases rest with
    | nil =>
      rw [if_pos (by simp), hfile.pread_nil hrest]
      exact ⟨length, by omega, rfl⟩
    | cons c rest =>
      obtain ⟨hread, hrest'⟩ := hfile.pread_cons hrest
      rw [hread]
      by_cases hblank : isBlank c = true
      · have hih := ih (length + 1) hrest'
        have hsame : ((c :: rest).all isBlank = true ∧ (c :: rest).length ≤ left + 1) ↔
            rest.all isBlank = true ∧ rest.length ≤ left := by simp [hblank]
        dsimp only
        rw [if_pos hblank, if_congr hsame rfl rfl, List.take_succ_cons,
          List.dropWhile_cons_of_pos hblank]
        have hlimit : length + (left + 1) + 1 = length + 1 + left + 1 := by omega
        rw [hlimit, show length + (left + 1) = length + 1 + left by omega]
        split at hih <;> rename_i hall
        · rw [if_pos hall]
          exact hih
        · rw [if_neg hall]
          obtain ⟨t, length', hskip, hle, htext, hfirst, hlt⟩ := hih
          exact ⟨t, length', hskip, hle, htext, hfirst, by omega⟩
      · dsimp only
        rw [if_neg (by simp [hblank]), if_neg hblank]
        refine ⟨c, length + 1, rfl, by omega, ?_, .inr (Bool.not_eq_true _ ▸ hblank), by omega⟩
        rw [hrest', show length + (left + 1) + 1 - (length + 1) = left + 1 by omega,
          List.take_succ_cons, List.dropWhile_cons_of_neg hblank]

end Scan

/-! ## What is extracted -/

/-- The content of a script. -/
def IsScript (content : List Byte) : Prop := [35, 33] <+: content

/-- The file ends with blanks before there is an interpreter. -/
def NoInterpreter (binprmBufSize : ℕ) (content : List Byte) : Prop :=
  (content.drop 2).all isBlank = true ∧ content.length < binprmBufSize

/-- The line ends within the limit. -/
def LineEnded (binprmBufSize : ℕ) (content : List Byte) : Prop :=
  ∃ c ∈ scannedText binprmBufSize content, isNewline c = true

/-- What is extracted from a file: nothing if it is no script, an error if there is no interpreter, and
otherwise the first word of the line and the rest, if the line ends before the file does or is cut
off at the limit. The blanks at the end of a line that is cut off may be kept. -/
structure ExtractsShebang (binprmBufSize : ℕ) (content userPath : List Byte) (e : Extraction) :
    Prop where
  consumed : e.consumed ≤ binprmBufSize
  plain : ¬IsScript content → e.status = 0 ∧ e.userPath = userPath
  missing : IsScript content → NoInterpreter binprmBufSize content → e.status = -enoexec
  found : IsScript content → ¬NoInterpreter binprmBufSize content → e.status = 1
  path : IsScript content → LineEnded binprmBufSize content ∨ binprmBufSize ≤ content.length →
    cString e.userPath = cString (wordOf (scannedText binprmBufSize content))
  argument : IsScript content → LineEnded binprmBufSize content ∨ binprmBufSize ≤ content.length →
    0 ∉ wordOf (scannedText binprmBufSize content) →
    HasArgument (LineEnded binprmBufSize content) (restOf (scannedText binprmBufSize content))
      e.argument

section Extraction

variable {binprmBufSize : ℕ} {file : File} {content userPath argument : List Byte}

/-- The first two characters tell a script. -/
theorem isScript_iff : IsScript content ↔ content.take 2 = [35, 33] := by
  constructor
  · rintro ⟨rest, rfl⟩
    rfl
  · intro h
    have hpre := List.take_prefix 2 content
    rwa [h] at hpre

/-- Nothing is extracted from a file that is no script. -/
theorem fillShebang_plain (binprmBufSize : ℕ) (userPath : List Byte)
    (hfile : file.Reads content) (hargument : 0 < argument.length) (hscript : ¬IsScript content) :
    ∃ e, fillShebang binprmBufSize (.ok file) userPath argument = .ok e ∧
      e.status = 0 ∧ e.userPath = userPath ∧ e.consumed ≤ 2 := by
  have hput : put argument 0 0 = .ok (0 :: argument.tail) := put_of_lt (v := []) hargument 0
  have hread : file.pread 0 2 = .ok (content.take 2) := hfile 0 2
  rw [isScript_iff] at hscript
  have hfill : fillShebang binprmBufSize (.ok file) userPath argument =
      if (content.take 2).length < 2 then
        .ok ⟨0, userPath, 0 :: argument.tail, (content.take 2).length⟩
      else .ok ⟨0, userPath, 0 :: argument.tail, 2⟩ := by
    rw [fillShebang, hput]
    change (match file.pread 0 2 with
      | .error _ => _
      | .ok _ => _) = _
    rw [hread]
    dsimp only
    rw [if_pos hscript]
  rw [hfill]
  split
  · exact ⟨_, rfl, rfl, rfl, List.length_take_le _ _⟩
  · exact ⟨_, rfl, rfl, rfl, le_rfl⟩

/-- The line of a script is scanned from behind its first two characters. -/
theorem fillShebang_script (hfile : file.Reads content) (huserPath : 0 < userPath.length)
    (hargument : 0 < argument.length) (hscript : IsScript content) :
    fillShebang binprmBufSize (.ok file) userPath argument =
      match skipLeading file (binprmBufSize - 3) 2 with
      | .error (status, length) => .ok ⟨status, 0 :: userPath.tail, 0 :: argument.tail, length⟩
      | .ok (t, length) =>
        fillPath file (binprmBufSize - length) length 0 t (0 :: userPath.tail)
          (0 :: argument.tail) := by
  have hput : put argument 0 0 = .ok (0 :: argument.tail) := put_of_lt (v := []) hargument 0
  have hput' : put userPath 0 0 = .ok (0 :: userPath.tail) := put_of_lt (v := []) huserPath 0
  have hread : file.pread 0 2 = .ok [35, 33] := by
    rw [← isScript_iff.mp hscript]
    exact hfile 0 2
  rw [fillShebang, hput]
  change (match file.pread 0 2 with
    | .error _ => _
    | .ok _ => _) = _
  rw [hread]
  dsimp only
  rw [if_neg (by decide), if_neg (by decide), hput']
  rfl

/-- A file that ends with blanks is none that can be executed. -/
theorem fillShebang_missing (hfile : file.Reads content) (hsize : 3 ≤ binprmBufSize)
    (huserPath : 0 < userPath.length) (hargument : 0 < argument.length)
    (hscript : IsScript content) (hnone : NoInterpreter binprmBufSize content) :
    ∃ e, fillShebang binprmBufSize (.ok file) userPath argument = .ok e ∧
      e.status = -enoexec ∧ e.consumed ≤ binprmBufSize := by
  rw [fillShebang_script hfile huserPath hargument hscript]
  have hskip := skipLeading_spec (binprmBufSize - 3) 2 hfile rfl
  rw [if_pos ⟨hnone.1, by rw [List.length_drop]; have := hnone.2; omega⟩] at hskip
  obtain ⟨consumed, hconsumed, hskip⟩ := hskip
  rw [hskip]
  exact ⟨_, rfl, rfl, by dsimp only; omega⟩

/-- The line of a script that has an interpreter is scanned from its first character that is no
blank. -/
theorem fillShebang_found (hfile : file.Reads content) (hsize : 3 ≤ binprmBufSize)
    (huserPath : 0 < userPath.length) (hargument : 0 < argument.length)
    (hscript : IsScript content) (hsome : ¬NoInterpreter binprmBufSize content) :
    ∃ t length, fillShebang binprmBufSize (.ok file) userPath argument =
        fillPath file (binprmBufSize - length) length 0 t (0 :: userPath.tail)
          (0 :: argument.tail) ∧
      length ≤ binprmBufSize ∧ 2 < length ∧
      (t :: content.drop length).take (binprmBufSize - length) =
        scannedText binprmBufSize content ∧
      (binprmBufSize - length = 0 ∨ isBlank t = false) := by
  rw [fillShebang_script hfile huserPath hargument hscript]
  have hskip := skipLeading_spec (binprmBufSize - 3) 2 hfile rfl
  have hlong : 2 ≤ content.length := hscript.length_le
  rw [if_neg fun h => hsome ⟨h.1, by have := h.2; rw [List.length_drop] at this; omega⟩] at hskip
  obtain ⟨t, length, hskip, hle, htext, hfirst, hlt⟩ := hskip
  rw [hskip]
  have hlimit : 2 + (binprmBufSize - 3) + 1 = binprmBufSize := by omega
  rw [hlimit] at hle htext hfirst
  refine ⟨t, length, rfl, hle, hlt, ?_, hfirst⟩
  rw [htext, scannedText, List.drop_take, show binprmBufSize - 1 - 2 = binprmBufSize - 3 by omega]

/-- The shebang of a script is extracted, within the two buffers and the limit. -/
theorem fillShebang_extracts (hfile : file.Reads content) (hsize : 3 ≤ binprmBufSize)
    (huserPath : userPath.length = pathMax) (hargument : argument.length = binprmBufSize)
    (hbuffers : binprmBufSize < pathMax) :
    ∃ e, fillShebang binprmBufSize (.ok file) userPath argument = .ok e ∧
      ExtractsShebang binprmBufSize content userPath e := by
  have huser0 : 0 < userPath.length := by omega
  have hargument0 : 0 < argument.length := by omega
  by_cases hscript : IsScript content
  · by_cases hnone : NoInterpreter binprmBufSize content
    · obtain ⟨e, he, hstatus, hconsumed⟩ :=
        fillShebang_missing hfile hsize huser0 hargument0 hscript hnone
      have hempty : scannedText binprmBufSize content = [] := by
        rw [scannedText, List.dropWhile_eq_nil_iff]
        intro c hc
        rw [List.drop_take] at hc
        exact List.all_eq_true.mp hnone.1 c (List.mem_of_mem_take hc)
      have hnot : ¬(LineEnded binprmBufSize content ∨ binprmBufSize ≤ content.length) := by
        rintro (⟨c, hc, -⟩ | hlong)
        · rw [hempty] at hc
          cases hc
        · exact absurd hnone.2 (not_lt.mpr hlong)
      exact ⟨e, he, ⟨hconsumed, fun h => absurd hscript h, fun _ _ => hstatus,
        fun _ h => absurd hnone h, fun _ h => absurd h hnot, fun _ h => absurd h hnot⟩⟩
    · obtain ⟨t, length, hfill, hle, hlt, htext, hfirst⟩ :=
        fillShebang_found hfile hsize huser0 hargument0 hscript hnone
      have hroom : binprmBufSize - length < (0 :: userPath.tail).length := by
        rw [List.length_cons, List.length_tail]
        omega
      have hroom' : binprmBufSize - length < (0 :: argument.tail).length := by
        rw [List.length_cons, List.length_tail]
        omega
      obtain ⟨e, he, hstatus, hconsumed⟩ :=
        fillPath_ok (v := []) (t := t) hfile rfl hroom hroom'
      have hends : LineEnded binprmBufSize content ∨ binprmBufSize ≤ content.length →
          Ends (binprmBufSize - length) t (content.drop length) := by
        rintro (⟨c, hc, hnewline⟩ | hlong)
        · exact .inl ⟨c, htext ▸ hc, hnewline⟩
        · exact .inr (by rw [List.length_drop]; omega)
      refine ⟨e, hfill.trans he, ⟨by omega, fun h => absurd hscript h, fun _ h => absurd h hnone,
        fun _ _ => hstatus, fun _ hended => ?_, fun _ hended hword => ?_⟩⟩
      · rw [← htext]
        exact fillPath_userPath (v := []) hfile rfl hroom hroom' (hends hended) (by simp) he
      · unfold LineEnded
        rw [← htext] at hword ⊢
        exact fillPath_argument (v := []) hfile rfl hroom hroom' (hends hended) (by simp)
          (.inr hfirst) hword he
  · obtain ⟨e, he, hstatus, huser, hconsumed⟩ :=
      fillShebang_plain binprmBufSize userPath hfile hargument0 hscript
    exact ⟨e, he, ⟨by omega, fun _ => ⟨hstatus, huser⟩, fun h => absurd h hscript,
      fun h => absurd h hscript, fun h => absurd h hscript, fun h => absurd h hscript⟩⟩

/-- The file whose reads return a content. -/
def fileOf (content : List Byte) : File where
  pread offset size := .ok ((content.drop offset).take size)
  lseek offset := .ok offset

/-- It has this content. -/
theorem fileOf_reads (content : List Byte) : (fileOf content).Reads content := fun _ _ => rfl

/-- The interpreter `/s` with the argument `-e`. -/
theorem fillShebang_extracts_argument :
    ∃ e, fillShebang 256 (.ok (fileOf [35, 33, 32, 47, 115, 32, 45, 101, 10]))
        (List.replicate pathMax 1) (List.replicate 256 1) = .ok e ∧
      ExtractsShebang 256 [35, 33, 32, 47, 115, 32, 45, 101, 10] (List.replicate pathMax 1) e :=
  fillShebang_extracts (fileOf_reads _) (by decide) List.length_replicate List.length_replicate
    (by decide)

/-- A file of the first two characters of a script only is no script that is extracted. -/
theorem fillShebang_noInterpreter :
    ∃ e, fillShebang 256 (.ok (fileOf [35, 33])) (List.replicate pathMax 1)
        (List.replicate 256 1) = .ok e ∧ IsScript [35, 33] ∧ e.status ≠ 1 := by
  have hmissing : ∃ e, fillShebang 256 (.ok (fileOf [35, 33])) (List.replicate pathMax 1)
      (List.replicate 256 1) = .ok e ∧ e.status = -enoexec ∧ e.consumed ≤ 256 :=
    fillShebang_missing (fileOf_reads [35, 33]) (by decide)
      (by rw [List.length_replicate]; decide) (by rw [List.length_replicate]; decide)
      (List.prefix_refl _) ⟨rfl, by decide⟩
  obtain ⟨e, he, hstatus, -⟩ := hmissing
  exact ⟨e, he, List.prefix_refl _, by rw [hstatus]; decide⟩

end Extraction

/-! ## The path alone -/

section Path

variable {h : Host} {file : File} {content rest argument v z : List Byte} {n length : ℕ} {t : Byte}

/-- The leading blanks are skipped in the same way. -/
theorem skipBlanks_eq (file : File) (n length : ℕ) :
    skipBlanks file n length =
      match skipLeading file n length with
      | .error (z, _) => status z
      | .ok found => .ok found := by
  induction n generalizing length with
  | zero =>
    rw [skipBlanks, skipLeading, readChar]
    rcases file.pread length 1 with errno | (_ | ⟨c, rest⟩) <;> rfl
  | succ n ih =>
    rw [skipBlanks, skipLeading, readChar]
    rcases file.pread length 1 with errno | (_ | ⟨c, rest⟩)
    · rfl
    · rfl
    · change (if isBlank c then skipBlanks file n (length + 1) else _) = _
      dsimp only
      split
      · exact ih _
      · rfl

/-- Slurping an argument is no error. -/
theorem slurpArgument_ok (hfile : file.Reads content) (n length : ℕ) (t : Byte) :
    slurpArgument file n length t = .ok () := by
  induction n generalizing length t with
  | zero => rfl
  | succ n ih =>
    rw [slurpArgument, readChar]
    split
    · rfl
    · cases hrest : content.drop length with
      | nil =>
        rw [hfile.pread_nil hrest]
        rfl
      | cons c rest =>
        rw [(hfile.pread_cons hrest).1]
        exact ih _ _

/-- The argument begins at the same character. -/
theorem begins_iff : (!isBlank t && decide (v.length > 1) &&
      decide ((v ++ z).getD (v.length - 1) 0 = 0)) = true ↔
    (!isBlank t && decide (v.length > 1) && decide (v.getLast? = some 0)) = true := by
  simp only [Bool.and_eq_true, decide_eq_true_eq, and_congr_right_iff]
  rintro ⟨-, hlong⟩
  have hne : v ≠ [] := List.ne_nil_of_length_pos (by omega)
  rw [getD_last hne, List.getLast?_eq_some_getLast hne, Option.some.injEq]

/-- The same path is slurped. -/
theorem slurpPath_eq (hfile : file.Reads content) (hrest : content.drop length = rest)
    (hroom : n < z.length) (hargument : n < argument.length) :
    ∃ e path, fillPath file n length v.length t (v ++ z) argument = .ok e ∧
      slurpPath file n length t v = .ok path ∧ cString e.userPath = cString path := by
  have hput : ∀ c, put argument 0 c = .ok (c :: argument.tail) := fun c =>
    put_of_lt (v := []) (by omega) c
  induction n generalizing length v z t rest with
  | zero =>
    rw [fillPath, put_of_lt hroom, hput]
    exact ⟨_, v, rfl, rfl, cString_append_zero v _⟩
  | succ n ih =>
    rw [slurpPath]
    by_cases hnewline : isNewline t = true
    · rw [fillPath, if_pos hnewline, put_of_lt (by omega), hput, if_pos hnewline]
      exact ⟨_, v, rfl, rfl, cString_append_zero v _⟩
    rw [if_neg hnewline]
    by_cases hbegins : (!isBlank t && decide (v.length > 1) &&
        decide ((v ++ z).getD (v.length - 1) 0 = 0)) = true
    · have hfilled : ∃ e, fillArgument file (v ++ z) (n + 1) length 0 t argument = .ok e ∧
          e.status = 1 ∧ e.userPath = v ++ z ∧ e.consumed ≤ length + (n + 1) :=
        fillArgument_ok (v := []) hfile hrest hargument (.inr (Bool.not_eq_true _ ▸ hnewline))
      obtain ⟨e, he, -, huser, -⟩ := hfilled
      have hzero : 0 ∈ v := by
        have hlast := begins_iff.mp hbegins
        rw [Bool.and_eq_true, decide_eq_true_iff] at hlast
        exact List.mem_of_getLast? hlast.2
      rw [fillPath, if_neg hnewline, if_pos hbegins, if_pos (begins_iff.mp hbegins),
        slurpArgument_ok hfile]
      exact ⟨e, v, he, rfl, by rw [huser]; exact cString_append_of_mem hzero z⟩
    · rw [if_neg (mt begins_iff.mpr hbegins), readChar]
      cases rest with
      | nil =>
        rw [fillPath, if_neg hnewline, if_neg hbegins, put_of_lt (by omega), hfile.pread_nil hrest]
        refine ⟨⟨1, v ++ 0 :: z.tail, 0 :: argument.tail, length⟩, v, ?_, rfl,
          cString_append_zero v _⟩
        change (put (v ++ _ :: z.tail) v.length 0).bind _ = _
        rw [put_append]
        change (put argument 0 0).bind _ = _
        rw [hput]
        rfl
      | cons c rest =>
        rw [fillPath_next hfile hrest hroom (Bool.not_eq_true _ ▸ hnewline) hbegins,
          (hfile.pread_cons hrest).1]
        exact ih (hfile.pread_cons hrest).2 (by rw [List.length_tail]; omega) (by omega)

/-- The path alone is the string in its buffer. -/
theorem extractShebang_eq {hostPath : Path} {userPath : List Byte}
    (hopen : h.openFile hostPath = .ok file) (hfile : file.Reads content)
    (hsize : 3 ≤ h.binprmBufSize) (huserPath : userPath.length = pathMax)
    (hargument : argument.length = h.binprmBufSize) (hbuffers : h.binprmBufSize < pathMax) :
    ∃ e, fillShebang h.binprmBufSize (h.openFile hostPath) userPath argument = .ok e ∧
      extractShebang h hostPath =
        if e.status < 0 then status e.status
        else if e.status = 0 then .ok none else .ok (some (cString e.userPath)) := by
  have huser0 : 0 < userPath.length := by
    rw [huserPath]
    decide
  have hargument0 : 0 < argument.length := by omega
  have hread : file.pread 0 2 = .ok (content.take 2) := hfile 0 2
  have hextract : extractShebang h hostPath =
      if (content.take 2).length < 2 then .ok none
      else if content.take 2 ≠ [35, 33] then .ok none
      else (skipBlanks file (h.binprmBufSize - 3) 2).bind fun found =>
        (slurpPath file (h.binprmBufSize - found.2) found.2 found.1 []).bind fun path =>
          .ok (some (cString path)) := by
    rw [extractShebang, if_neg (by omega), hopen]
    dsimp only
    rw [hread]
    rfl
  rw [hopen, hextract]
  by_cases hscript : IsScript content
  · rw [fillShebang_script hfile huser0 hargument0 hscript, isScript_iff.mp hscript,
      if_neg (by decide), if_neg (by decide), skipBlanks_eq]
    have hskip := skipLeading_spec (h.binprmBufSize - 3) 2 hfile rfl
    split at hskip
    · obtain ⟨consumed, -, hskip⟩ := hskip
      rw [hskip]
      exact ⟨_, rfl, rfl⟩
    · obtain ⟨t, length, hskip, -, -, -, hlt⟩ := hskip
      rw [hskip]
      have hroom : h.binprmBufSize - length < (0 :: userPath.tail).length := by
        rw [List.length_cons, List.length_tail]
        omega
      have hroom' : h.binprmBufSize - length < (0 :: argument.tail).length := by
        rw [List.length_cons, List.length_tail]
        omega
      obtain ⟨e, path, he, hpath, hsame⟩ :=
        slurpPath_eq (v := []) (t := t) hfile rfl hroom hroom'
      obtain ⟨e', he', hstatus, -⟩ := fillPath_ok (v := []) (t := t) hfile rfl hroom hroom'
      obtain rfl := Except.ok.inj (he'.symm.trans he)
      refine ⟨e', he, ?_⟩
      change (slurpPath file (h.binprmBufSize - length) length t []).bind _ = _
      rw [hpath, hstatus, if_neg (by decide), if_neg (by decide), hsame]
      rfl
  · obtain ⟨e, he, hstatus, -, -⟩ :=
      fillShebang_plain h.binprmBufSize userPath hfile hargument0 hscript
    refine ⟨e, he, ?_⟩
    rw [if_pos (mt isScript_iff.mpr hscript), ite_self, hstatus]
    rfl

end Path

end Abyss.Execve
