import Abyss.Execve.ShebangText

/-!
# The interpreter that a script names

What a script names is told by its text alone: the first word of its first line. The text is what
single reads return up to the limit, to the end of the file or to a read that fails; this failure
counts unless the line ended before.

The reader finds this word, except in a file that ends with it: there the terminator takes the
place of its last character.
-/

namespace Abyss.Execve

open Bytes

/-- The bytes that are read one after the other from an offset on, up to a number of them, and the
error if a read fails. -/
def File.bytes (file : File) : ℕ → ℕ → List Byte × Option ℤ
  | 0, _ => ([], none)
  | size + 1, offset =>
    match file.pread offset 1 with
    | .error errno => ([], some errno)
    | .ok [] => ([], none)
    | .ok (c :: _) => (c :: (file.bytes size (offset + 1)).1, (file.bytes size (offset + 1)).2)

/-- The failure that prevents a line from being read: none if the line ended before. -/
def lineFailure (text : List Byte) (failure : Option ℤ) : Option ℤ :=
  if text.any isNewline then none else failure

/-- The first bytes of a script, up to the limit, and the error if a read fails. -/
def File.firstBytes (file : File) (binprmBufSize : ℕ) : List Byte × Option ℤ :=
  ([35, 33] ++ (file.bytes (binprmBufSize - 2) 2).1, (file.bytes (binprmBufSize - 2) 2).2)

/-- The interpreter that a file names: none if it is no script, and otherwise the first word of its
line, up to a terminator. A line that cannot be read is an error, and so is a script that ends before
there is an interpreter. -/
def File.shebang (file : File) (binprmBufSize : ℕ) : Except Stop (Option Path) :=
  match file.pread 0 2 with
  | .error errno => status (-errno)
  | .ok bytes =>
    if bytes ≠ [35, 33] then .ok none
    else
      match lineFailure (file.firstBytes binprmBufSize).1 (file.firstBytes binprmBufSize).2 with
      | some errno => status (-errno)
      | none =>
        if (((file.firstBytes binprmBufSize).1.drop 2).all isBlank ∧
            (file.firstBytes binprmBufSize).1.length < binprmBufSize) then status (-enoexec)
        else .ok (some (cString (wordOf (scannedText binprmBufSize (file.firstBytes binprmBufSize).1))))

/-- The interpreter that the file at a path of the host names. -/
def Host.shebang (h : Host) (hostPath : Path) : Except Stop (Option Path) :=
  match h.openFile hostPath with
  | .error errno => status (-errno)
  | .ok file => file.shebang h.binprmBufSize

/-- The file is a script that ends with the path of the interpreter, before the limit and without the
end of a line. -/
structure File.EndsInPath (file : File) (binprmBufSize : ℕ) : Prop where
  script : file.pread 0 2 = .ok [35, 33]
  readable : (file.firstBytes binprmBufSize).2 = none
  short : (file.firstBytes binprmBufSize).1.length < binprmBufSize
  named : scannedText binprmBufSize (file.firstBytes binprmBufSize).1 ≠ []
  path : ∀ c ∈ scannedText binprmBufSize (file.firstBytes binprmBufSize).1, isText c = true ∧ c ≠ 0

/-- The file at a path of the host ends with the path of its interpreter. -/
def Host.EndsInPath (h : Host) (hostPath : Path) : Prop :=
  ∃ file, h.openFile hostPath = .ok file ∧ file.EndsInPath h.binprmBufSize

section Scan

variable {file : File} {left length : ℕ} {t : Byte} {v : List Byte} {errno : ℤ}

/-- A character that does not end the line does not matter. -/
theorem lineFailure_cons (htmp : isNewline t = false) (rest : List Byte) (failure : Option ℤ) :
    lineFailure (t :: rest) failure = lineFailure rest failure := by
  rw [lineFailure, lineFailure, List.any_cons, htmp, Bool.false_or]

/-- No failure matters behind the end of the line. -/
theorem lineFailure_newline (htmp : isNewline t = true) (rest : List Byte) (failure : Option ℤ) :
    lineFailure (t :: rest) failure = none := by
  rw [lineFailure, List.any_cons, htmp, Bool.true_or, if_pos rfl]

/-- Slurping an argument fails exactly if the line cannot be read. -/
theorem slurpArgument_line (file : File) (left length : ℕ) (t : Byte) :
    slurpArgument file left length t =
      match lineFailure (t :: (file.bytes left length).1) (file.bytes left length).2 with
      | some errno => status (-errno)
      | none => .ok () := by
  induction left generalizing length t with
  | zero =>
    rw [slurpArgument, File.bytes, lineFailure, ite_self]
    rfl
  | succ left ih =>
    rw [slurpArgument]
    by_cases hnewline : isNewline t = true
    · rw [if_pos hnewline, lineFailure_newline hnewline]
      rfl
    · have htmp : isNewline t = false := Bool.not_eq_true _ ▸ hnewline
      rw [if_neg hnewline, lineFailure_cons htmp, readChar, File.bytes]
      rcases file.pread length 1 with errno | (_ | ⟨c, rest⟩)
      · rfl
      · rfl
      · exact ih (length + 1) c

/-- The file ends with the path that is slurped; `t` is the current character, behind which `rest` is
read. -/
def EndsWord (left : ℕ) (t : Byte) (rest : List Byte) : Prop :=
  rest.length < left ∧ ∀ c ∈ t :: rest, isText c = true ∧ c ≠ 0

/-- A character of a word is followed by the rest of the word. -/
theorem endsWord_cons (htext : isText t = true ∧ t ≠ 0) (c : Byte) (rest : List Byte) :
    EndsWord (left + 1) t (c :: rest) ↔ EndsWord left c rest := by
  unfold EndsWord
  rw [List.length_cons, Nat.succ_lt_succ_iff, List.forall_mem_cons (a := t), and_iff_right htext]

/-- A character that ends a word is not in it. -/
theorem not_endsWord (htext : isText t = true → t = 0) (rest : List Byte) :
    ¬EndsWord left t rest := fun h => by
  have hfirst := h.2 t List.mem_cons_self
  exact hfirst.2 (htext hfirst.1)

/-- Slurping a path fails if the line cannot be read. -/
theorem slurpPath_failure
    (hfailure : lineFailure (t :: (file.bytes left length).1) (file.bytes left length).2 =
      some errno) :
    slurpPath file left length t v = status (-errno) := by
  induction left generalizing length t v with
  | zero =>
    rw [File.bytes, lineFailure, ite_self] at hfailure
    cases hfailure
  | succ left ih =>
    rw [slurpPath]
    by_cases hnewline : isNewline t = true
    · rw [lineFailure_newline hnewline] at hfailure
      cases hfailure
    have htmp : isNewline t = false := Bool.not_eq_true _ ▸ hnewline
    rw [if_neg hnewline]
    split
    · rw [slurpArgument_line, hfailure]
      rfl
    · rw [lineFailure_cons htmp, File.bytes] at hfailure
      rw [readChar]
      rcases hread : file.pread length 1 with errno' | (_ | ⟨c, rest⟩)
      · rw [hread] at hfailure
        obtain rfl := Option.some.inj hfailure
        rfl
      · rw [hread] at hfailure
        cases hfailure
      · rw [hread] at hfailure
        exact ih hfailure

/-- Behind a terminator nothing changes the path any more. -/
theorem slurpPath_terminated
    (hline : lineFailure (t :: (file.bytes left length).1) (file.bytes left length).2 = none)
    (hv : 0 ∈ v) :
    ∃ path, slurpPath file left length t v = .ok path ∧ cString path = cString v := by
  induction left generalizing length t v with
  | zero => exact ⟨v, rfl, rfl⟩
  | succ left ih =>
    rw [slurpPath]
    by_cases hnewline : isNewline t = true
    · rw [if_pos hnewline]
      exact ⟨v, rfl, rfl⟩
    have htmp : isNewline t = false := Bool.not_eq_true _ ▸ hnewline
    rw [if_neg hnewline]
    split
    · rw [slurpArgument_line, hline]
      exact ⟨v, rfl, rfl⟩
    · rw [lineFailure_cons htmp, File.bytes] at hline
      rw [readChar]
      rcases hread : file.pread length 1 with errno | (_ | ⟨c, rest⟩)
      · rw [hread] at hline
        cases hline
      · exact ⟨v, rfl, rfl⟩
      · rw [hread] at hline
        obtain ⟨path, hpath, hsame⟩ :=
          ih (v := v ++ [if isBlank t then 0 else t]) hline (List.mem_append_left _ hv)
        exact ⟨path, hpath, hsame.trans (cString_append_of_mem hv _)⟩

/-- What is slurped is the first word, without its last character if the file ends with it. -/
theorem slurpPath_word
    (hline : lineFailure (t :: (file.bytes left length).1) (file.bytes left length).2 = none)
    (hv : 0 ∉ v) :
    ∃ path, slurpPath file left length t v = .ok path ∧
      (EndsWord left t (file.bytes left length).1 →
        cString path = cString (v ++ (t :: (file.bytes left length).1).dropLast)) ∧
      (¬EndsWord left t (file.bytes left length).1 →
        cString path = cString (v ++ wordOf ((t :: (file.bytes left length).1).take left))) := by
  induction left generalizing length t v with
  | zero =>
    refine ⟨v, rfl, fun h => absurd h.1 (Nat.not_lt_zero _), fun _ => ?_⟩
    rw [List.take_zero, wordOf, List.takeWhile_nil, List.append_nil]
  | succ left ih =>
    rw [slurpPath, List.take_succ_cons]
    by_cases hnewline : isNewline t = true
    · have hnot : isText t = false := by simp [isText, hnewline]
      rw [if_pos hnewline]
      refine ⟨v, rfl, fun h => absurd h (not_endsWord (by simp [hnot]) _), fun _ => ?_⟩
      rw [wordOf, List.takeWhile_cons_of_neg (by simp [hnot]), List.append_nil]
    have htmp : isNewline t = false := Bool.not_eq_true _ ▸ hnewline
    have hbegins : ¬(!isBlank t && decide (v.length > 1) && decide (v.getLast? = some 0)) = true := by
      rw [Bool.and_eq_true, decide_eq_true_iff]
      exact fun h => hv (List.mem_of_getLast? h.2)
    rw [if_neg hnewline, if_neg hbegins, readChar]
    rw [lineFailure_cons htmp] at hline
    rw [File.bytes] at hline ⊢
    rcases hread : file.pread length 1 with errno | (_ | ⟨c, rest⟩)
    · rw [hread] at hline
      cases hline
    · refine ⟨v, rfl, fun _ => ?_, fun hends => ?_⟩
      · rw [List.dropLast_singleton, List.append_nil]
      · -- A character that is lost is a blank or a terminator.
        rw [List.take_nil, wordOf]
        by_cases htext : isText t = true
        · have hzero : t = 0 := by
            by_contra hne
            exact hends ⟨Nat.succ_pos _, by simpa using ⟨htext, hne⟩⟩
          rw [List.takeWhile_cons_of_pos htext, hzero]
          exact (cString_append_zero v []).symm
        · rw [List.takeWhile_cons_of_neg htext, List.append_nil]
    · rw [hread] at hline
      by_cases hplain : isText t = true ∧ t ≠ 0
      · have hblank : isBlank t = false := by
          have htext := hplain.1
          rw [isText, htmp] at htext
          simpa using htext
        have hv' : 0 ∉ v ++ [t] := by
          rw [List.mem_append, List.mem_singleton, not_or]
          exact ⟨hv, Ne.symm hplain.2⟩
        obtain ⟨path, hpath, hends, hword⟩ := ih (v := v ++ [t]) hline hv'
        refine ⟨path, ?_, fun h => ?_, fun h => ?_⟩
        · rw [← hpath]
          change slurpPath file left (length + 1) c (v ++ [if isBlank t then 0 else t]) = _
          rw [if_neg (by rw [hblank]; decide)]
        · rw [hends ((endsWord_cons hplain _ _).mp h), List.append_assoc]
          rfl
        · rw [hword (mt (endsWord_cons hplain _ _).mpr h), List.append_assoc, wordOf, wordOf,
            List.takeWhile_cons_of_pos hplain.1]
          rfl
      · have hstored : (if isBlank t then 0 else t) = 0 := by
          split
          · rfl
          · rename_i hblank
            by_contra hne
            exact hplain ⟨by simp [isText, htmp, hblank], hne⟩
        have hzero : 0 ∈ v ++ [if isBlank t then 0 else t] := by
          rw [hstored]
          exact List.mem_append_right _ (List.mem_singleton_self 0)
        obtain ⟨path, hpath, hsame⟩ := slurpPath_terminated hline hzero
        refine ⟨path, hpath, fun h => absurd h (not_endsWord (by simpa using hplain) _),
          fun _ => ?_⟩
        rw [hsame, hstored, cString_append_zero, wordOf]
        by_cases htext : isText t = true
        · rw [List.takeWhile_cons_of_pos htext, show t = 0 by simpa [htext] using hplain]
          exact (cString_append_zero v _).symm
        · rw [List.takeWhile_cons_of_neg htext, List.append_nil]

/-- The leading blanks are skipped, unless the file ends with them or cannot be read. -/
theorem skipBlanks_line (file : File) (left length : ℕ) :
    ((file.bytes (left + 1) length).1.all isBlank = true ∧
        (file.bytes (left + 1) length).1.length < left + 1 ∧
      skipBlanks file left length =
        match (file.bytes (left + 1) length).2 with
        | some errno => status (-errno)
        | none => status (-enoexec)) ∨
    ∃ t length' blanks, skipBlanks file left length = .ok (t, length') ∧
      length' = length + blanks.length + 1 ∧ blanks.length ≤ left ∧
      (∀ c ∈ blanks, isBlank c = true) ∧
      (file.bytes (left + 1) length).1 =
        blanks ++ t :: (file.bytes (left - blanks.length) length').1 ∧
      (file.bytes (left + 1) length).2 = (file.bytes (left - blanks.length) length').2 ∧
      (left - blanks.length = 0 ∨ isBlank t = false) := by
  induction left generalizing length with
  | zero =>
    rw [skipBlanks, readChar, File.bytes]
    rcases file.pread length 1 with errno | (_ | ⟨c, rest⟩)
    · exact .inl ⟨rfl, Nat.succ_pos _, rfl⟩
    · exact .inl ⟨rfl, Nat.succ_pos _, rfl⟩
    · exact .inr ⟨c, length + 1, [], rfl, rfl, le_rfl, List.forall_mem_nil _, rfl, rfl, .inl rfl⟩
  | succ left ih =>
    rw [skipBlanks, readChar, File.bytes]
    rcases file.pread length 1 with errno | (_ | ⟨c, rest⟩)
    · exact .inl ⟨rfl, Nat.succ_pos _, rfl⟩
    · exact .inl ⟨rfl, Nat.succ_pos _, rfl⟩
    · by_cases hblank : isBlank c = true
      · have hskip : (if isBlank c then skipBlanks file left (length + 1)
            else (pure (c, length + 1) : Except Stop (Byte × ℕ))) =
            skipBlanks file left (length + 1) := if_pos hblank
        rcases ih (length + 1) with ⟨hall, hshort, hstop⟩ |
          ⟨t, length', blanks, hfound, hlength, hle, hblanks, hbytes, hfailure, hfirst⟩
        · refine .inl ⟨?_, Nat.succ_lt_succ hshort, hskip.trans hstop⟩
          rw [List.all_cons, hblank, hall, Bool.true_and]
        · refine .inr ⟨t, length', c :: blanks, hskip.trans hfound, ?_, Nat.succ_le_succ hle,
            List.forall_mem_cons.mpr ⟨hblank, hblanks⟩, ?_, ?_, ?_⟩
          · rw [hlength, List.length_cons]
            omega
          · rw [List.length_cons, Nat.succ_sub_succ, List.cons_append, ← hbytes]
          · rw [List.length_cons, Nat.succ_sub_succ, ← hfailure]
          · rwa [List.length_cons, Nat.succ_sub_succ]
      · exact .inr ⟨c, length + 1, [], if_neg hblank, rfl, Nat.zero_le _, List.forall_mem_nil _, rfl,
          rfl, .inr (Bool.not_eq_true _ ▸ hblank)⟩

end Scan

/-! ## What is extracted by the text -/

section Text

variable {h : Host} {hostPath : Path} {file : File} {n left length : ℕ} {t : Byte}
  {blanks rest : List Byte} {failure : Option ℤ}

/-- A blank is not the end of a line. -/
theorem isNewline_of_isBlank {c : Byte} (hblank : isBlank c = true) : isNewline c = false := by
  rcases of_decide_eq_true hblank with rfl | rfl <;> rfl

/-- Blanks do not end a line. -/
theorem lineFailure_blanks (hblanks : ∀ c ∈ blanks, isBlank c = true) :
    lineFailure (blanks ++ rest) failure = lineFailure rest failure := by
  have hno : blanks.any isNewline = false := by
    rw [List.any_eq_false]
    intro c hc
    rw [isNewline_of_isBlank (hblanks c hc)]
    decide
  rw [lineFailure, lineFailure, List.any_append, hno, Bool.false_or]

/-- A file that ends in a path is that of a script with this path. -/
theorem File.EndsInPath.shebang_eq (hends : file.EndsInPath n) :
    file.shebang n = .ok (some (scannedText n (file.firstBytes n).1)) := by
  have hword : cString (wordOf (scannedText n (file.firstBytes n).1)) =
      scannedText n (file.firstBytes n).1 := by
    have htext : wordOf (scannedText n (file.firstBytes n).1) = scannedText n (file.firstBytes n).1 :=
      List.takeWhile_eq_self_iff.mpr fun c hc => (hends.path c hc).1
    rw [htext]
    exact List.takeWhile_eq_self_iff.mpr fun c hc => decide_eq_true (hends.path c hc).2
  have hnot : ¬(((file.firstBytes n).1.drop 2).all isBlank = true ∧
      (file.firstBytes n).1.length < n) := by
    rintro ⟨hall, -⟩
    refine hends.named (List.dropWhile_eq_nil_iff.mpr fun c hc => ?_)
    rw [List.drop_take] at hc
    exact List.all_eq_true.mp hall c (List.mem_of_mem_take hc)
  rw [File.shebang, hends.script]
  dsimp only
  rw [if_neg (not_not_intro rfl), lineFailure, hends.readable, ite_self]
  dsimp only
  rw [if_neg hnot, hword]

/-- The text of a script begins with a character behind some blanks; `length` bytes are read up to it,
and `left` is the number of characters up to the limit, counted from it. -/
structure BeginsAt (file : File) (n left length : ℕ) (t : Byte) (blanks : List Byte) : Prop where
  limit : n = left + blanks.length + 3
  place : length = blanks.length + 3
  blank : ∀ c ∈ blanks, isBlank c = true
  first : left = 0 ∨ isBlank t = false
  text : (file.firstBytes n).1 = [35, 33] ++ (blanks ++ t :: (file.bytes left length).1)
  failure : (file.firstBytes n).2 = (file.bytes left length).2

/-- The text that is looked at begins behind the leading blanks. -/
theorem BeginsAt.scannedText_eq (hbegins : BeginsAt file n left length t blanks) :
    scannedText n (file.firstBytes n).1 = (t :: (file.bytes left length).1).take left := by
  have hlimit : n - 1 = left + blanks.length + 2 := by
    have := hbegins.limit
    omega
  have hdrop : ((file.firstBytes n).1.take (n - 1)).drop 2 =
      blanks ++ (t :: (file.bytes left length).1).take left := by
    rw [hlimit, hbegins.text]
    change (blanks ++ t :: (file.bytes left length).1).take (left + blanks.length) = _
    rw [List.take_append, List.take_of_length_le (Nat.le_add_left _ _), Nat.add_sub_cancel]
  have hskip : blanks.dropWhile isBlank = [] := List.dropWhile_eq_nil_iff.mpr hbegins.blank
  rw [scannedText, hdrop, List.dropWhile_append, hskip, List.isEmpty_nil, if_pos rfl]
  have hfirst := hbegins.first
  cases left with
  | zero => rw [List.take_zero, List.dropWhile_nil]
  | succ left =>
    have hblank : isBlank t = false := hfirst.resolve_left (Nat.succ_ne_zero _)
    rw [List.take_succ_cons, List.dropWhile_cons_of_neg (by rw [hblank]; decide)]

/-- The line can be read from its beginning on exactly if it can be read from this character on. -/
theorem BeginsAt.lineFailure_eq (hbegins : BeginsAt file n left length t blanks) :
    lineFailure (file.firstBytes n).1 (file.firstBytes n).2 =
      lineFailure (t :: (file.bytes left length).1) (file.bytes left length).2 := by
  rw [hbegins.text, hbegins.failure]
  exact lineFailure_blanks hbegins.blank

/-- The number of bytes is that of the two first characters, of the blanks and of the rest. -/
theorem BeginsAt.short_iff (hbegins : BeginsAt file n left length t blanks) :
    (file.firstBytes n).1.length < n ↔ (file.bytes left length).1.length < left := by
  have hlimit := hbegins.limit
  rw [hbegins.text, List.length_append, List.length_append, List.length_cons]
  change 2 + (blanks.length + (_ + 1)) < n ↔ _
  omega

/-- There is an interpreter, or the limit is reached. -/
theorem BeginsAt.not_blanks (hbegins : BeginsAt file n left length t blanks) :
    ¬(((file.firstBytes n).1.drop 2).all isBlank = true ∧ (file.firstBytes n).1.length < n) := by
  rintro ⟨hall, hshort⟩
  rw [hbegins.text] at hall
  have hblank : isBlank t = true := List.all_eq_true.mp hall t (by simp)
  rcases hbegins.first with rfl | hfirst
  · exact Nat.not_lt_zero _ (hbegins.short_iff.mp hshort)
  · rw [hfirst] at hblank
    cases hblank

/-- The file ends with the word that begins here exactly if it ends in the path. -/
theorem BeginsAt.endsWord_iff (hbegins : BeginsAt file n left length t blanks)
    (hscript : file.pread 0 2 = .ok [35, 33])
    (hline : lineFailure (t :: (file.bytes left length).1) (file.bytes left length).2 = none) :
    EndsWord left t (file.bytes left length).1 ↔ file.EndsInPath n := by
  constructor
  · rintro ⟨hshort, htext⟩
    have hno : (t :: (file.bytes left length).1).any isNewline = false := by
      rw [List.any_eq_false]
      intro c hc
      have hchar := (htext c hc).1
      simp only [isText, Bool.and_eq_true, Bool.not_eq_true'] at hchar
      rw [hchar.2]
      decide
    rw [lineFailure, hno, if_neg (by decide)] at hline
    refine ⟨hscript, hbegins.failure.trans hline, hbegins.short_iff.mpr hshort, ?_, ?_⟩
    all_goals
      rw [hbegins.scannedText_eq, List.take_of_length_le (by rw [List.length_cons]; exact hshort)]
    · exact List.cons_ne_nil _ _
    · exact htext
  · intro hends
    have hshort := hbegins.short_iff.mp hends.short
    have hpath := hends.path
    rw [hbegins.scannedText_eq,
      List.take_of_length_le (by rw [List.length_cons]; exact hshort)] at hpath
    exact ⟨hshort, hpath⟩

/-- What is slurped from this character on is what the text names, without its last character if the
file ends with it. -/
theorem BeginsAt.slurpPath_eq (hbegins : BeginsAt file n left length t blanks)
    (hscript : file.pread 0 2 = .ok [35, 33]) :
    (¬file.EndsInPath n → (slurpPath file left length t []).bind
        (fun path => .ok (some (cString path))) = file.shebang n) ∧
      (file.EndsInPath n → (slurpPath file left length t []).bind
        (fun path => .ok (some (cString path))) =
          .ok (some (scannedText n (file.firstBytes n).1).dropLast)) := by
  rw [File.shebang, hscript]
  dsimp only
  rw [if_neg (not_not_intro rfl), hbegins.lineFailure_eq, if_neg hbegins.not_blanks,
    hbegins.scannedText_eq]
  cases hline : lineFailure (t :: (file.bytes left length).1) (file.bytes left length).2 with
  | some errno =>
    refine ⟨fun _ => ?_, fun hends => ?_⟩
    · rw [slurpPath_failure hline]
      rfl
    · rw [lineFailure, ← hbegins.failure, hends.readable, ite_self] at hline
      cases hline
  | none =>
    obtain ⟨path, hpath, hcut, hfull⟩ := slurpPath_word (v := []) hline List.not_mem_nil
    rw [hpath]
    change (_ → Except.ok (some (cString path)) = _) ∧ (_ → Except.ok (some (cString path)) = _)
    refine ⟨fun hends => ?_, fun hends => ?_⟩
    · rw [hfull (mt (hbegins.endsWord_iff hscript hline).mp hends), List.nil_append]
    · have hword := (hbegins.endsWord_iff hscript hline).mpr hends
      have hclean : cString (t :: (file.bytes left length).1).dropLast =
          (t :: (file.bytes left length).1).dropLast :=
        List.takeWhile_eq_self_iff.mpr fun c hc =>
          decide_eq_true (hword.2 c (List.mem_of_mem_dropLast hc)).2
      rw [hcut hword, List.nil_append, hclean,
        List.take_of_length_le (by rw [List.length_cons]; exact hword.1)]

/-- Behind the first two characters there are only blanks, with which the file ends or behind which it
cannot be read, or the text begins. -/
theorem skipBlanks_firstBytes (file : File) (hsize : 3 ≤ n) :
    (((file.firstBytes n).1.drop 2).all isBlank = true ∧ (file.firstBytes n).1.length < n ∧
      skipBlanks file (n - 3) 2 =
        match (file.firstBytes n).2 with
        | some errno => status (-errno)
        | none => status (-enoexec)) ∨
    ∃ t length blanks, skipBlanks file (n - 3) 2 = .ok (t, length) ∧
      BeginsAt file n (n - length) length t blanks := by
  have hlimit : n - 3 + 1 = n - 2 := by omega
  have hspec := skipBlanks_line file (n - 3) 2
  rw [hlimit] at hspec
  rcases hspec with ⟨hall, hshort, hstop⟩ |
    ⟨t, length, blanks, hfound, hlength, hle, hblanks, hbytes, hfailure, hfirst⟩
  · refine .inl ⟨hall, ?_, hstop⟩
    change ((file.bytes (n - 2) 2).1.length + 1) + 1 < n
    omega
  · have hleft : n - 3 - blanks.length = n - length := by omega
    rw [hleft] at hbytes hfailure hfirst
    exact .inr ⟨t, length, blanks, hfound, by omega, by omega, hblanks, hfirst,
      congrArg ([35, 33] ++ ·) hbytes, hfailure⟩

/-- What is extracted from a file that can be opened. -/
theorem extractShebang_open (hopen : h.openFile hostPath = .ok file)
    (hbuffers : h.binprmBufSize < pathMax) :
    extractShebang h hostPath =
      match file.pread 0 2 with
      | .error errno => status (-errno)
      | .ok bytes =>
        if bytes.length < 2 then .ok none
        else if bytes ≠ [35, 33] then .ok none
        else (skipBlanks file (h.binprmBufSize - 3) 2).bind fun found =>
          (slurpPath file (h.binprmBufSize - found.2) found.2 found.1 []).bind fun path =>
            .ok (some (cString path)) := by
  rw [extractShebang, if_neg (not_le.mpr hbuffers), hopen]
  rfl

/-- What is extracted from a file is what its text names, without the last character if the file ends
with it. -/
theorem extractShebang_file (hopen : h.openFile hostPath = .ok file) (hsize : 3 ≤ h.binprmBufSize)
    (hbuffers : h.binprmBufSize < pathMax) :
    (¬file.EndsInPath h.binprmBufSize →
      extractShebang h hostPath = file.shebang h.binprmBufSize) ∧
    (file.EndsInPath h.binprmBufSize → extractShebang h hostPath =
      .ok (some (scannedText h.binprmBufSize (file.firstBytes h.binprmBufSize).1).dropLast)) := by
  rw [extractShebang_open hopen hbuffers]
  rcases hread : file.pread 0 2 with errno | bytes
  · refine ⟨fun _ => ?_, fun hends => ?_⟩
    · rw [File.shebang, hread]
    · rw [hends.script] at hread
      cases hread
  dsimp only
  by_cases hscript : bytes = [35, 33]
  · subst hscript
    rw [if_neg (by decide), if_neg (not_not_intro rfl)]
    rcases skipBlanks_firstBytes file hsize with
      ⟨hall, hshort, hstop⟩ | ⟨t, length, blanks, hfound, hbegins⟩
    · have hblanks := List.all_eq_true.mp hall
      have hempty : scannedText h.binprmBufSize (file.firstBytes h.binprmBufSize).1 = [] := by
        rw [scannedText, List.dropWhile_eq_nil_iff, List.drop_take]
        exact fun c hc => hblanks c (List.mem_of_mem_take hc)
      have hstart : lineFailure (file.firstBytes h.binprmBufSize).1 (file.firstBytes h.binprmBufSize).2 =
          (file.firstBytes h.binprmBufSize).2 := by
        have hline : lineFailure (((file.firstBytes h.binprmBufSize).1.drop 2) ++ [])
            (file.firstBytes h.binprmBufSize).2 = lineFailure [] (file.firstBytes h.binprmBufSize).2 :=
          lineFailure_blanks hblanks
        rw [List.append_nil] at hline
        exact hline
      refine ⟨fun _ => ?_, fun hends => absurd hempty hends.named⟩
      rw [hstop, File.shebang, hread]
      dsimp only
      rw [if_neg (not_not_intro rfl), hstart, if_pos ⟨hall, hshort⟩]
      cases (file.firstBytes h.binprmBufSize).2 <;> rfl
    · rw [hfound]
      exact hbegins.slurpPath_eq hread
  · rw [if_pos hscript, ite_self]
    refine ⟨fun _ => ?_, fun hends => ?_⟩
    · rw [File.shebang, hread]
      exact (if_pos hscript).symm
    · rw [hends.script] at hread
      exact absurd (Except.ok.inj hread).symm hscript

/-- What is extracted from the file at a path of the host is what its text names, unless it ends with
the path. -/
theorem extractShebang_text (hsize : 3 ≤ h.binprmBufSize) (hbuffers : h.binprmBufSize < pathMax)
    (hends : ¬h.EndsInPath hostPath) : extractShebang h hostPath = h.shebang hostPath := by
  rw [Host.shebang]
  cases hopen : h.openFile hostPath with
  | error errno =>
    rw [extractShebang, if_neg (not_le.mpr hbuffers), hopen]
  | ok file =>
    exact (extractShebang_file hopen hsize hbuffers).1 fun hfile => hends ⟨file, hopen, hfile⟩

/-- Of a path with which the file ends the last character is lost. -/
theorem extractShebang_endsInPath (hsize : 3 ≤ h.binprmBufSize)
    (hbuffers : h.binprmBufSize < pathMax) (hends : h.EndsInPath hostPath) :
    ∃ interp, interp ≠ [] ∧ h.shebang hostPath = .ok (some interp) ∧
      extractShebang h hostPath = .ok (some interp.dropLast) := by
  obtain ⟨file, hopen, hfile⟩ := hends
  refine ⟨_, hfile.named, ?_, (extractShebang_file hopen hsize hbuffers).2 hfile⟩
  rw [Host.shebang, hopen]
  exact hfile.shebang_eq

/-- The string in the buffer for the path is the interpreter that the text names, too. -/
theorem fillShebang_text {content userPath argument : List Byte}
    (hopen : h.openFile hostPath = .ok file) (hfile : file.Reads content)
    (hsize : 3 ≤ h.binprmBufSize) (hbuffers : h.binprmBufSize < pathMax)
    (huserPath : userPath.length = pathMax) (hargument : argument.length = h.binprmBufSize)
    (hends : ¬h.EndsInPath hostPath) :
    ∃ e, fillShebang h.binprmBufSize (h.openFile hostPath) userPath argument = .ok e ∧
      h.shebang hostPath =
        if e.status < 0 then status e.status
        else if e.status = 0 then .ok none else .ok (some (cString e.userPath)) := by
  obtain ⟨e, hrun, hextract⟩ := extractShebang_eq hopen hfile hsize huserPath hargument hbuffers
  exact ⟨e, hrun, (extractShebang_text hsize hbuffers hends).symm.trans hextract⟩

/-- The text of a file whose content can be read. -/
theorem File.Reads.shebang_eq {content : List Byte} (hfile : file.Reads content) (hsize : 3 ≤ n) :
    (¬IsScript content → file.shebang n = .ok none) ∧
    (IsScript content → NoInterpreter n content → file.shebang n = status (-enoexec)) ∧
    (IsScript content → ¬NoInterpreter n content →
      file.shebang n = .ok (some (cString (wordOf (scannedText n content))))) := by
  have hbytes : ∀ size offset, file.bytes size offset = ((content.drop offset).take size, none) := by
    intro size
    induction size with
    | zero => exact fun _ => rfl
    | succ size ih =>
      intro offset
      rw [File.bytes, hfile]
      cases hrest : content.drop offset with
      | nil => rfl
      | cons c rest =>
        change (c :: (file.bytes size (offset + 1)).1, (file.bytes size (offset + 1)).2) = _
        rw [ih, ← List.drop_drop, hrest]
        rfl
  have hread : file.pread 0 2 = .ok (content.take 2) := hfile 0 2
  rw [File.shebang, hread, File.firstBytes, hbytes]
  dsimp only
  by_cases hscript : IsScript content
  · have htake := isScript_iff.mp hscript
    have hstart : [35, 33] ++ (content.drop 2).take (n - 2) = content.take n := by
      rw [← htake, ← List.take_add, Nat.add_sub_cancel' (by omega)]
    have htext : scannedText n (content.take n) = scannedText n content := by
      rw [scannedText, scannedText, List.take_take, Nat.min_eq_left (Nat.sub_le n 1)]
    have hnone : (((content.take n).drop 2).all isBlank = true ∧ (content.take n).length < n) ↔
        NoInterpreter n content := by
      rcases lt_or_ge content.length n with hshort | hlong
      · rw [List.take_of_length_le hshort.le]
        rfl
      · rw [List.length_take, Nat.min_eq_left hlong]
        exact iff_of_false (fun h => lt_irrefl n h.2) fun h => not_lt_of_ge hlong h.2
    rw [htake, if_neg (not_not_intro rfl), hstart, lineFailure, ite_self]
    dsimp only
    rw [htext]
    exact ⟨absurd hscript, fun _ h => if_pos (hnone.mpr h), fun _ h => if_neg (mt hnone.mp h)⟩
  · rw [if_pos (mt isScript_iff.mpr hscript)]
    exact ⟨fun _ => rfl, fun h => absurd h hscript, fun h => absurd h hscript⟩

end Text

end Abyss.Execve
