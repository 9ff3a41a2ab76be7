import Abyss.Loader.Start

/-!
# The load script

The tracer writes the script below the stack of the new process, and the strings that the script
points to between the two. All statements are written with the words of the tracer. For a process
with half words the script is converted in place: it then takes half of its room, and the strings
stay where they are.
-/

namespace Abyss

/-- The processor that a process is a program for. -/
def Mode.program (m : Mode) : Cpu := if m.is32on64 = true then .armEabi else m.cpu

end Abyss

namespace Abyss.Loader

open Bytes

/-! ## The tracer -/

/-- A string, which ends before its first zero. -/
abbrev Text := { s : List Byte // (0 : Byte) ∉ s }

/-- A string with its terminator. -/
def Text.terminated (s : Text) : List Byte := s.val ++ [0]

/-- What is known of a file that is to be loaded: its path, the array of its mappings, if there is
one, and fields of its header. -/
structure FileInfo (cpu : Cpu) where
  userPath : Text
  mappings : Option (List (Execve.Mapping cpu))
  entry : cpu.Word
  phoff : cpu.Word
  phentsize : cpu.Word
  phnum : cpu.Word
  needsExecutableStack : Bool

/-- `LoadInfo`. There is no raw path if it is the very string of the user path. -/
structure LoadInfo (cpu : Cpu) where
  program : FileInfo cpu
  interp : Option (FileInfo cpu)
  rawPath : Option Text

/-- Why no script is written. -/
inductive TransferError where
  | nullPointer
  | outOfBounds
  | assertion
  | status (result : ℤ)
deriving DecidableEq

/-- What is written to the memory of the process, and where. -/
structure Transfer (cpu : Cpu) where
  address : cpu.Word
  data : List Byte

section Encoder

variable {cpu : Cpu}

/-- `vl_array_length`. -/
def vlArrayLength (mappings : Option (List (Execve.Mapping cpu))) :
    Except TransferError (List (Execve.Mapping cpu)) :=
  match mappings with
  | none => .error .nullPointer
  | some mappings => .ok mappings

/-- A mapping is anonymous. -/
def isAnonymous (mapping : Execve.Mapping cpu) : Bool :=
  mapping.flags &&& BitVec.ofNat _ Execve.mapAnonymous ≠ 0

/-- The statement of a mapping. -/
def mmapStatement (mapping : Execve.Mapping cpu) : List cpu.Word :=
  [if isAnonymous mapping then 3 else 2, mapping.addr, mapping.length, mapping.prot,
    mapping.offset, mapping.clearLength]

/-- `transcript_mappings`. -/
def transcriptMappings (mappings : List (Execve.Mapping cpu)) : List cpu.Word :=
  mappings.flatMap mmapStatement

/-- The statement that starts the program. -/
def startStatement (traced : Bool) (stmt : StartStatement cpu) : List cpu.Word :=
  [if traced then 5 else 6, stmt.stackPointer, stmt.entryPoint, stmt.atPhdr, stmt.atPhent,
    stmt.atPhnum, stmt.atEntry, stmt.atExecfn]

/-- The addresses of the strings, and the padding behind them. -/
structure Strings (cpu : Cpu) where
  string1 : cpu.Word
  string2 : cpu.Word
  string3 : cpu.Word
  padding : ℕ
  size : ℕ

/-- Where the strings are put below the stack. -/
def LoadInfo.strings (info : LoadInfo cpu) (stackPointer : cpu.Word) : Strings cpu :=
  let size1 := info.program.userPath.terminated.length
  let size2 := (info.interp.map fun interp => interp.userPath.terminated.length).getD 0
  let size3 := (info.rawPath.map fun path => path.terminated.length).getD 0
  let word (n : ℕ) := BitVec.ofNat cpu.wordBits n
  let padding := ((stackPointer - word size1 - word size2 - word size3) % 16).toNat
  let size := size1 + size2 + size3 + padding
  let string1 := stackPointer - word size
  { string1
    string2 := stackPointer - word size + word size1
    string3 := if size3 = 0 then string1 else stackPointer - word size + word size1 + word size2
    padding
    size }

/-- The strings, with the padding. -/
def LoadInfo.stringBytes (info : LoadInfo cpu) (stackPointer : cpu.Word) : List Byte :=
  info.program.userPath.terminated ++
    (info.interp.map fun interp => interp.userPath.terminated).getD [] ++
    (info.rawPath.map Text.terminated).getD [] ++
    List.replicate (info.strings stackPointer).padding 0

/-- The stack is executable if the program or the interpreter needs it. -/
def LoadInfo.needsStack (info : LoadInfo cpu) : Bool :=
  info.program.needsExecutableStack ||
    (info.interp.map fun interp => interp.needsExecutableStack).getD false

/-- The fields of the start statement, for the first mapping of the program. -/
def LoadInfo.startFields (info : LoadInfo cpu) (stackPointer : cpu.Word)
    (first : Execve.Mapping cpu) : StartStatement cpu where
  stackPointer
  entryPoint := (info.interp.getD info.program).entry
  atPhdr := info.program.phoff + first.addr
  atPhent := info.program.phentsize
  atPhnum := info.program.phnum
  atEntry := info.program.entry
  atExecfn := (info.strings stackPointer).string3

/-- The script, for the mappings of the program and of the interpreter. -/
def LoadInfo.script (info : LoadInfo cpu) (pageMask : cpu.Word) (traced : Bool)
    (stackPointer : cpu.Word) (mappings : List (Execve.Mapping cpu))
    (interp : Option (List (Execve.Mapping cpu))) (first : Execve.Mapping cpu) : List cpu.Word :=
  let strings := info.strings stackPointer
  [1, strings.string1] ++ transcriptMappings mappings ++
    (interp.map fun mappings => [0, strings.string2] ++ transcriptMappings mappings).getD [] ++
    (if info.needsStack then [4, stackPointer &&& pageMask] else []) ++
    startStatement traced (info.startFields stackPointer first)

/-- The number of words of the script, as it is computed before it is written. -/
def LoadInfo.scriptLength (info : LoadInfo cpu) (mappings : List (Execve.Mapping cpu))
    (interp : Option (List (Execve.Mapping cpu))) : ℕ :=
  2 + 6 * mappings.length + (interp.map fun mappings => 2 + 6 * mappings.length).getD 0 +
    (if info.needsStack then 2 else 0) + 8

/-- The room that the script and the strings take. -/
def LoadInfo.bufferSize (info : LoadInfo cpu) (stackPointer : cpu.Word)
    (mappings : List (Execve.Mapping cpu)) (interp : Option (List (Execve.Mapping cpu))) : ℕ :=
  cpu.wordBytes * info.scriptLength mappings interp + (info.strings stackPointer).size

/-- Convert a number of words to half words, in place. -/
def convertWords : ℕ → ℕ → List Byte → List Byte
  | 0, _, buffer => buffer
  | n + 1, i, buffer =>
    convertWords n (i + 1) (overwrite buffer (4 * i) ((buffer.drop (8 * i)).take 4))

/-- The array of the mappings of the interpreter, if there is one. -/
def LoadInfo.interpMappings (info : LoadInfo cpu) :
    Except TransferError (Option (List (Execve.Mapping cpu))) :=
  match info.interp with
  | none => .ok none
  | some interp => (vlArrayLength interp.mappings).map some

/-- `transfer_load_script`; `alloc` tells whether there is memory for a number of bytes. -/
def transferLoadScript (m : Mode) (alloc : ℕ → Bool) (sysconf : m.cpu.Word)
    (info : LoadInfo m.cpu) (traced : Bool) (stackPointer : m.cpu.Word) :
    Except TransferError (Transfer m.cpu) := do
  let pageMask := Pages.mask (Execve.pageSizeOf sysconf)
  let mappings ← vlArrayLength info.program.mappings
  let interp ← info.interpMappings
  let scriptSize := m.cpu.wordBytes * info.scriptLength mappings interp
  let bufferSize := scriptSize + (info.strings stackPointer).size
  if alloc bufferSize = false then .error (.status (-enomem))
  else do
    let first ← mappings.head?.elim (.error .outOfBounds) .ok
    let script := info.script pageMask traced stackPointer mappings interp first
    let buffer := script.flatMap fun word => bytesOf word m.cpu.wordBytes
    if buffer.length ≠ scriptSize then .error .assertion
    else
      let buffer := if m.is32on64 = true then convertWords (scriptSize / 8) 0 buffer else buffer
      let data := buffer ++ info.stringBytes stackPointer
      if data.length ≠ bufferSize then .error .assertion
      else .ok ⟨stackPointer - BitVec.ofNat _ bufferSize, data⟩

end Encoder

/-! ## Sizes -/

section Sizes

variable {cpu : Cpu}

/-- The statement of each mapping has six words. -/
theorem transcriptMappings_length (mappings : List (Execve.Mapping cpu)) :
    (transcriptMappings mappings).length = 6 * mappings.length := by
  induction mappings with
  | nil => rfl
  | cons mapping rest ih =>
    rw [transcriptMappings, List.flatMap_cons, List.length_append]
    change 6 + (transcriptMappings rest).length = _
    rw [ih, List.length_cons]
    omega

/-- The script has the size that was computed for it. -/
theorem LoadInfo.script_length (info : LoadInfo cpu) (pageMask : cpu.Word) (traced : Bool)
    (stackPointer : cpu.Word) (mappings : List (Execve.Mapping cpu))
    (interp : Option (List (Execve.Mapping cpu))) (first : Execve.Mapping cpu) :
    (info.script pageMask traced stackPointer mappings interp first).length =
      info.scriptLength mappings interp := by
  unfold LoadInfo.script LoadInfo.scriptLength
  have hstack : (if info.needsStack then [4, stackPointer &&& pageMask] else []).length =
      if info.needsStack then 2 else 0 := by
    split <;> rfl
  have hinterp : ((interp.map fun mappings => [0, (info.strings stackPointer).string2] ++
      transcriptMappings mappings).getD []).length =
        (interp.map fun mappings => 2 + 6 * mappings.length).getD 0 := by
    cases interp with
    | none => rfl
    | some mappings =>
      change (_ ++ transcriptMappings mappings).length = 2 + 6 * mappings.length
      rw [List.length_append, transcriptMappings_length]
      rfl
  simp only [List.length_append, hstack, hinterp, transcriptMappings_length]
  rfl

/-- The strings have the size that was computed for them. -/
theorem LoadInfo.stringBytes_length (info : LoadInfo cpu) (stackPointer : cpu.Word) :
    (info.stringBytes stackPointer).length = (info.strings stackPointer).size := by
  obtain ⟨program, interp, rawPath⟩ := info
  unfold LoadInfo.stringBytes
  simp only [List.length_append, List.length_replicate]
  cases interp <;> cases rawPath <;> rfl

/-- The bytes of words. -/
theorem flatMap_bytesOf_length {w : ℕ} (words : List (BitVec w)) (n : ℕ) :
    (words.flatMap fun word => bytesOf word n).length = n * words.length := by
  induction words with
  | nil => rfl
  | cons word rest ih =>
    rw [List.flatMap_cons, List.length_append, ih, bytesOf_length, List.length_cons, Nat.mul_succ,
      Nat.add_comm]

/-- A byte of one of the words. -/
theorem flatMap_bytesOf_getElem? {w : ℕ} (words : List (BitVec w)) {n i j : ℕ}
    (hi : i < words.length) (hj : j < n) :
    (words.flatMap fun word => bytesOf word n)[n * i + j]? = some (byteOf words[i] j) := by
  induction words generalizing i with
  | nil => exact absurd hi (Nat.not_lt_zero i)
  | cons word rest ih =>
    rw [List.flatMap_cons]
    cases i with
    | zero =>
      have hlt : n * 0 + j < (bytesOf word n).length := by simpa using hj
      rw [List.getElem?_append_left hlt, List.getElem?_eq_getElem hlt, bytesOf_getElem]
      simp
    | succ i =>
      have hle : (bytesOf word n).length ≤ n * (i + 1) + j := by
        rw [bytesOf_length, Nat.mul_succ]
        omega
      have hsub : n * (i + 1) + j - (bytesOf word n).length = n * i + j := by
        rw [bytesOf_length, Nat.mul_succ]
        omega
      rw [List.getElem?_append_right hle, hsub, ih (Nat.lt_of_succ_lt_succ hi)]
      rfl

/-- The half words are what the words in front of them were before the conversion, which reads a
word before it writes over it. -/
theorem convertWords_getElem? {n i : ℕ} {buffer : List Byte} (hn : 8 * (i + n) ≤ buffer.length) :
    (convertWords n i buffer).length = buffer.length ∧
      (∀ p, p < 4 * i → (convertWords n i buffer)[p]? = buffer[p]?) ∧
      ∀ k < n, ∀ j < 4, (convertWords n i buffer)[4 * (i + k) + j]? = buffer[8 * (i + k) + j]? := by
  induction n generalizing i buffer with
  | zero =>
    exact ⟨rfl, fun _ _ => rfl, fun k hk => absurd hk (Nat.not_lt_zero k)⟩
  | succ n ih =>
    have hword : ((buffer.drop (8 * i)).take 4).length = 4 := by
      rw [List.length_take, List.length_drop]
      omega
    have hfit : 4 * i + ((buffer.drop (8 * i)).take 4).length ≤ buffer.length := by omega
    have hlength := overwrite_length hfit
    have hrest : 8 * (i + 1 + n) ≤
        (overwrite buffer (4 * i) ((buffer.drop (8 * i)).take 4)).length := by omega
    obtain ⟨hlen, hbefore, hafter⟩ := ih hrest
    refine ⟨hlen.trans hlength, fun p hp => ?_, fun k hk j hj => ?_⟩
    · exact (hbefore p (by omega)).trans (overwrite_of_lt hfit hp)
    · cases k with
      | zero =>
        refine (hbefore (4 * i + j) (by omega)).trans ?_
        rw [overwrite_of_mem hfit (by omega), List.getElem?_take_of_lt hj, List.getElem?_drop]
        rfl
      | succ k =>
        have hkeep := hafter k (by omega) j hj
        rw [show i + (k + 1) = i + 1 + k by omega]
        exact hkeep.trans (overwrite_of_le hfit (by omega))

/-! ## The script in the memory of the process -/

/-- A word of the tracer as one of the process. -/
def narrow (m : Mode) (v : m.cpu.Word) : m.program.Word := v.setWidth _

/-- A word of the program has the size that its mode tells. -/
theorem program_wordBytes (m : Mode) : m.program.wordBytes = m.sizeofWord := by
  obtain ⟨cpu, isAarch32⟩ := m
  cases cpu <;> cases isAarch32 <;> rfl

/-- The lower bytes of a word are those of the narrower word. -/
theorem byteOf_setWidth {v w j : ℕ} (x : BitVec v) (hj : 8 * (j + 1) ≤ w) :
    byteOf (x.setWidth w) j = byteOf x j := by
  refine BitVec.eq_of_getLsbD_eq fun i hi => ?_
  rw [byteOf, byteOf, BitVec.getLsbD_extractLsb', BitVec.getLsbD_extractLsb',
    BitVec.getLsbD_setWidth]
  have hlt : 8 * j + i < w := by omega
  simp [hlt]

/-- The bytes of a script that are written. -/
def scriptBytes (m : Mode) (script : List m.cpu.Word) : List Byte :=
  let buffer := script.flatMap fun word => bytesOf word m.cpu.wordBytes
  if m.is32on64 = true then convertWords script.length 0 buffer else buffer

/-- A script has as many bytes as its words. -/
theorem scriptBytes_length (m : Mode) (script : List m.cpu.Word) :
    (scriptBytes m script).length = m.cpu.wordBytes * script.length := by
  have hlen := flatMap_bytesOf_length script m.cpu.wordBytes
  unfold scriptBytes
  dsimp only
  split
  · rename_i hmode
    have hbytes : m.cpu.wordBytes = 8 := by
      obtain ⟨cpu, isAarch32⟩ := m
      cases cpu with
      | armEabi => cases hmode
      | arm64 => rfl
    rw [(convertWords_getElem? (by rw [hlen, hbytes, Nat.zero_add])).1, hlen]
  · exact hlen

/-- The bytes of the words of the process are the lower bytes of those of the tracer. -/
theorem scriptBytes_getElem? (m : Mode) (script : List m.cpu.Word) {i j : ℕ}
    (hi : i < script.length) (hj : j < m.program.wordBytes) :
    (scriptBytes m script)[m.program.wordBytes * i + j]? = some (byteOf script[i] j) := by
  have hlen := flatMap_bytesOf_length script m.cpu.wordBytes
  have hbyte := flatMap_bytesOf_getElem? script (n := m.cpu.wordBytes) hi
    (Nat.lt_of_lt_of_le hj (program_wordBytes m ▸ sizeofWord_le m))
  unfold scriptBytes
  dsimp only
  by_cases hmode : m.is32on64 = true
  · have hbytes : m.cpu.wordBytes = 8 ∧ m.program.wordBytes = 4 := by
      obtain ⟨cpu, isAarch32⟩ := m
      cases cpu with
      | armEabi => cases hmode
      | arm64 => exact ⟨rfl, by simp only [Mode.program, if_pos hmode]; rfl⟩
    rw [hbytes.1] at hlen hbyte
    rw [hbytes.2] at hj
    rw [if_pos hmode, hbytes.1, hbytes.2]
    have hconvert := (convertWords_getElem? (n := script.length) (i := 0)
      (by rw [hlen, Nat.zero_add])).2.2 i hi j hj
    rw [Nat.zero_add] at hconvert
    exact hconvert.trans hbyte
  · have hsame : m.program.wordBytes = m.cpu.wordBytes := by
      rw [Mode.program, if_neg hmode]
    rw [if_neg hmode, hsame]
    exact hbyte

/-- Bytes are in memory from an address on. -/
def BytesAt (mem : ℕ → Byte) : ℕ → List Byte → Prop
  | _, [] => True
  | a, c :: data => mem a = c ∧ BytesAt mem (a + 1) data

/-- A byte of the data is the one at its address. -/
theorem BytesAt.getElem? {mem : ℕ → Byte} {a : ℕ} {data : List Byte} (h : BytesAt mem a data)
    {p : ℕ} (hp : p < data.length) : data[p]? = some (mem (a + p)) := by
  induction data generalizing a p with
  | nil => exact absurd hp (Nat.not_lt_zero p)
  | cons c data ih =>
    cases p with
    | zero => exact congrArg some h.1.symm
    | succ p =>
      have hrest := ih h.2 (Nat.lt_of_succ_lt_succ hp)
      rwa [Nat.add_right_comm] at hrest

/-- Two pieces of data are in memory one after the other. -/
theorem bytesAt_append {mem : ℕ → Byte} {a : ℕ} {data rest : List Byte} :
    BytesAt mem a (data ++ rest) ↔ BytesAt mem a data ∧ BytesAt mem (a + data.length) rest := by
  induction data generalizing a with
  | nil => exact ⟨fun h => ⟨trivial, h⟩, And.right⟩
  | cons c data ih =>
    have hend : a + (c :: data).length = a + 1 + data.length := by
      rw [List.length_cons]
      omega
    rw [List.cons_append, hend, BytesAt, BytesAt, ih, and_assoc]

/-- Bytes depend on the memory where they are only. -/
theorem BytesAt.congr {mem mem' : ℕ → Byte} {a : ℕ} {data : List Byte} (h : BytesAt mem a data)
    (hmem : ∀ b, a ≤ b → b < a + data.length → mem' b = mem b) : BytesAt mem' a data := by
  induction data generalizing a with
  | nil => trivial
  | cons c data ih =>
    rw [List.length_cons] at hmem
    exact ⟨(hmem a (Nat.le_refl a) (by omega)).trans h.1,
      ih h.2 fun b hb hlt => hmem b (by omega) (by omega)⟩

/-- Words are in memory from an address on. -/
def WordsAt (cpu : Cpu) (mem : ℕ → Byte) (a : ℕ) (words : List cpu.Word) : Prop :=
  ∀ i (hi : i < words.length), wordAt cpu mem a i = words[i]

/-- The process finds the script in its words where it was written. -/
theorem wordsAt_scriptBytes (m : Mode) (script : List m.cpu.Word) {mem : ℕ → Byte} {a : ℕ}
    (h : BytesAt mem a (scriptBytes m script)) :
    WordsAt m.program mem a (script.map (narrow m)) := by
  intro i hi
  rw [List.length_map] at hi
  rw [List.getElem_map]
  refine eq_of_byteOf (n := m.program.wordBytes) (Nat.le_of_eq m.program.wordBits_eq)
    fun j hj => ?_
  have hbits := m.program.wordBits_eq
  rw [wordAt, byteOf_wordOf hj (by omega), narrow, byteOf_setWidth _ (by omega)]
  have hbyte := scriptBytes_getElem? m script hi hj
  have hlt := (List.getElem?_eq_some_iff.mp hbyte).1
  rw [h.getElem? hlt] at hbyte
  rw [Nat.add_assoc]
  exact Option.some.inj hbyte

/-- A script is written if the program and the interpreter have arrays of mappings, that of the
program is not empty, and there is memory. -/
theorem transferLoadScript_ok {m : Mode} {alloc : ℕ → Bool} {info : LoadInfo m.cpu}
    {first : Execve.Mapping m.cpu} {rest : List (Execve.Mapping m.cpu)}
    {interp : Option (List (Execve.Mapping m.cpu))} (sysconf : m.cpu.Word) (traced : Bool)
    (stackPointer : m.cpu.Word) (hmappings : info.program.mappings = some (first :: rest))
    (hinterp : info.interp.map FileInfo.mappings = interp.map some)
    (halloc : alloc (info.bufferSize stackPointer (first :: rest) interp) = true) :
    let script := info.script (Pages.mask (Execve.pageSizeOf sysconf)) traced stackPointer
      (first :: rest) interp first
    let data := scriptBytes m script ++ info.stringBytes stackPointer
    transferLoadScript m alloc sysconf info traced stackPointer =
      .ok ⟨stackPointer - BitVec.ofNat _ data.length, data⟩ ∧
        data.length = info.bufferSize stackPointer (first :: rest) interp := by
  intro script data
  have hscript : script.length = info.scriptLength (first :: rest) interp :=
    info.script_length ..
  have hbuffer := flatMap_bytesOf_length script m.cpu.wordBytes
  have hdata : data.length = info.bufferSize stackPointer (first :: rest) interp := by
    rw [List.length_append, scriptBytes_length, hscript, info.stringBytes_length]
    rfl
  have hdecoded : info.interpMappings = .ok interp := by
    unfold LoadInfo.interpMappings
    cases h : info.interp with
    | none =>
      rw [h] at hinterp
      cases interp with
      | none => rfl
      | some ms => cases hinterp
    | some file =>
      rw [h] at hinterp
      cases interp with
      | none => cases hinterp
      | some ms =>
        have hms : file.mappings = some ms := Option.some.inj hinterp
        simp only [hms, vlArrayLength]
        rfl
  have hcount : m.is32on64 = true →
      m.cpu.wordBytes * info.scriptLength (first :: rest) interp / 8 = script.length := by
    intro hmode
    obtain ⟨cpu, isAarch32⟩ := m
    cases cpu with
    | armEabi => cases hmode
    | arm64 =>
      rw [hscript]
      exact Nat.mul_div_cancel_left (n := 8) _ (Nat.succ_pos 7)
  have hbytes : (if m.is32on64 = true then
      convertWords (m.cpu.wordBytes * info.scriptLength (first :: rest) interp / 8) 0
        (script.flatMap fun word => bytesOf word m.cpu.wordBytes)
      else script.flatMap fun word => bytesOf word m.cpu.wordBytes) = scriptBytes m script := by
    unfold scriptBytes
    dsimp only
    split
    · rename_i hmode
      rw [hcount hmode]
    · rfl
  refine ⟨?_, hdata⟩
  unfold LoadInfo.bufferSize at halloc hdata
  unfold transferLoadScript
  rw [hmappings, hdecoded]
  simp only [vlArrayLength, halloc, bind, Except.bind, List.head?_cons, Option.elim]
  have hsize : (script.flatMap fun word => bytesOf word m.cpu.wordBytes).length =
      m.cpu.wordBytes * info.scriptLength (first :: rest) interp := by rw [hbuffer, hscript]
  rw [if_neg (by simp), if_neg (not_not.mpr hsize), hbytes, if_neg (not_not.mpr hdata), hdata]

end Sizes

end Abyss.Loader
