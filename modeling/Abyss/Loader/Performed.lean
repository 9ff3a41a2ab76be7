import Abyss.Loader.RoundTrip

/-!
# The load script is performed

The tracer puts the script and its strings right below the stack of the new process. The loader
finds them there: each address of the script is that of the string that is meant, and the loader
does what the load information says.
-/

namespace Abyss.Loader

open Machine Bytes

/-! ## The strings -/

section Strings

variable {m : Mode} {info : LoadInfo m.cpu} {stackPointer : m.cpu.Word} {mem : ℕ → Byte}

/-- A word that fits is not changed. -/
theorem narrow_toNat {v : m.cpu.Word} (h : v.toNat < 2 ^ m.program.wordBits) :
    (narrow m v).toNat = v.toNat := by
  rw [narrow, BitVec.toNat_setWidth, Nat.mod_eq_of_lt h]

/-- A place below an address. -/
theorem toNat_sub_ofNat {w n : ℕ} {v : BitVec w} (h : n ≤ v.toNat) :
    (v - BitVec.ofNat w n).toNat = v.toNat - n := by
  have hmod := Nat.mod_eq_of_lt (Nat.lt_of_le_of_lt h v.isLt)
  rw [BitVec.toNat_sub_of_le, BitVec.toNat_ofNat, hmod]
  rwa [BitVec.le_def, BitVec.toNat_ofNat, hmod]

/-- The strings are where the script says. -/
structure LoadInfo.StringsAt (info : LoadInfo m.cpu) (strings : Strings m.cpu)
    (mem : ℕ → Byte) : Prop where
  program : TextAt mem (narrow m strings.string1).toNat info.program.userPath
  interp : ∀ interp, info.interp = some interp →
    TextAt mem (narrow m strings.string2).toNat interp.userPath
  name : TextAt mem (narrow m strings.string3).toNat info.name

/-- The room of the path of the interpreter. -/
def LoadInfo.interpSize (info : LoadInfo m.cpu) : ℕ :=
  (info.interp.map fun interp => interp.userPath.terminated.length).getD 0

/-- The room of the raw path. -/
def LoadInfo.rawSize (info : LoadInfo m.cpu) : ℕ :=
  (info.rawPath.map fun path => path.terminated.length).getD 0

/-- The strings fill the room below the stack. -/
theorem LoadInfo.strings_size (info : LoadInfo m.cpu) (stackPointer : m.cpu.Word) :
    (info.strings stackPointer).size =
      info.program.userPath.terminated.length + info.interpSize + info.rawSize +
        (info.strings stackPointer).padding :=
  rfl

/-- The addresses of the strings. -/
theorem LoadInfo.strings_toNat (hsize : (info.strings stackPointer).size ≤ stackPointer.toNat) :
    let start := stackPointer.toNat - (info.strings stackPointer).size
    let size1 := info.program.userPath.terminated.length
    (info.strings stackPointer).string1.toNat = start ∧
      (info.strings stackPointer).string2.toNat = start + size1 ∧
      (info.strings stackPointer).string3.toNat =
        if info.rawSize = 0 then start else start + size1 + info.interpSize := by
  intro start size1
  have hlt := stackPointer.isLt
  have hsum := info.strings_size stackPointer
  have hstart : (info.strings stackPointer).string1.toNat = start := toNat_sub_ofNat hsize
  have hnext : ∀ (v : m.cpu.Word) (n : ℕ), v.toNat + n < 2 ^ m.cpu.wordBits →
      (v + BitVec.ofNat _ n).toNat = v.toNat + n := by
    intro v n hfit
    rw [BitVec.toNat_add, BitVec.toNat_ofNat, Nat.add_mod_mod, Nat.mod_eq_of_lt hfit]
  have hsecond : (info.strings stackPointer).string2.toNat = start + size1 := by
    refine (hnext (info.strings stackPointer).string1 size1 ?_).trans
      (congrArg (· + size1) hstart)
    rw [hstart]
    omega
  refine ⟨hstart, hsecond, ?_⟩
  change BitVec.toNat (if info.rawSize = 0 then _ else
    (info.strings stackPointer).string2 + BitVec.ofNat _ info.interpSize) = _
  split
  · exact hstart
  · refine (hnext _ info.interpSize ?_).trans (congrArg (· + info.interpSize) hsecond)
    rw [hsecond]
    omega

/-- The process finds the strings, which end below the stack. -/
theorem LoadInfo.stringsAt (hfit : stackPointer.toNat < 2 ^ m.program.wordBits)
    (hsize : (info.strings stackPointer).size ≤ stackPointer.toNat)
    (h : BytesAt mem (stackPointer.toNat - (info.strings stackPointer).size)
      (info.stringBytes stackPointer)) :
    info.StringsAt (info.strings stackPointer) mem ∧
      (narrow m (info.strings stackPointer).string3).toNat + info.name.terminated.length ≤
        stackPointer.toNat := by
  obtain ⟨h1, h2, h3⟩ := LoadInfo.strings_toNat hsize
  have hsum := info.strings_size stackPointer
  have hthird : (info.strings stackPointer).string3.toNat ≤ stackPointer.toNat := by
    rw [h3]
    split <;> omega
  have hn1 : (narrow m (info.strings stackPointer).string1).toNat = _ :=
    (narrow_toNat (by omega)).trans h1
  have hn2 : (narrow m (info.strings stackPointer).string2).toNat = _ :=
    (narrow_toNat (by omega)).trans h2
  have hn3 : (narrow m (info.strings stackPointer).string3).toNat = _ :=
    (narrow_toNat (by omega)).trans h3
  obtain ⟨hstrings, -⟩ := bytesAt_append.mp h
  obtain ⟨hpaths, hraw⟩ := bytesAt_append.mp hstrings
  obtain ⟨hprogram, hinterp⟩ := bytesAt_append.mp hpaths
  have hinterpLength : ((info.interp.map fun interp => interp.userPath.terminated).getD []).length =
      info.interpSize := by
    unfold LoadInfo.interpSize
    cases info.interp <;> rfl
  rw [List.length_append, hinterpLength, ← Nat.add_assoc] at hraw
  refine ⟨⟨?_, fun interp hsome => ?_, ?_⟩, ?_⟩
  · rw [hn1]
    exact hprogram
  · rw [hn2]
    rw [hsome] at hinterp
    exact hinterp
  · rw [hn3]
    unfold LoadInfo.rawSize LoadInfo.name
    cases hcases : info.rawPath with
    | none => exact hprogram
    | some path =>
      rw [hcases] at hraw
      rw [if_neg (by simp [Text.terminated_length])]
      exact hraw
  · rw [hn3]
    unfold LoadInfo.rawSize LoadInfo.name at *
    cases hcases : info.rawPath with
    | none =>
      rw [Option.getD_none]
      change _ - _ + _ ≤ _
      omega
    | some path =>
      rw [hcases] at hsum
      rw [Option.getD_some, if_neg (by simp [Text.terminated_length])]
      change _ = _ + _ + path.terminated.length + _ at hsum
      omega

end Strings

/-! ## The script and its strings -/

/-- The script that the tracer writes is right below the stack. There the loader finds the strings,
and it does what the load information says, whatever the kernel answers. -/
theorem transferLoadScript_performed {m : Mode} (alloc : ℕ → Bool) (sysconf : m.cpu.Word)
    (info : LoadInfo m.cpu) (traced : Bool) (stackPointer : m.cpu.Word)
    {first : Execve.Mapping m.cpu} {rest : List (Execve.Mapping m.cpu)}
    {interp : Option (List (Execve.Mapping m.cpu))}
    (hmappings : info.program.mappings = some (first :: rest))
    (hinterp : info.interp.map FileInfo.mappings = interp.map some)
    (halloc : alloc (info.bufferSize stackPointer (first :: rest) interp) = true)
    (hfit : stackPointer.toNat < 2 ^ m.program.wordBits)
    (hroom : info.bufferSize stackPointer (first :: rest) interp ≤ stackPointer.toNat) :
    ∃ t, transferLoadScript m alloc sysconf info traced stackPointer = .ok t ∧
      t.address.toNat + t.data.length = stackPointer.toNat ∧
      ∀ mem, BytesAt mem t.address.toNat t.data →
        info.StringsAt (info.strings stackPointer) mem ∧
        ∀ (stack : ProgramStack m.program), stack.LiesAt mem stackPointer.toNat →
          ∀ (sys : System m.program) (actions : List (Action m.program)) (fuel : ℕ),
            info.statements (first :: rest) interp +
              (stack.envp.length + stack.auxv.length + info.name.val.length) < fuel →
            loaderStart sys fuel t.address.toNat ⟨mem, actions⟩ =
              perform sys info (Pages.mask (Execve.pageSizeOf sysconf)) traced stackPointer
                (first :: rest) interp first stack ⟨mem, actions⟩ := by
  obtain ⟨ht, hlength⟩ :=
    transferLoadScript_ok sysconf traced stackPointer hmappings hinterp halloc
  refine ⟨_, ht, ?_⟩
  dsimp only
  rw [hlength, toNat_sub_ofNat hroom]
  refine ⟨Nat.sub_add_cancel hroom, fun mem hmem => ?_⟩
  obtain ⟨hscript, hbytes⟩ := bytesAt_append.mp hmem
  have hstrings : stackPointer.toNat - info.bufferSize stackPointer (first :: rest) interp +
      m.cpu.wordBytes * info.scriptLength (first :: rest) interp =
        stackPointer.toNat - (info.strings stackPointer).size := by
    unfold LoadInfo.bufferSize at hroom ⊢
    omega
  rw [scriptBytes_length, info.script_length, hstrings] at hbytes
  have hsize : (info.strings stackPointer).size ≤ stackPointer.toNat :=
    Nat.le_trans (Nat.le_add_left _ _) hroom
  obtain ⟨hat, hbelow⟩ := LoadInfo.stringsAt hfit hsize hbytes
  refine ⟨hat, fun stack hstack sys actions fuel hfuel => ?_⟩
  rw [← narrow_toNat hfit] at hstack hbelow
  exact loaderStart_perform (wordsAt_scriptBytes m _ hscript) hstack hat.name hbelow hfuel

/-! ## A small program -/

/-- A system on which all syscalls succeed. -/
def grantingSystem (cpu : Cpu) : System cpu := fun actions =>
  match actions.getLast? with
  | some (.syscall number (addr :: _)) => if number = (syscallNumbers cpu).mmap then addr else 3
  | _ => 3

/-- The mapping of a small program. -/
def smallMapping (cpu : Cpu) : Execve.Mapping cpu where
  addr := 0x10000
  length := 0x1000
  clearLength := 0
  prot := 5
  flags := 2
  fd := 3
  offset := 0

/-- A program that has one mapping, and no interpreter. -/
def smallInfo (cpu : Cpu) : LoadInfo cpu where
  program :=
    { userPath := ⟨[47, 97], by decide⟩
      mappings := some [smallMapping cpu]
      entry := 0x10040
      phoff := 52
      phentsize := 32
      phnum := 1
      needsExecutableStack := false }
  interp := none
  rawPath := none

/-- One argument, no environment, and the name of the executable. -/
def smallStack (cpu : Cpu) : ProgramStack cpu where
  argv := [0x2000]
  envp := []
  auxv := [(31, 0x3000)]
  envp_ne := by simp
  auxv_types vector h := by
    rw [List.mem_singleton.mp h]
    cases cpu with
    | armEabi => exact show (31 : BitVec 32) ≠ 0 by decide
    | arm64 => exact show (31 : BitVec 64) ≠ 0 by decide
  auxv_ne := by simp

/-- The mode of a small program, which has half words. -/
def smallMode : Mode := ⟨.arm64, true⟩

/-- The script of a small program, and its strings. -/
def smallData : List Byte :=
  scriptBytes smallMode ((smallInfo .arm64).script (Pages.mask (Execve.pageSizeOf 0x1000)) false
      0x1000 [smallMapping .arm64] none (smallMapping .arm64)) ++
    (smallInfo .arm64).stringBytes 0x1000

/-- The memory of a small program. -/
def smallMemory (a : ℕ) : Byte :=
  (smallData ++ (smallStack .armEabi).words.flatMap fun word => bytesOf word 4).getD (a - 3952) 0

/-- Bytes in memory can be looked for. -/
instance decidableBytesAt (mem : ℕ → Byte) : (a : ℕ) → (data : List Byte) →
    Decidable (BytesAt mem a data)
  | _, [] => isTrue trivial
  | a, c :: data =>
    have := decidableBytesAt mem (a + 1) data
    inferInstanceAs (Decidable (mem a = c ∧ BytesAt mem (a + 1) data))

/-- Words in memory can be looked for. -/
instance decidableWordsAt (cpu : Cpu) (mem : ℕ → Byte) (a : ℕ) (words : List cpu.Word) :
    Decidable (WordsAt cpu mem a words) :=
  inferInstanceAs (Decidable (∀ i (hi : i < words.length), wordAt cpu mem a i = words[i]))

/-- The script is in the memory. -/
theorem smallMemory_bytesAt : BytesAt smallMemory 3952 smallData := by decide +kernel

/-- The arguments are on the stack. -/
theorem smallStack_liesAt : (smallStack .armEabi).LiesAt smallMemory 0x1000 :=
  ⟨by decide +kernel, by decide +kernel⟩

set_option maxRecDepth 100000 in
/-- The script of a small program is performed. -/
theorem smallScript_performed :
    ∃ t, transferLoadScript smallMode (fun _ => true) 0x1000 (smallInfo .arm64) false 0x1000 =
        .ok t ∧
      BytesAt smallMemory t.address.toNat t.data ∧
      loaderStart (grantingSystem .armEabi) 30 t.address.toNat ⟨smallMemory, []⟩ =
        perform (m := smallMode) (grantingSystem .armEabi) (smallInfo .arm64)
          (Pages.mask (Execve.pageSizeOf 0x1000)) false 0x1000 [smallMapping .arm64] none
          (smallMapping .arm64) (smallStack .armEabi) ⟨smallMemory, []⟩ := by
  have hinterp : (smallInfo .arm64).interp.map FileInfo.mappings =
      (none : Option (List (Execve.Mapping .arm64))).map some := rfl
  obtain ⟨t, ht, -, hperformed⟩ := transferLoadScript_performed (m := smallMode) (fun _ => true)
    0x1000 (smallInfo .arm64) false 0x1000 rfl hinterp rfl (by decide) (by decide)
  obtain rfl : t = ⟨3952, smallData⟩ := Except.ok.inj (ht.symm.trans rfl)
  exact ⟨_, ht, smallMemory_bytesAt, (hperformed _ smallMemory_bytesAt).2 _ smallStack_liesAt
    (grantingSystem .armEabi) [] 30 (by decide)⟩

set_option maxRecDepth 100000 in
/-- The program does not find the recorded name of the executable among its vectors. -/
theorem smallScript_execfn :
    let stmt := (smallInfo .arm64).startFields 0x1000 (smallMapping .arm64)
    let (result, s) := loaderStart (grantingSystem .armEabi) 30 3952 ⟨smallMemory, []⟩
    transferLoadScript smallMode (fun _ => true) 0x1000 (smallInfo .arm64) false 0x1000 =
        .ok ⟨3952, smallData⟩ ∧
      BytesAt smallMemory 3952 smallData ∧ (smallStack .armEabi).LiesAt smallMemory 0x1000 ∧
      result = .error (.branch 0x1000 0x10040) ∧ wordAt .armEabi s.mem 0x1010 0 = 31 ∧
      wordAt .armEabi s.mem 0x1010 1 ≠ narrow smallMode stmt.atExecfn :=
  ⟨rfl, smallMemory_bytesAt, smallStack_liesAt, rfl, rfl, fun h =>
    absurd (show (0x2000 : BitVec 32) = 0xff0 from h) (by decide)⟩

end Abyss.Loader
