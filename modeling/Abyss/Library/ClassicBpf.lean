import Mathlib.Data.List.Basic
import Mathlib.Data.BitVec
import Mathlib.Tactic.Ring

/-!
# Classic BPF programs with forward jumps

A classic BPF program is a list of statements over one 32-bit accumulator. Every jump is
relative to the next statement and never goes back, so execution is a recursion on the list
of statements still ahead: a taken jump is a number of statements to skip. Running off the
end, which the kernel's checker forbids, gives no result.

`JumpsInside` counts the statements that follow a block, so that blocks are checked one by
one and then concatenated.
-/

namespace ClassicBpf

/-- The unsigned comparisons between the accumulator and the constant of a statement. -/
inductive Test where
  | eq
  | gt
  | ge
deriving DecidableEq

/-- Whether the accumulator passes the comparison against `k`. -/
def Test.holds : Test → BitVec 32 → BitVec 32 → Bool
  | .eq, acc, k => acc = k
  | .gt, acc, k => k < acc
  | .ge, acc, k => k ≤ acc

/-- The statements of a filter: absolute word load, conditional jump, jump and return. -/
inductive Statement where
  | load (k : BitVec 32)
  | jump (test : Test) (k : BitVec 32) (jt jf : BitVec 8)
  | ja (k : BitVec 32)
  | ret (k : BitVec 32)
deriving DecidableEq

/-- How many statements a statement may skip. -/
def Statement.offsets : Statement → List ℕ
  | .load _ => []
  | .jump _ _ jt jf => [jt.toNat, jf.toNat]
  | .ja k => [k.toNat]
  | .ret _ => []

/-- Execute the statements ahead after skipping `skip` of them, reading the packet by `load`. -/
def exec (load : BitVec 32 → BitVec 32) : List Statement → ℕ → BitVec 32 → Option (BitVec 32)
  | [], _, _ => none
  | _ :: rest, skip + 1, acc => exec load rest skip acc
  | .load k :: rest, 0, _ => exec load rest 0 (load k)
  | .jump test k jt jf :: rest, 0, acc =>
      exec load rest (if test.holds acc k then jt.toNat else jf.toNat) acc
  | .ja k :: rest, 0, acc => exec load rest k.toNat acc
  | .ret k :: _, 0, _ => some k

/-- The verdict of a whole program, which starts with a zero accumulator. -/
def run (load : BitVec 32 → BitVec 32) (program : List Statement) : Option (BitVec 32) :=
  exec load program 0 0

/-- Every jump of the block lands in it or in one of the `after` statements that follow it. -/
def JumpsInside : List Statement → ℕ → Prop
  | [], _ => True
  | s :: rest, after => (∀ offset ∈ s.offsets, offset < rest.length + after) ∧ JumpsInside rest after

/-- Whether every jump stays inside can be computed. -/
instance decidableJumpsInside : (program : List Statement) → (after : ℕ) →
    Decidable (JumpsInside program after)
  | [], _ => inferInstanceAs (Decidable True)
  | s :: rest, after =>
      have := decidableJumpsInside rest after
      inferInstanceAs (Decidable ((∀ offset ∈ s.offsets, offset < rest.length + after) ∧
        JumpsInside rest after))

section Blocks

variable (load : BitVec 32 → BitVec 32)

/-- A statement that is jumped over is not executed. -/
@[simp] theorem exec_skip (s : Statement) (rest : List Statement) (skip : ℕ) (acc : BitVec 32) :
    exec load (s :: rest) (skip + 1) acc = exec load rest skip acc := by
  cases s <;> rfl

/-- A load sets the accumulator. -/
@[simp] theorem exec_load (k : BitVec 32) (rest : List Statement) (acc : BitVec 32) :
    exec load (.load k :: rest) 0 acc = exec load rest 0 (load k) := rfl

/-- A conditional jump goes on behind the statements that it skips. -/
@[simp] theorem exec_jump (test : Test) (k : BitVec 32) (jt jf : BitVec 8)
    (rest : List Statement) (acc : BitVec 32) :
    exec load (.jump test k jt jf :: rest) 0 acc =
      exec load rest (if test.holds acc k then jt.toNat else jf.toNat) acc := rfl

/-- So does a jump that is always taken. -/
@[simp] theorem exec_ja (k : BitVec 32) (rest : List Statement) (acc : BitVec 32) :
    exec load (.ja k :: rest) 0 acc = exec load rest k.toNat acc := rfl

/-- A return ends the program with its value. -/
@[simp] theorem exec_ret (k : BitVec 32) (rest : List Statement) (acc : BitVec 32) :
    exec load (.ret k :: rest) 0 acc = some k := rfl

/-- Skipping a whole block continues in the next one. -/
theorem exec_append_skip (block next : List Statement) (skip : ℕ) (acc : BitVec 32) :
    exec load (block ++ next) (block.length + skip) acc = exec load next skip acc := by
  induction block with
  | nil => simp
  | cons s rest ih =>
    rw [List.cons_append, List.length_cons, Nat.add_right_comm, exec_skip, ih]

/-- The two statements that return `entry.2` when the accumulator is `entry.1`. -/
def returnIfEq (entry : BitVec 32 × BitVec 32) : List Statement :=
  [.jump .eq entry.1 0 1, .ret entry.2]

/-- A table of equality tests returns the value of the first matching key, or falls through. -/
theorem exec_returnIfEq (table : List (BitVec 32 × BitVec 32)) (next : List Statement)
    (acc : BitVec 32) :
    exec load (table.flatMap returnIfEq ++ next) 0 acc =
      match table.find? (fun entry => acc = entry.1) with
      | some entry => some entry.2
      | none => exec load next 0 acc := by
  induction table with
  | nil => rfl
  | cons entry rest ih =>
    rw [List.flatMap_cons, List.append_assoc, List.find?_cons]
    by_cases h : acc = entry.1
    · simp [returnIfEq, Test.holds, h]
    · simp [returnIfEq, Test.holds, h, ih]

end Blocks

/-- Concatenated blocks are checked one after the other. -/
theorem jumpsInside_append (block next : List Statement) (after : ℕ) :
    JumpsInside (block ++ next) after ↔
      JumpsInside block (next.length + after) ∧ JumpsInside next after := by
  induction block with
  | nil => simp [JumpsInside]
  | cons s rest ih =>
    simp only [List.cons_append, JumpsInside, ih, List.length_append, and_assoc, Nat.add_assoc]

/-- A block whose jumps stay inside keeps them inside when more statements follow. -/
theorem JumpsInside.mono {block : List Statement} {after after' : ℕ}
    (h : JumpsInside block after) (hle : after ≤ after') : JumpsInside block after' := by
  induction block with
  | nil => trivial
  | cons s rest ih =>
    exact ⟨fun offset hoffset => (h.1 offset hoffset).trans_le (by omega), ih h.2⟩

/-- A table of equality tests only needs one statement after it. -/
theorem jumpsInside_returnIfEq (table : List (BitVec 32 × BitVec 32)) {after : ℕ}
    (hafter : 0 < after) : JumpsInside (table.flatMap returnIfEq) after := by
  induction table with
  | nil => trivial
  | cons entry rest ih =>
    rw [List.flatMap_cons, jumpsInside_append]
    refine ⟨?_, ih⟩
    simp only [returnIfEq, JumpsInside, Statement.offsets, List.mem_cons, List.not_mem_nil,
      or_false, forall_eq_or_imp, forall_eq, List.length_cons, List.length_nil]
    simp
    omega

/-- Each entry of a table of equality tests takes two statements. -/
theorem length_returnIfEq (table : List (BitVec 32 × BitVec 32)) :
    (table.flatMap returnIfEq).length = 2 * table.length := by
  induction table with
  | nil => rfl
  | cons entry rest ih =>
    rw [List.flatMap_cons, List.length_append, ih, List.length_cons]
    simp only [returnIfEq, List.length_cons, List.length_nil]
    ring

end ClassicBpf
