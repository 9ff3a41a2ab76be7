import Mathlib.Data.Finset.Basic

/-!
# A mutex with a condition variable

A monitor knows which thread holds its mutex, which threads are blocked on its condition variable
and which of them were woken and still have to take the mutex again. A signal wakes one blocked
thread of the system's choice and is lost if there is none; no signal is needed to wake a thread
spuriously. An operation that has to wait, or that its caller may not do, has no result.
-/

/-- A mutex with a condition variable. -/
structure Monitor (T : Type) where
  owner : Option T := none
  waiting : Finset T := ∅
  woken : Finset T := ∅

namespace Monitor

variable {T : Type} {m m' : Monitor T} {t : T}

/-- Take the mutex. -/
def lock (m : Monitor T) (t : T) : Option (Monitor T) :=
  if m.owner = none then some { m with owner := some t } else none

/-- A thread takes a lock that is free. -/
theorem lock_eq_some : m.lock t = some m' ↔ m.owner = none ∧ { m with owner := some t } = m' := by
  simp [lock]

variable [DecidableEq T]

/-- Give the mutex back. -/
def unlock (m : Monitor T) (t : T) : Option (Monitor T) :=
  if m.owner = some t then some { m with owner := none } else none

/-- Give the mutex back and block, in one step. -/
def wait (m : Monitor T) (t : T) : Option (Monitor T) :=
  if m.owner = some t then some { m with owner := none, waiting := insert t m.waiting } else none

/-- Take the mutex again after the wait. -/
def relock (m : Monitor T) (t : T) : Option (Monitor T) :=
  if t ∈ m.woken ∧ m.owner = none then
    some { m with owner := some t, woken := m.woken.erase t }
  else none

/-- Wake a blocked thread. -/
def wake (m : Monitor T) (t : T) : Option (Monitor T) :=
  if t ∈ m.waiting then
    some { m with waiting := m.waiting.erase t, woken := insert t m.woken }
  else none

/-- Wake the chosen blocked thread; there is no choice only if no thread is blocked. -/
def signal (m : Monitor T) : Option T → Option (Monitor T)
  | none => if m.waiting = ∅ then some m else none
  | some t => m.wake t

/-- A thread gives back the lock that it has. -/
theorem unlock_eq_some :
    m.unlock t = some m' ↔ m.owner = some t ∧ { m with owner := none } = m' := by
  simp [unlock]

/-- A thread that waits gives back the lock. -/
theorem wait_eq_some :
    m.wait t = some m' ↔
      m.owner = some t ∧ { m with owner := none, waiting := insert t m.waiting } = m' := by
  simp [wait]

/-- A thread that was woken takes the lock again when it is free. -/
theorem relock_eq_some :
    m.relock t = some m' ↔ (t ∈ m.woken ∧ m.owner = none) ∧
      { m with owner := some t, woken := m.woken.erase t } = m' := by
  simp [relock]

/-- A thread that waits is woken. -/
theorem wake_eq_some :
    m.wake t = some m' ↔ t ∈ m.waiting ∧
      { m with waiting := m.waiting.erase t, woken := insert t m.woken } = m' := by
  simp [wake]

/-- A signal leaves the mutex alone and wakes the chosen thread, which was blocked, and no other
one. -/
theorem signal_spec {choice : Option T} (h : m.signal choice = some m') :
    m'.owner = m.owner ∧ (∀ t, t ∈ m'.waiting ↔ t ∈ m.waiting ∧ choice ≠ some t) ∧
      (∀ t, t ∈ m'.woken ↔ t ∈ m.woken ∨ choice = some t) ∧ ∀ t, choice = some t → t ∈ m.waiting := by
  cases choice with
  | none =>
    obtain ⟨-, rfl⟩ : m.waiting = ∅ ∧ m = m' := by simpa [signal] using h
    exact ⟨rfl, fun t => by simp, fun t => by simp, nofun⟩
  | some u =>
    obtain ⟨hblocked, rfl⟩ := wake_eq_some.mp h
    have hchosen : ∀ t, t = u ↔ some u = some t := fun t => by rw [Option.some.injEq, eq_comm]
    refine ⟨rfl, fun t => ?_, fun t => ?_, fun t ht => ?_⟩
    · rw [Finset.mem_erase, and_comm, Ne, hchosen]
    · rw [Finset.mem_insert, or_comm, hchosen]
    · exact (hchosen t).mpr ht ▸ hblocked

end Monitor
