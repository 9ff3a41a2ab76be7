import Abyss.Library.Machine
import Abyss.Library.Monitor
import Mathlib

/-!
# The handshake for a new root

The translation of `tracer_init`, `trace_new_pid` and `trace_new_pid_internal` in `library.c` and
of the part of the event loop that attaches to the requested process. A caller leaves the pid in
a shared variable and starts a thread whose child exits at once; the event loop takes that exit
for the request, attaches to the process and signals the thread, which has gone to wait. The loop
ends when there is nothing left to wait for after the first process was attached.

Every thread is a program counter, and a step is one access to the shared variables or one
operation on a monitor. The calls are numbered, and `pid` tells what each of them asks for.
-/

namespace Abyss.Handshake

open Machine

/-- A thread of the tracer. -/
inductive Thread where
  | workMain
  | requester (call : ℕ)
  | internal (call : ℕ)
deriving DecidableEq

/-- Where a caller of `trace_new_pid` is; `locking` to `unlocking` are in `cmn_pt_wait2`. -/
inductive Requester where
  | idle
  | testing
  | locking
  | checking
  | blocking
  | waiting
  | unlocking
  | writing
  | creating
  | joining
  | returned
deriving DecidableEq

/-- Where the thread in `trace_new_pid_internal` is; `locking` to `unlocking` are in
`cmn_pt_wait`. -/
inductive Internal where
  | absent
  | forking
  | locking
  | blocking
  | waiting
  | unlocking
  | resetting
  | finished
deriving DecidableEq

/-- Where the thread in `work_main` is; up to `unlocking` it is in `cmn_pt_signal2`, and from
`polling` to `clearing` in the event loop. -/
inductive Work where
  | locking
  | checking
  | signalling
  | unlocking
  | polling
  | attaching (call : ℕ)
  | recording (call : ℕ) (attached : ℤ)
  | notifying (call : ℕ)
  | clearing
  | ended
deriving DecidableEq

/-- The shared variables, the threads, the children whose exit is not reported yet, and what came
out of the requests: the roots with the process that was attached and the pid in the record, and
the pids that were reported as failed. -/
structure State where
  snewAttachPid : ℤ
  workThreadDoing : Bool
  waittingForTracee : Bool
  launchSync : Monitor Thread
  spctx : Monitor Thread
  calls : Finset ℕ
  requester : ℕ → Requester
  internal : ℕ → Internal
  work : Work
  exited : Finset ℕ
  roots : List (ℤ × ℤ)
  failed : List ℤ

/-- The state after `tracer_init`. -/
def State.initial : State where
  snewAttachPid := -1
  workThreadDoing := false
  waittingForTracee := true
  launchSync := {}
  spctx := {}
  calls := ∅
  requester := fun _ => .idle
  internal := fun _ => .absent
  work := .locking
  exited := ∅
  roots := []
  failed := []

/-- Move a caller on. -/
def State.ask (s : State) (call : ℕ) (pc : Requester) : State :=
  { s with requester := Function.update s.requester call pc }

/-- Move a thread of a call on. -/
def State.help (s : State) (call : ℕ) (pc : Internal) : State :=
  { s with internal := Function.update s.internal call pc }

/-- What happens next: a call, a step of a thread with what the system makes of it, the report of
a child's exit, a failure of `waitpid`, or a spurious wake-up. -/
inductive Event where
  | call (call : ℕ)
  | requester (call : ℕ)
  | internal (call : ℕ) (forks : Bool)
  | workMain (woken : Option Thread) (succeeds : Bool)
  | report (call : ℕ)
  | waitFails (noChild : Bool)
  | launchWakes (call : ℕ)
  | attachWakes (call : ℕ)

section Steps

variable (pid : ℕ → ℤ)

/-- A step in `trace_new_pid`. -/
def requesterStep (call : ℕ) (s : State) : Option State :=
  match s.requester call with
  | .idle | .returned => none
  | .testing => some (s.ask call (if s.workThreadDoing then .writing else .locking))
  | .locking =>
    (s.launchSync.lock (.requester call)).map fun m =>
      { s.ask call .checking with launchSync := m }
  | .checking => some (s.ask call (if s.workThreadDoing then .unlocking else .blocking))
  | .blocking =>
    (s.launchSync.wait (.requester call)).map fun m => { s.ask call .waiting with launchSync := m }
  | .waiting =>
    (s.launchSync.relock (.requester call)).map fun m =>
      { s.ask call .unlocking with launchSync := m }
  | .unlocking =>
    (s.launchSync.unlock (.requester call)).map fun m => { s.ask call .writing with launchSync := m }
  | .writing => some { s.ask call .creating with snewAttachPid := pid call }
  | .creating => some ((s.ask call .joining).help call .forking)
  | .joining => if s.internal call = .finished then some (s.ask call .returned) else none

/-- A step in `trace_new_pid_internal`. -/
def internalStep (call : ℕ) (forks : Bool) (s : State) : Option State :=
  match s.internal call with
  | .absent | .finished => none
  | .forking =>
    if forks then some { s.help call .locking with exited := insert call s.exited }
    else some { s.help call .resetting with failed := s.snewAttachPid :: s.failed }
  | .locking =>
    (s.spctx.lock (.internal call)).map fun m => { s.help call .blocking with spctx := m }
  | .blocking =>
    (s.spctx.wait (.internal call)).map fun m => { s.help call .waiting with spctx := m }
  | .waiting =>
    (s.spctx.relock (.internal call)).map fun m => { s.help call .unlocking with spctx := m }
  | .unlocking =>
    (s.spctx.unlock (.internal call)).map fun m => { s.help call .resetting with spctx := m }
  | .resetting => some { s.help call .finished with snewAttachPid := -1 }

/-- A step in `work_main`; both the attachment and the allocation of the record may fail. -/
def workStep (woken : Option Thread) (succeeds : Bool) (s : State) : Option State :=
  match s.work with
  | .locking =>
    (s.launchSync.lock .workMain).map fun m => { s with work := .checking, launchSync := m }
  | .checking => some { s with work := .signalling, workThreadDoing := true }
  | .signalling =>
    (s.launchSync.signal woken).map fun m => { s with work := .unlocking, launchSync := m }
  | .unlocking =>
    (s.launchSync.unlock .workMain).map fun m => { s with work := .polling, launchSync := m }
  | .polling => none
  | .attaching call =>
    if succeeds then
      some { s with work := .recording call s.snewAttachPid, waittingForTracee := false }
    else some { s with work := .polling, failed := s.snewAttachPid :: s.failed }
  | .recording call attached =>
    if succeeds then
      some { s with work := .notifying call, roots := (attached, s.snewAttachPid) :: s.roots }
    else some { s with work := .polling, failed := s.snewAttachPid :: s.failed }
  | .notifying _ =>
    (s.spctx.signal woken).map fun m => { s with work := .clearing, spctx := m }
  | .clearing => some { s with work := .polling, snewAttachPid := -1 }
  | .ended => none

/-- The event loop is told about the exit of a child; without a request it takes the child for a
tracee. -/
def report (call : ℕ) (s : State) : Option State :=
  if s.work = .polling ∧ call ∈ s.exited then
    some { s with
      exited := s.exited.erase call
      work := if s.snewAttachPid ≠ -1 then .attaching call else .polling }
  else none

/-- `waitpid` fails. That there is no child, `ECHILD`, ends the event loop once a process was attached;
it is not said while the exit of a child is still to be reported. Any other error ends the loop. -/
def waitFails (noChild : Bool) (s : State) : Option State :=
  if s.work = .polling ∧ (noChild = true → s.exited = ∅) then
    some (if noChild && s.waittingForTracee then s else { s with work := .ended })
  else none

/-- One step of the threads together. -/
def step : Event → State → Option State
  | .call call, s =>
    if s.requester call = .idle then
      some { s.ask call .testing with calls := insert call s.calls }
    else none
  | .requester call, s => requesterStep pid call s
  | .internal call forks, s => internalStep call forks s
  | .workMain woken succeeds, s => workStep woken succeeds s
  | .report call, s => report call s
  | .waitFails noChild, s => waitFails noChild s
  | .launchWakes call, s =>
    (s.launchSync.wake (.requester call)).map fun m => { s with launchSync := m }
  | .attachWakes call, s => (s.spctx.wake (.internal call)).map fun m => { s with spctx := m }

end Steps

/-! ## What is expected of the handshake -/

/-- The call whose exit the event loop is dealing with, up to the record of the new root. -/
def Work.handling : Work → Option ℕ
  | .attaching call | .recording call _ => some call
  | _ => none

/-- Whether a caller has left its pid in the shared variable. -/
def Requester.requested : Requester → Bool
  | .creating | .joining | .returned => true
  | _ => false

/-- The request of a call still has to be dealt with by the event loop. -/
def State.Outstanding (s : State) (call : ℕ) : Prop :=
  s.requester call = .creating ∨ s.internal call = .forking ∨ call ∈ s.exited ∨
    s.work.handling = some call

instance (s : State) (call : ℕ) : Decidable (s.Outstanding call) :=
  inferInstanceAs (Decidable (_ ∨ _ ∨ _ ∨ _))

/-- The event loop is still there to deal with the request of a call. -/
def State.Awaited (s : State) (call : ℕ) : Prop := s.Outstanding call ∧ s.work ≠ .ended

/-- No request has to be dealt with, so that the shared variable may be written. -/
def State.Free (s : State) : Prop := ∀ call ∈ s.calls, ¬s.Outstanding call

instance (s : State) : Decidable s.Free :=
  inferInstanceAs (Decidable (∀ call ∈ s.calls, ¬s.Outstanding call))

/-- The thread of a call has not been woken from its wait yet. -/
def State.Unwoken (s : State) (call : ℕ) : Prop :=
  s.internal call = .locking ∨ s.internal call = .blocking ∨
    Thread.internal call ∈ s.spctx.waiting

instance (s : State) (call : ℕ) : Decidable (s.Unwoken call) :=
  inferInstanceAs (Decidable (_ ∨ _ ∨ _))

/-- No thread is blocked for good, and no requested pid is lost. -/
structure Sound (pid : ℕ → ℤ) (s : State) : Prop where
  /-- A thread is blocked only while its request is neither signalled for nor given up. -/
  answered : ∀ call, Thread.internal call ∈ s.spctx.waiting →
    s.Awaited call ∨ s.work = .notifying call
  /-- A requested pid is still there, or was attached and recorded, or was reported as failed. -/
  kept : ∀ call, (s.requester call).requested = true →
    s.Awaited call ∧ s.snewAttachPid = pid call ∨ (pid call, pid call) ∈ s.roots ∨
      pid call ∈ s.failed
  /-- A caller is blocked only until the worker has started. -/
  launched : ∀ call, Thread.requester call ∈ s.launchSync.waiting →
    s.work = .locking ∨ s.work = .checking ∨ s.work = .signalling

/-- The steps of `work_main` that do not go wrong: the start finds at most one blocked caller, the
event loop is done with a request only when the thread of that request is past its wait or is the
one that the signal wakes, and it resets the shared variable only while that is free. -/
def State.Due (s : State) (woken : Option Thread) (succeeds : Bool) : Work → Prop
  | .signalling => ∀ t ∈ s.launchSync.waiting, woken = some t
  | .attaching call | .recording call _ => succeeds = true ∨ ¬s.Unwoken call
  | .notifying call => s.Unwoken call → woken = some (.internal call)
  | .clearing => s.Free
  | .locking | .checking | .unlocking | .polling | .ended => True

/-- The steps that do not go wrong: besides, the shared variable is only written by requests for a
process, and only while it is free and the event loop has not ended, and the loop ends only then. -/
def Ordered (pid : ℕ → ℤ) (s : State) : Event → Prop
  | .requester call => s.requester call = .writing → s.Free ∧ s.work ≠ .ended ∧ pid call ≠ -1
  | .internal call _ => s.internal call = .resetting → s.Free
  | .workMain woken succeeds => s.Due woken succeeds s.work
  | .waitFails noChild => noChild = true ∧ s.waittingForTracee = true ∨ s.Free
  | .call _ | .report _ | .launchWakes _ | .attachWakes _ => True

instance (s : State) (woken : Option Thread) (succeeds : Bool) :
    ∀ w, Decidable (s.Due woken succeeds w)
  | .signalling => inferInstanceAs (Decidable (∀ t ∈ s.launchSync.waiting, woken = some t))
  | .attaching call | .recording call _ =>
    inferInstanceAs (Decidable (succeeds = true ∨ ¬s.Unwoken call))
  | .notifying call => inferInstanceAs (Decidable (s.Unwoken call → woken = some (.internal call)))
  | .clearing => inferInstanceAs (Decidable s.Free)
  | .locking | .checking | .unlocking | .polling | .ended => inferInstanceAs (Decidable True)

instance (pid : ℕ → ℤ) (s : State) : ∀ e, Decidable (Ordered pid s e)
  | .requester call =>
    inferInstanceAs
      (Decidable (s.requester call = .writing → s.Free ∧ s.work ≠ .ended ∧ pid call ≠ -1))
  | .internal call _ => inferInstanceAs (Decidable (s.internal call = .resetting → s.Free))
  | .workMain woken succeeds => inferInstanceAs (Decidable (s.Due woken succeeds s.work))
  | .waitFails noChild =>
    inferInstanceAs (Decidable (noChild = true ∧ s.waittingForTracee = true ∨ s.Free))
  | .call _ | .report _ | .launchWakes _ | .attachWakes _ => inferInstanceAs (Decidable True)

/-! ## The start of the worker -/

/-- What holds of the start of the worker along an ordered run: it is announced under the mutex, and a
caller that goes to block holds the mutex and has not seen the announcement. -/
structure Launch (s : State) : Prop where
  starting : s.workThreadDoing = false → s.work = .locking ∨ s.work = .checking
  owned : s.work = .checking ∨ s.work = .signalling ∨ s.work = .unlocking →
    s.launchSync.owner = some .workMain
  inside : ∀ call, s.requester call = .checking ∨ s.requester call = .blocking →
    s.launchSync.owner = some (.requester call)
  unaware : ∀ call, s.requester call = .blocking → s.workThreadDoing = false
  launched : ∀ call, Thread.requester call ∈ s.launchSync.waiting →
    s.work = .locking ∨ s.work = .checking ∨ s.work = .signalling

variable {pid : ℕ → ℤ} {s s' : State}

/-- The start of the worker does not depend on the threads of the calls. -/
theorem Launch.congr (h : Launch s) (hrequester : s'.requester = s.requester)
    (hdoing : s'.workThreadDoing = s.workThreadDoing) (hsync : s'.launchSync = s.launchSync)
    (hwork : s'.work = s.work) : Launch s' := by
  refine ⟨?_, ?_, ?_, ?_, ?_⟩
  · rw [hdoing, hwork]
    exact h.starting
  · rw [hwork, hsync]
    exact h.owned
  · rw [hrequester, hsync]
    exact h.inside
  · rw [hrequester, hdoing]
    exact h.unaware
  · rw [hsync, hwork]
    exact h.launched

/-- Whether the worker has got to the event loop. -/
def Work.inLoop : Work → Bool
  | .polling | .attaching _ | .recording .. | .notifying _ | .clearing | .ended => true
  | _ => false

/-- The start of the worker is over when it has got to the event loop. -/
theorem Launch.late (h : Launch s) (hrequester : s'.requester = s.requester)
    (hdoing : s'.workThreadDoing = s.workThreadDoing) (hsync : s'.launchSync = s.launchSync)
    (hloop : s.work.inLoop = true) (hloop' : s'.work.inLoop = true) : Launch s' := by
  refine ⟨fun hnot => ?_, fun howned => ?_, ?_, ?_, fun call hblocked => ?_⟩
  · rcases h.starting (hdoing ▸ hnot) with hwork | hwork <;> rw [hwork] at hloop <;> cases hloop
  · rcases howned with hwork | hwork | hwork <;> rw [hwork] at hloop' <;> cases hloop'
  · rw [hrequester, hsync]
    exact h.inside
  · rw [hrequester, hdoing]
    exact h.unaware
  · rw [hsync] at hblocked
    rcases h.launched call hblocked with hwork | hwork | hwork <;> rw [hwork] at hloop <;>
      cases hloop

/-- A step of a caller keeps the start of the worker in order. -/
theorem Launch.requesterStep {call : ℕ} (h : Launch s) (hs : requesterStep pid call s = some s') :
    Launch s' := by
  obtain ⟨hstarting, howned, hinside, hunaware, hlaunched⟩ := h
  unfold Handshake.requesterStep at hs
  cases hpc : s.requester call with
  | idle | returned => simp [hpc] at hs
  | testing | checking | writing | creating =>
    simp only [hpc, Option.some.injEq] at hs
    subst hs
    constructor <;> simp only [State.ask, State.help] <;> grind -ring -linarith [Function.update_apply]
  | locking =>
    simp only [hpc, Option.map_eq_some_iff, Monitor.lock_eq_some] at hs
    obtain ⟨m, ⟨hfree, rfl⟩, rfl⟩ := hs
    constructor <;> simp only [State.ask] <;> grind -ring -linarith [Function.update_apply]
  | blocking =>
    -- The caller has not seen the announcement, so that the signal is still to come.
    simp only [hpc, Option.map_eq_some_iff, Monitor.wait_eq_some] at hs
    obtain ⟨m, ⟨hheld, rfl⟩, rfl⟩ := hs
    constructor <;> simp only [State.ask] <;> grind -ring -linarith [Function.update_apply]
  | waiting =>
    simp only [hpc, Option.map_eq_some_iff, Monitor.relock_eq_some] at hs
    obtain ⟨m, ⟨hwoken, rfl⟩, rfl⟩ := hs
    constructor <;> simp only [State.ask] <;> grind -ring -linarith [Function.update_apply]
  | unlocking =>
    simp only [hpc, Option.map_eq_some_iff, Monitor.unlock_eq_some] at hs
    obtain ⟨m, ⟨hheld, rfl⟩, rfl⟩ := hs
    constructor <;> simp only [State.ask] <;> grind -ring -linarith [Function.update_apply]
  | joining =>
    simp only [hpc, Option.ite_none_right_eq_some, Option.some.injEq] at hs
    obtain ⟨hfinished, rfl⟩ := hs
    constructor <;> simp only [State.ask] <;> grind -ring -linarith [Function.update_apply]

/-- A step of the thread of a call does not touch the start of the worker. -/
theorem Launch.internalStep {call : ℕ} {forks : Bool} (h : Launch s)
    (hs : internalStep call forks s = some s') : Launch s' := by
  unfold Handshake.internalStep at hs
  cases hpc : s.internal call with
  | absent | finished => simp [hpc] at hs
  | forking =>
    simp only [hpc] at hs
    split at hs <;> cases hs <;> exact h.congr rfl rfl rfl rfl
  | locking | blocking | waiting | unlocking =>
    simp only [hpc, Option.map_eq_some_iff] at hs
    obtain ⟨m, -, rfl⟩ := hs
    exact h.congr rfl rfl rfl rfl
  | resetting =>
    simp only [hpc, Option.some.injEq] at hs
    subst hs
    exact h.congr rfl rfl rfl rfl

/-- The worker starts in order: after its signal no caller is blocked. -/
theorem Launch.workStep {woken : Option Thread} {succeeds : Bool} (h : Launch s)
    (hdue : s.Due woken succeeds s.work) (hs : workStep woken succeeds s = some s') :
    Launch s' := by
  have hstart := h
  obtain ⟨hstarting, howned, hinside, hunaware, hlaunched⟩ := h
  unfold Handshake.workStep at hs
  cases hpc : s.work with
  | polling | ended => simp [hpc] at hs
  | checking =>
    simp only [hpc, Option.some.injEq] at hs
    subst hs
    constructor <;> grind -ring -linarith
  | clearing =>
    simp only [hpc, Option.some.injEq] at hs
    subst hs
    exact hstart.late rfl rfl rfl (by rw [hpc]; rfl) rfl
  | locking =>
    simp only [hpc, Option.map_eq_some_iff, Monitor.lock_eq_some] at hs
    obtain ⟨m, ⟨hfree, rfl⟩, rfl⟩ := hs
    constructor <;> grind -ring -linarith
  | unlocking =>
    simp only [hpc, Option.map_eq_some_iff, Monitor.unlock_eq_some] at hs
    obtain ⟨m, ⟨hheld, rfl⟩, rfl⟩ := hs
    constructor <;> grind -ring -linarith
  | signalling =>
    rw [hpc] at hdue
    simp only [hpc, Option.map_eq_some_iff] at hs
    obtain ⟨m, hm, rfl⟩ := hs
    obtain ⟨howner, hwaiting, -, -⟩ := Monitor.signal_spec hm
    have hnone : ∀ t, t ∉ m.waiting := fun t ht =>
      ((hwaiting t).mp ht).2 (hdue t ((hwaiting t).mp ht).1)
    constructor <;> grind -ring -linarith
  | notifying call =>
    simp only [hpc, Option.map_eq_some_iff] at hs
    obtain ⟨m, -, rfl⟩ := hs
    exact hstart.late rfl rfl rfl (by rw [hpc]; rfl) rfl
  | attaching | recording =>
    simp only [hpc] at hs
    split at hs <;> cases hs <;> exact hstart.late rfl rfl rfl (by rw [hpc]; rfl) rfl

/-- Every step that does not go wrong keeps the start of the worker in order. -/
theorem Launch.step {e : Event} (h : Launch s) (hordered : Ordered pid s e)
    (hs : step pid e s = some s') : Launch s' := by
  cases e with
  | call call =>
    obtain ⟨hstarting, howned, hinside, hunaware, hlaunched⟩ := h
    simp only [Handshake.step, Option.ite_none_right_eq_some, Option.some.injEq] at hs
    obtain ⟨hidle, rfl⟩ := hs
    constructor <;> simp only [State.ask] <;> grind -ring -linarith [Function.update_apply]
  | requester call => exact h.requesterStep hs
  | internal call forks => exact h.internalStep hs
  | workMain woken succeeds => exact h.workStep hordered hs
  | report call =>
    obtain ⟨hstarting, howned, hinside, hunaware, hlaunched⟩ := h
    simp only [Handshake.step, report, Option.ite_none_right_eq_some, Option.some.injEq] at hs
    obtain ⟨⟨hpolling, hexited⟩, rfl⟩ := hs
    constructor <;> grind -ring -linarith
  | waitFails noChild =>
    simp only [Handshake.step, waitFails, Option.ite_none_right_eq_some, Option.some.injEq] at hs
    obtain ⟨⟨hpolling, -⟩, rfl⟩ := hs
    split
    · exact h
    · exact h.late rfl rfl rfl (by rw [hpolling]; rfl) rfl
  | launchWakes call =>
    obtain ⟨hstarting, howned, hinside, hunaware, hlaunched⟩ := h
    simp only [Handshake.step, Option.map_eq_some_iff, Monitor.wake_eq_some] at hs
    obtain ⟨m, ⟨hblocked, rfl⟩, rfl⟩ := hs
    constructor <;> grind -ring -linarith
  | attachWakes call =>
    simp only [Handshake.step, Option.map_eq_some_iff] at hs
    obtain ⟨m, -, rfl⟩ := hs
    exact h.congr rfl rfl rfl rfl

/-! ## The requests -/

/-- What holds of the requests along an ordered run. -/
structure Requests (pid : ℕ → ℤ) (s : State) : Prop where
  called : ∀ call, s.requester call ≠ .idle → call ∈ s.calls
  known : ∀ call, s.Outstanding call → call ∈ s.calls
  current : ∀ call, s.Outstanding call → pid call ≠ -1 ∧ s.snewAttachPid = pid call
  unwoken : ∀ call, s.Unwoken call → s.Outstanding call ∨ s.work = .notifying call
  blocked : ∀ call, Thread.internal call ∈ s.spctx.waiting ∨ .internal call ∈ s.spctx.woken →
    s.internal call = .waiting
  apart : ∀ t ∈ s.spctx.waiting, t ∉ s.spctx.woken
  created : ∀ call, s.internal call ≠ .absent →
    s.requester call = .joining ∨ s.requester call = .returned
  kept : ∀ call, (s.requester call).requested = true →
    s.Outstanding call ∨ (pid call, pid call) ∈ s.roots ∨ pid call ∈ s.failed
  running : ∀ call, s.Outstanding call → s.work ≠ .ended
  attached : ∀ call p, s.work = .recording call p → p = pid call
  recorded : ∀ call, s.work = .notifying call → (pid call, pid call) ∈ s.roots

/-- A step that leaves the requests alone: it only moves a caller before it writes its pid, or the
worker outside of a request. -/
theorem Requests.congr (h : Requests pid s) (hcalls : s'.calls = s.calls)
    (hinternal : s'.internal = s.internal) (hspctx : s'.spctx = s.spctx)
    (hsnew : s'.snewAttachPid = s.snewAttachPid) (hroots : s'.roots = s.roots)
    (hfailed : s'.failed = s.failed)
    (hidle : ∀ call, s.requester call = .idle → s'.requester call = .idle)
    (hlast : ∀ call, s.requester call = .joining ∨ s.requester call = .returned →
      s'.requester call = .joining ∨ s'.requester call = .returned)
    (hrequested : ∀ call, (s'.requester call).requested = (s.requester call).requested)
    (houtstanding : ∀ call, s'.Outstanding call ↔ s.Outstanding call)
    (hnotifying : ∀ call, s'.work = .notifying call ↔ s.work = .notifying call)
    (hended : s'.work = .ended → s.work = .ended)
    (hrecording : ∀ call p, s'.work = .recording call p → s.work = .recording call p) :
    Requests pid s' where
  called call hcall := by
    rw [hcalls]
    exact h.called call fun hnot => hcall (hidle call hnot)
  known call hcall := by
    rw [hcalls]
    exact h.known call ((houtstanding call).mp hcall)
  current call hcall := by
    rw [hsnew]
    exact h.current call ((houtstanding call).mp hcall)
  unwoken call hcall := by
    rw [State.Unwoken, hinternal, hspctx] at hcall
    rw [houtstanding, hnotifying]
    exact h.unwoken call hcall
  blocked call hcall := by
    rw [hspctx] at hcall
    rw [hinternal]
    exact h.blocked call hcall
  apart := by
    rw [hspctx]
    exact h.apart
  created call hcall := by
    rw [hinternal] at hcall
    exact hlast call (h.created call hcall)
  kept call hcall := by
    rw [hrequested] at hcall
    rw [houtstanding, hroots, hfailed]
    exact h.kept call hcall
  running call hcall hwork := h.running call ((houtstanding call).mp hcall) (hended hwork)
  attached call p hcall := h.attached call p (hrecording call p hcall)
  recorded call hcall := by
    rw [hroots]
    exact h.recorded call ((hnotifying call).mp hcall)

/-- A caller moves on before it has written its pid. -/
theorem Requests.ask {call : ℕ} (h : Requests pid s) {m : Monitor Thread} {pc : Requester}
    (hwas : s.requester call ≠ .idle ∧ (s.requester call).requested = false)
    (hnext : pc.requested = false) : Requests pid { s.ask call pc with launchSync := m } := by
  have hpc : pc ≠ .creating ∧ s.requester call ≠ .creating := by
    constructor
    · rintro rfl
      cases hnext
    · intro hcreating
      rw [hcreating] at hwas
      cases hwas.2
  refine h.congr rfl rfl rfl rfl rfl rfl (fun other hidle => ?_) (fun other hlast => ?_)
    (fun other => ?_) (fun other => ?_) (fun _ => Iff.rfl) id fun _ _ h => h
  all_goals by_cases hother : other = call
  · exact absurd (hother ▸ hidle) hwas.1
  · simpa [State.ask, hother] using hidle
  · subst hother
    rcases hlast with hpc | hpc <;> rw [hpc] at hwas <;> cases hwas.2
  · simpa [State.ask, hother] using hlast
  · subst hother
    simp [State.ask, hnext, hwas.2]
  · simp [State.ask, hother]
  · subst hother
    simp [State.Outstanding, State.ask, hpc.1, hpc.2]
  · simp [State.Outstanding, State.ask, hother]

/-- A caller writes its pid while no other one is there. -/
theorem Requests.write {call : ℕ} (h : Requests pid s) (hpc : s.requester call = .writing)
    (hfree : s.Free) (hloop : s.work ≠ .ended) (hpid : pid call ≠ -1) :
    Requests pid { s.ask call .creating with snewAttachPid := pid call } := by
  obtain ⟨hcalled, hknown, hcurrent, hunwoken, hblocked, hapart, hcreated, hkept, hrunning, hattached,
    hrecorded⟩ := h
  simp only [State.Outstanding, State.Unwoken, State.Free] at *
  constructor <;> simp only [State.ask, State.Outstanding, State.Unwoken] <;>
    grind -ring -linarith [Function.update_apply, Requester.requested]

/-- A caller starts the thread of its call. -/
theorem Requests.create {call : ℕ} (h : Requests pid s) (hpc : s.requester call = .creating) :
    Requests pid ((s.ask call .joining).help call .forking) := by
  obtain ⟨hcalled, hknown, hcurrent, hunwoken, hblocked, hapart, hcreated, hkept, hrunning, hattached,
    hrecorded⟩ := h
  simp only [State.Outstanding, State.Unwoken] at *
  constructor <;> simp only [State.ask, State.help, State.Outstanding, State.Unwoken] <;>
    grind -ring -linarith [Function.update_apply, Requester.requested]

/-- A caller returns when its thread has finished. -/
theorem Requests.join {call : ℕ} (h : Requests pid s) (hpc : s.requester call = .joining) :
    Requests pid (s.ask call .returned) := by
  refine h.congr rfl rfl rfl rfl rfl rfl (fun other hidle => ?_) (fun other hlast => ?_)
    (fun other => ?_) (fun other => ?_) (fun _ => Iff.rfl) id fun _ _ h => h
  all_goals by_cases hother : other = call
  · rw [hother, hpc] at hidle
    cases hidle
  · simpa [State.ask, hother] using hidle
  · exact .inr (by rw [hother]; simp [State.ask])
  · simpa [State.ask, hother] using hlast
  · subst hother
    simp [State.ask, hpc, Requester.requested]
  · simp [State.ask, hother]
  · subst hother
    simp [State.Outstanding, State.ask, hpc]
  · simp [State.Outstanding, State.ask, hother]

/-- A caller keeps the requests in order if it writes its pid while no other one is there. -/
theorem Requests.requesterStep {call : ℕ} (h : Requests pid s)
    (hordered : s.requester call = .writing → s.Free ∧ s.work ≠ .ended ∧ pid call ≠ -1)
    (hs : requesterStep pid call s = some s') : Requests pid s' := by
  unfold Handshake.requesterStep at hs
  cases hpc : s.requester call with
  | idle | returned => simp [hpc] at hs
  | testing | checking =>
    simp only [hpc, Option.some.injEq] at hs
    subst hs
    exact h.ask ⟨by rw [hpc]; decide, by rw [hpc]; rfl⟩ (by split <;> rfl)
  | locking | blocking | waiting | unlocking =>
    simp only [hpc, Option.map_eq_some_iff] at hs
    obtain ⟨m, -, rfl⟩ := hs
    exact h.ask ⟨by rw [hpc]; decide, by rw [hpc]; rfl⟩ rfl
  | writing =>
    simp only [hpc, Option.some.injEq] at hs
    subst hs
    obtain ⟨hfree, hloop, hpid⟩ := hordered hpc
    exact h.write hpc hfree hloop hpid
  | creating =>
    simp only [hpc, Option.some.injEq] at hs
    subst hs
    exact h.create hpc
  | joining =>
    simp only [hpc, Option.ite_none_right_eq_some, Option.some.injEq] at hs
    obtain ⟨-, rfl⟩ := hs
    exact h.join hpc

/-- The thread of a call has started its child, or reports that this failed. -/
theorem Requests.fork {call : ℕ} {forks : Bool} (h : Requests pid s)
    (hpc : s.internal call = .forking) (hs : internalStep call forks s = some s') :
    Requests pid s' := by
  obtain ⟨hcalled, hknown, hcurrent, hunwoken, hblocked, hapart, hcreated, hkept, hrunning, hattached,
    hrecorded⟩ := h
  simp only [Handshake.internalStep, hpc] at hs
  simp only [State.Outstanding, State.Unwoken] at *
  split at hs <;> cases hs <;> constructor <;>
    simp only [State.help, State.Outstanding, State.Unwoken] <;>
      grind -ring -linarith [Function.update_apply]

/-- The thread of a call goes to wait. -/
theorem Requests.block {call : ℕ} (h : Requests pid s) {pc : Internal} {waiting : Finset Thread}
    {owner : Option Thread}
    (hpc : s.internal call = .locking ∧ pc = .blocking ∧ waiting = s.spctx.waiting ∨
      s.internal call = .blocking ∧ pc = .waiting ∧
        waiting = insert (.internal call) s.spctx.waiting) :
    Requests pid
      { s.help call pc with spctx := { s.spctx with owner := owner, waiting := waiting } } := by
  obtain ⟨hcalled, hknown, hcurrent, hunwoken, hblocked, hapart, hcreated, hkept, hrunning, hattached,
    hrecorded⟩ := h
  simp only [State.Outstanding, State.Unwoken] at *
  constructor <;> simp only [State.help, State.Outstanding, State.Unwoken] <;>
    grind -ring -linarith [Function.update_apply]

/-- The thread of a call goes on after its wait. -/
theorem Requests.unblock {call : ℕ} (h : Requests pid s) {pc : Internal} {woken : Finset Thread}
    {owner : Option Thread}
    (hpc : s.internal call = .waiting ∧ pc = .unlocking ∧ .internal call ∈ s.spctx.woken ∧
        woken = s.spctx.woken.erase (.internal call) ∨
      s.internal call = .unlocking ∧ pc = .resetting ∧ woken = s.spctx.woken) :
    Requests pid
      { s.help call pc with spctx := { s.spctx with owner := owner, woken := woken } } := by
  obtain ⟨hcalled, hknown, hcurrent, hunwoken, hblocked, hapart, hcreated, hkept, hrunning, hattached,
    hrecorded⟩ := h
  simp only [State.Outstanding, State.Unwoken] at *
  constructor <;> simp only [State.help, State.Outstanding, State.Unwoken] <;>
    grind -ring -linarith [Function.update_apply]

/-- The thread of a call resets the shared variable while no request is there. -/
theorem Requests.reset {call : ℕ} (h : Requests pid s) (hpc : s.internal call = .resetting)
    (hfree : s.Free) : Requests pid { s.help call .finished with snewAttachPid := -1 } := by
  obtain ⟨hcalled, hknown, hcurrent, hunwoken, hblocked, hapart, hcreated, hkept, hrunning, hattached,
    hrecorded⟩ := h
  simp only [State.Outstanding, State.Unwoken, State.Free] at *
  constructor <;> simp only [State.help, State.Outstanding, State.Unwoken] <;>
    grind -ring -linarith [Function.update_apply]

/-- The thread of a call keeps the requests in order if it resets the shared variable while no
request is there. -/
theorem Requests.internalStep {call : ℕ} {forks : Bool} (h : Requests pid s)
    (hordered : s.internal call = .resetting → s.Free)
    (hs : internalStep call forks s = some s') : Requests pid s' := by
  have hstep := hs
  unfold Handshake.internalStep at hs
  cases hpc : s.internal call with
  | absent | finished => simp [hpc] at hs
  | forking => exact h.fork hpc hstep
  | locking =>
    simp only [hpc, Option.map_eq_some_iff, Monitor.lock_eq_some] at hs
    obtain ⟨m, ⟨-, rfl⟩, rfl⟩ := hs
    exact h.block (.inl ⟨hpc, rfl, rfl⟩)
  | blocking =>
    simp only [hpc, Option.map_eq_some_iff, Monitor.wait_eq_some] at hs
    obtain ⟨m, ⟨-, rfl⟩, rfl⟩ := hs
    exact h.block (.inr ⟨hpc, rfl, rfl⟩)
  | waiting =>
    simp only [hpc, Option.map_eq_some_iff, Monitor.relock_eq_some] at hs
    obtain ⟨m, ⟨⟨hwoken, -⟩, rfl⟩, rfl⟩ := hs
    exact h.unblock (.inl ⟨hpc, rfl, hwoken, rfl⟩)
  | unlocking =>
    simp only [hpc, Option.map_eq_some_iff, Monitor.unlock_eq_some] at hs
    obtain ⟨m, ⟨-, rfl⟩, rfl⟩ := hs
    exact h.unblock (.inr ⟨hpc, rfl, rfl⟩)
  | resetting =>
    simp only [hpc, Option.some.injEq] at hs
    subst hs
    exact h.reset hpc (hordered hpc)

/-- The worker moves on outside of a request. -/
theorem Requests.work (h : Requests pid s) {m : Monitor Thread} {doing : Bool} {pc : Work}
    (hwas : s.work = .locking ∨ s.work = .checking ∨ s.work = .signalling ∨ s.work = .unlocking)
    (hnext : pc = .checking ∨ pc = .signalling ∨ pc = .unlocking ∨ pc = .polling) :
    Requests pid { s with work := pc, launchSync := m, workThreadDoing := doing } := by
  refine h.congr rfl rfl rfl rfl rfl rfl (fun _ h => h) (fun _ h => h) (fun _ => rfl)
    (fun call => ?_) (fun call => ?_) (fun hended => ?_) fun call p hrecording => ?_
  · unfold State.Outstanding
    rcases hwas with hwas | hwas | hwas | hwas <;>
      rcases hnext with rfl | rfl | rfl | rfl <;> simp [hwas, Work.handling]
  · rcases hwas with hwas | hwas | hwas | hwas <;>
      rcases hnext with rfl | rfl | rfl | rfl <;> simp [hwas]
  · rcases hnext with rfl | rfl | rfl | rfl <;> cases hended
  · rcases hnext with rfl | rfl | rfl | rfl <;> cases hrecording

/-- The worker signals the thread of the request that it is done with. -/
theorem Requests.notify {woken : Option Thread} {call : ℕ} {m : Monitor Thread}
    (h : Requests pid s) (hpc : s.work = .notifying call)
    (hdue : s.Unwoken call → woken = some (.internal call))
    (hm : s.spctx.signal woken = some m) :
    Requests pid { s with work := .clearing, spctx := m } := by
  obtain ⟨hcalled, hknown, hcurrent, hunwoken, hblocked, hapart, hcreated, hkept, hrunning, hattached,
    hrecorded⟩ := h
  obtain ⟨-, hwaiting, hwoken, hchosen⟩ := Monitor.signal_spec hm
  simp only [State.Outstanding, State.Unwoken] at *
  constructor <;> simp only [State.Outstanding, State.Unwoken] <;> grind -ring -linarith [Work.handling]

/-- The worker resets the shared variable while no request is there. -/
theorem Requests.clear (h : Requests pid s) (hpc : s.work = .clearing) (hfree : s.Free) :
    Requests pid { s with work := .polling, snewAttachPid := -1 } := by
  obtain ⟨hcalled, hknown, hcurrent, hunwoken, hblocked, hapart, hcreated, hkept, hrunning, hattached,
    hrecorded⟩ := h
  simp only [State.Outstanding, State.Unwoken, State.Free] at *
  constructor <;> simp only [State.Outstanding, State.Unwoken] <;> grind -ring -linarith [Work.handling]

/-- The worker attaches to the requested process, or gives up. -/
theorem Requests.attach {call : ℕ} {woken : Option Thread} {succeeds : Bool} (h : Requests pid s)
    (hpc : s.work = .attaching call) (hdue : succeeds = true ∨ ¬s.Unwoken call)
    (hs : workStep woken succeeds s = some s') : Requests pid s' := by
  obtain ⟨hcalled, hknown, hcurrent, hunwoken, hblocked, hapart, hcreated, hkept, hrunning, hattached,
    hrecorded⟩ := h
  simp only [Handshake.workStep, hpc] at hs
  simp only [State.Outstanding, State.Unwoken] at *
  split at hs <;> cases hs <;> constructor <;> simp only [State.Outstanding, State.Unwoken] <;>
    grind -ring -linarith [Work.handling]

/-- The worker records the process that it is attached to, or gives up. -/
theorem Requests.record {call : ℕ} {attached : ℤ} {woken : Option Thread} {succeeds : Bool}
    (h : Requests pid s) (hpc : s.work = .recording call attached)
    (hdue : succeeds = true ∨ ¬s.Unwoken call) (hs : workStep woken succeeds s = some s') :
    Requests pid s' := by
  obtain ⟨hcalled, hknown, hcurrent, hunwoken, hblocked, hapart, hcreated, hkept, hrunning, hattached,
    hrecorded⟩ := h
  simp only [Handshake.workStep, hpc] at hs
  simp only [State.Outstanding, State.Unwoken] at *
  split at hs <;> cases hs <;> constructor <;> simp only [State.Outstanding, State.Unwoken] <;>
    grind -ring -linarith [Work.handling]

/-- The worker keeps the requests in order if it is done with one only when the thread of that
request is, or will be, past its wait. -/
theorem Requests.workStep {woken : Option Thread} {succeeds : Bool} (h : Requests pid s)
    (hdue : s.Due woken succeeds s.work) (hs : workStep woken succeeds s = some s') :
    Requests pid s' := by
  have hstep := hs
  unfold Handshake.workStep at hs
  cases hpc : s.work with
  | polling | ended => simp [hpc] at hs
  | checking =>
    simp only [hpc, Option.some.injEq] at hs
    subst hs
    exact h.work (by simp [hpc]) (by simp)
  | locking | unlocking | signalling =>
    simp only [hpc, Option.map_eq_some_iff] at hs
    obtain ⟨m, -, rfl⟩ := hs
    exact h.work (by simp [hpc]) (by simp)
  | clearing =>
    rw [hpc] at hdue
    simp only [hpc, Option.some.injEq] at hs
    subst hs
    exact h.clear hpc hdue
  | notifying call =>
    rw [hpc] at hdue
    simp only [hpc, Option.map_eq_some_iff] at hs
    obtain ⟨m, hm, rfl⟩ := hs
    exact h.notify hpc hdue hm
  | attaching call =>
    rw [hpc] at hdue
    exact h.attach hpc hdue hstep
  | recording call attached =>
    rw [hpc] at hdue
    exact h.record hpc hdue hstep

/-- A call begins. -/
theorem Requests.call {call : ℕ} (h : Requests pid s) (hidle : s.requester call = .idle) :
    Requests pid { s.ask call .testing with calls := insert call s.calls } := by
  obtain ⟨hcalled, hknown, hcurrent, hunwoken, hblocked, hapart, hcreated, hkept, hrunning, hattached,
    hrecorded⟩ := h
  simp only [State.Outstanding, State.Unwoken] at *
  constructor <;> simp only [State.ask, State.Outstanding, State.Unwoken] <;>
    grind -ring -linarith [Function.update_apply, Requester.requested]

/-- The exit of a child is reported. -/
theorem Requests.report {call : ℕ} (h : Requests pid s) (hs : report call s = some s') :
    Requests pid s' := by
  obtain ⟨hcalled, hknown, hcurrent, hunwoken, hblocked, hapart, hcreated, hkept, hrunning, hattached,
    hrecorded⟩ := h
  simp only [Handshake.report, Option.ite_none_right_eq_some, Option.some.injEq] at hs
  obtain ⟨⟨hpolling, hexited⟩, rfl⟩ := hs
  simp only [State.Outstanding, State.Unwoken] at *
  constructor <;> simp only [State.Outstanding, State.Unwoken] <;> grind -ring -linarith [Work.handling]

/-- The event loop ends while no request is there, or goes on. -/
theorem Requests.waitFails {noChild : Bool} (h : Requests pid s)
    (hordered : noChild = true ∧ s.waittingForTracee = true ∨ s.Free)
    (hs : waitFails noChild s = some s') : Requests pid s' := by
  simp only [Handshake.waitFails, Option.ite_none_right_eq_some, Option.some.injEq] at hs
  obtain ⟨⟨hpolling, -⟩, rfl⟩ := hs
  split
  · exact h
  · rename_i hends
    have hfree : s.Free := hordered.resolve_left fun hgoes => hends (by simp [hgoes])
    obtain ⟨hcalled, hknown, hcurrent, hunwoken, hblocked, hapart, hcreated, hkept, hrunning, hattached,
      hrecorded⟩ := h
    simp only [State.Outstanding, State.Unwoken, State.Free] at *
    constructor <;> simp only [State.Outstanding, State.Unwoken] <;>
      grind -ring -linarith [Work.handling]

/-- Every step that does not go wrong keeps the requests in order. -/
theorem Requests.step {e : Event} (h : Requests pid s) (hordered : Ordered pid s e)
    (hs : step pid e s = some s') : Requests pid s' := by
  cases e with
  | requester call => exact h.requesterStep hordered hs
  | internal call forks => exact h.internalStep hordered hs
  | workMain woken succeeds => exact h.workStep hordered hs
  | call call =>
    simp only [Handshake.step, Option.ite_none_right_eq_some, Option.some.injEq] at hs
    obtain ⟨hidle, rfl⟩ := hs
    exact h.call hidle
  | report call => exact h.report hs
  | waitFails noChild => exact h.waitFails hordered hs
  | launchWakes call =>
    simp only [Handshake.step, Option.map_eq_some_iff] at hs
    obtain ⟨m, -, rfl⟩ := hs
    exact h.congr rfl rfl rfl rfl rfl rfl (fun _ h => h) (fun _ h => h) (fun _ => rfl)
      (fun _ => Iff.rfl) (fun _ => Iff.rfl) id fun _ _ h => h
  | attachWakes call =>
    obtain ⟨hcalled, hknown, hcurrent, hunwoken, hblocked, hapart, hcreated, hkept, hrunning, hattached,
      hrecorded⟩ := h
    simp only [Handshake.step, Option.map_eq_some_iff, Monitor.wake_eq_some] at hs
    obtain ⟨m, ⟨hwaits, rfl⟩, rfl⟩ := hs
    simp only [State.Outstanding, State.Unwoken] at *
    constructor <;> simp only [State.Outstanding, State.Unwoken] <;> grind -ring -linarith

/-! ## Whole runs -/

/-- The invariants say that nothing went wrong. -/
theorem Requests.sound (h : Requests pid s) (hlaunch : Launch s) : Sound pid s := by
  have hawaited : ∀ call, s.Outstanding call → s.Awaited call := fun call houtstanding =>
    ⟨houtstanding, h.running call houtstanding⟩
  refine ⟨fun call hblocked => ?_, fun call hcall => ?_, hlaunch.launched⟩
  · exact (h.unwoken call (Or.inr (Or.inr hblocked))).imp_left (hawaited call)
  rcases h.kept call hcall with houtstanding | hdone
  · exact Or.inl ⟨hawaited call houtstanding, (h.current call houtstanding).2⟩
  · exact Or.inr hdone

/-- Nothing has gone wrong before the first step. -/
theorem State.initial_invariants : Launch State.initial ∧ Requests pid State.initial := by
  constructor <;> constructor <;> simp [State.initial, State.Outstanding, State.Unwoken,
    Work.handling, Requester.requested]

/-- In every run whose steps do not go wrong, no thread is blocked for good and no requested pid
is lost. -/
theorem handshake_sound (pid : ℕ → ℤ) (s : State)
    (h : Run (fun e => attempt (step pid e)) (Ordered pid) State.initial s) : Sound pid s := by
  have hinvariant : Launch s ∧ Requests pid s := by
    refine h.invariant (I := fun s => Launch s ∧ Requests pid s) (E := fun _ _ => True)
      State.initial_invariants fun e => ?_
    refine Triple.attempt (fun s s' ⟨⟨hlaunch, hrequests⟩, hordered⟩ hs => ?_) fun _ _ => trivial
    exact ⟨hlaunch.step hordered hs, hrequests.step hordered hs⟩
  exact hinvariant.2.sound hinvariant.1

/-- A caller does not touch the worker and the threads of the calls. -/
theorem requesterStep_kept {call : ℕ} (hs : requesterStep pid call s = some s') :
    s'.work = s.work ∧ s'.spctx = s.spctx := by
  unfold requesterStep at hs
  cases hpc : s.requester call with
  | idle | returned => simp [hpc] at hs
  | testing | checking | writing | creating =>
    simp only [hpc, Option.some.injEq] at hs
    subst hs
    exact ⟨rfl, rfl⟩
  | locking | blocking | waiting | unlocking =>
    simp only [hpc, Option.map_eq_some_iff] at hs
    obtain ⟨m, -, rfl⟩ := hs
    exact ⟨rfl, rfl⟩
  | joining =>
    simp only [hpc, Option.ite_none_right_eq_some, Option.some.injEq] at hs
    obtain ⟨-, rfl⟩ := hs
    exact ⟨rfl, rfl⟩

/-- Once the event loop has ended nobody signals any more: a thread that is blocked stays so, unless
it wakes by itself. -/
theorem blocked_of_ended {e : Event} {call : ℕ} (hended : s.work = .ended)
    (hblocked : Thread.internal call ∈ s.spctx.waiting) (hwakes : e ≠ .attachWakes call)
    (hs : step pid e s = some s') :
    s'.work = .ended ∧ Thread.internal call ∈ s'.spctx.waiting := by
  cases e with
  | call other =>
    simp only [step, Option.ite_none_right_eq_some, Option.some.injEq] at hs
    obtain ⟨-, rfl⟩ := hs
    exact ⟨hended, hblocked⟩
  | requester other =>
    have hkept := requesterStep_kept hs
    exact ⟨hkept.1.trans hended, hkept.2 ▸ hblocked⟩
  | internal other forks =>
    simp only [step, internalStep] at hs
    cases hpc : s.internal other with
    | absent | finished => simp [hpc] at hs
    | forking =>
      simp only [hpc] at hs
      split at hs <;> cases hs <;> exact ⟨hended, hblocked⟩
    | locking =>
      simp only [hpc, Option.map_eq_some_iff, Monitor.lock_eq_some] at hs
      obtain ⟨m, ⟨-, rfl⟩, rfl⟩ := hs
      exact ⟨hended, hblocked⟩
    | blocking =>
      simp only [hpc, Option.map_eq_some_iff, Monitor.wait_eq_some] at hs
      obtain ⟨m, ⟨-, rfl⟩, rfl⟩ := hs
      exact ⟨hended, Finset.mem_insert_of_mem hblocked⟩
    | waiting =>
      simp only [hpc, Option.map_eq_some_iff, Monitor.relock_eq_some] at hs
      obtain ⟨m, ⟨-, rfl⟩, rfl⟩ := hs
      exact ⟨hended, hblocked⟩
    | unlocking =>
      simp only [hpc, Option.map_eq_some_iff, Monitor.unlock_eq_some] at hs
      obtain ⟨m, ⟨-, rfl⟩, rfl⟩ := hs
      exact ⟨hended, hblocked⟩
    | resetting =>
      simp only [hpc, Option.some.injEq] at hs
      subst hs
      exact ⟨hended, hblocked⟩
  | workMain woken succeeds => simp [step, workStep, hended] at hs
  | report other => simp [step, report, hended] at hs
  | waitFails noChild => simp [step, waitFails, hended] at hs
  | launchWakes other =>
    simp only [step, Option.map_eq_some_iff] at hs
    obtain ⟨m, -, rfl⟩ := hs
    exact ⟨hended, hblocked⟩
  | attachWakes other =>
    simp only [step, Option.map_eq_some_iff, Monitor.wake_eq_some] at hs
    obtain ⟨m, ⟨-, rfl⟩, rfl⟩ := hs
    have hother : Thread.internal call ≠ .internal other := fun heq =>
      hwakes (congrArg Event.attachWakes (Thread.internal.inj heq).symm)
    exact ⟨hended, Finset.mem_erase.mpr ⟨hother, hblocked⟩⟩

/-- A single call whose thread waits when the event loop signals. -/
def answeredEvents : List Event :=
  [List.replicate 4 (.workMain none true), [.call 0], List.replicate 3 (.requester 0),
    List.replicate 3 (.internal 0 true), [.report 0], List.replicate 2 (.workMain none true),
    List.replicate 2 (.workMain (some (.internal 0)) true), List.replicate 3 (.internal 0 true),
    [.requester 0]].flatten

/-- That is such a run. -/
theorem handshake_sound_answered :
    ∃ s, Sound (fun _ => 100) s ∧ s.requester 0 = .returned ∧ (100, 100) ∈ s.roots := by
  have hruns : runsTo id (fun e => attempt (step (fun _ => 100) e)) (Ordered fun _ => 100)
      (fun s => s.requester 0 = .returned ∧ (100, 100) ∈ s.roots) answeredEvents
      State.initial = true := by decide_cbv
  obtain ⟨s, hrun, hs⟩ := Run.start.of_runsTo (fun _ => rfl) hruns
  exact ⟨s, handshake_sound _ s hrun, hs⟩

/-- A single call whose thread goes to wait after the signal. -/
def lateEvents : List Event :=
  [List.replicate 4 (.workMain none true), [.call 0], List.replicate 3 (.requester 0),
    [.internal 0 true, .report 0], List.replicate 4 (.workMain none true),
    List.replicate 2 (.internal 0 true)].flatten

/-- Without the order of steps a call goes wrong. -/
theorem lateWait_notSound :
    ¬∀ (pid : ℕ → ℤ) (s : State),
      Run (fun e => attempt (step pid e)) (fun _ _ => True) State.initial s → Sound pid s := by
  intro hsound
  have hruns : runsTo id (fun e => attempt (step (fun _ => 100) e)) (fun _ _ => True)
      (fun s => Thread.internal 0 ∈ s.spctx.waiting ∧
        ¬(s.Outstanding 0 ∨ s.work = .notifying 0))
      lateEvents State.initial = true := by decide_cbv
  obtain ⟨s, hrun, hblocked, hdone⟩ := Run.start.of_runsTo (fun _ => rfl) hruns
  exact hdone (((hsound _ s hrun).answered 0 hblocked).imp_left And.left)

end Abyss.Handshake
