import Mathlib.Data.Int.Basic
import Mathlib.Data.Nat.Notation

/-!
# Wait statuses

A wait status is a C integer whose low byte tells an exit, a death by a signal and a stop
apart. The tracer keeps twelve bits of a stop, since the event of a ptrace stop is above the
signal, and classifies them by a `switch` that is shared by its handlers.
-/

namespace Abyss

/-- `SIGKILL`. -/
def sigkill : ℤ := 9

/-- `SIGTRAP`. -/
def sigtrap : ℤ := 5

/-- `SIGCHLD`. -/
def sigchld : ℤ := 17

/-- `SIGSTOP`. -/
def sigstop : ℤ := 19

/-- The low seven bits of a status. -/
def wtermsig (status : ℤ) : ℤ := status % 128

/-- `WIFEXITED`. -/
def wifexited (status : ℤ) : Bool := wtermsig status = 0

/-- `WIFSTOPPED`. -/
def wifstopped (status : ℤ) : Bool := wtermsig status = 127

/-- `WIFSIGNALED`. -/
def wifsignaled (status : ℤ) : Bool := !wifexited status && !wifstopped status

/-- A stop is no exit. -/
theorem wifexited_of_stopped {status : ℤ} (h : wifstopped status = true) :
    wifexited status = false := by
  simp [wifexited, wifstopped] at h ⊢
  omega

/-- `WEXITSTATUS`. -/
def wexitstatus (status : ℤ) : ℤ := status / 256 % 256

/-- The signal of a stop with its event, `(status & 0xfff00) >> 8`. -/
def stopSignal (status : ℤ) : ℤ := status / 256 % 4096

/-- `__W_STOPCODE`. -/
def wStopcode (signal : ℤ) : ℤ := signal * 256 + 127

/-- `event & ~(0x80 << 8)`. -/
def clearSysgood (status : ℤ) : ℤ :=
  if status / 32768 % 2 = 1 then status - 32768 else status

/-- What a stop reports. -/
inductive StopKind where
  | trap | seccomp | syscall | vfork | fork | clone | vforkDone | exec | exit | stop | signal
deriving DecidableEq

/-- The cases of the `switch` over the signal of a stop. -/
def stopKind (signal : ℤ) : StopKind :=
  if signal = sigtrap then .trap
  else if signal = sigtrap + 8 * 256 ∨ signal = sigtrap + 7 * 256 then .seccomp
  else if signal = sigtrap + 128 then .syscall
  else if signal = sigtrap + 2 * 256 then .vfork
  else if signal = sigtrap + 1 * 256 then .fork
  else if signal = sigtrap + 3 * 256 then .clone
  else if signal = sigtrap + 5 * 256 then .vforkDone
  else if signal = sigtrap + 4 * 256 then .exec
  else if signal = sigtrap + 6 * 256 then .exit
  else if signal = sigstop then .stop
  else .signal

/-- The requests that restart a tracee; `none` stands for a request not chosen yet. -/
inductive Restart where
  | none | cont | syscall | singlestep | singleblock
deriving DecidableEq

/-- The `PTRACE_O_*` options, by their bit. -/
def ptraceOSysgood : ℕ := 0x01

/-- `PTRACE_O_TRACEFORK`. -/
def ptraceOFork : ℕ := 0x02

/-- `PTRACE_O_TRACEVFORK`. -/
def ptraceOVfork : ℕ := 0x04

/-- `PTRACE_O_TRACECLONE`. -/
def ptraceOClone : ℕ := 0x08

/-- `PTRACE_O_TRACEEXEC`. -/
def ptraceOExec : ℕ := 0x10

/-- `PTRACE_O_TRACEVFORKDONE`. -/
def ptraceOVforkDone : ℕ := 0x20

/-- `PTRACE_O_TRACEEXIT`. -/
def ptraceOExit : ℕ := 0x40

/-- `PTRACE_O_TRACESECCOMP`. -/
def ptraceOSeccomp : ℕ := 0x80

/-- The options set on the root of a process tree, without the one for seccomp. -/
def defaultPtraceOptions : ℕ := 0x7f

/-- The option that lets an event of this kind through to an emulated ptracer. -/
def StopKind.option : StopKind → Option ℕ
  | .fork => some ptraceOFork
  | .vfork => some ptraceOVfork
  | .vforkDone => some ptraceOVforkDone
  | .clone => some ptraceOClone
  | .exit => some ptraceOExit
  | .exec => some ptraceOExec
  | _ => none

end Abyss
