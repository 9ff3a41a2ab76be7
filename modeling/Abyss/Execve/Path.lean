import Abyss.Library.Inquiry
import Abyss.Syscall.Sysarg
import Abyss.Syscall.Translate

/-!
# Translation of paths

A path is joined to a base directory: the root for an absolute path, and otherwise the directory of
a descriptor of the tracee, or the working directory that `getcwd` tells. The latter is that of the
tracer.
-/

namespace Abyss.Execve

open Bytes

/-- `ENOENT`. -/
def enoent : ℤ := 2

/-- `EBADF`. -/
def ebadf : ℤ := 9

/-- `ENOTDIR`. -/
def enotdir : ℤ := 20

/-- A path, without its terminator. -/
abbrev Path := List Byte

/-- How a function ends early: with a status, or with an assertion or a null pointer. -/
inductive Stop where
  | status (status : ℤ)
  | assertion
  | nullPointer
  deriving DecidableEq

/-- Return a status that is an error. -/
def status {α : Type} (z : ℤ) : Except Stop α := .error (.status z)

/-- What `getcwd` tells. -/
abbrev Getcwd := Except ℤ Path

/-- The separator of paths. -/
def slash : Byte := 47

/-- Append a path, with a separator in between when needed. -/
def appendPath (result path : Path) : Except Stop Path :=
  let joined :=
    if result ≠ [] ∧ result.getLast? ≠ some slash ∧ path.head? ≠ some slash then
      result ++ slash :: path
    else if result ≠ [] ∧ result.getLast? = some slash ∧ path.head? = some slash then
      result ++ path.tail
    else result ++ path
  if joined.length + 1 ≥ pathMax then status (-enametoolong) else .ok joined

/-- The concatenation of several paths. -/
def joinPaths (paths : List Path) : Except Stop Path := paths.foldlM appendPath []

/-- The path of a descriptor of the tracee. -/
def readlinkProcPidFd (link : ℤ → Option Path) (fd : ℤ) : Except Stop Path :=
  match link fd with
  | none => status (-ebadf)
  | some path => if path.length ≥ pathMax then status (-enametoolong) else .ok path

/-- An absolute path. -/
def Absolute (path : Path) : Prop := path.head? = some slash

instance (path : Path) : Decidable (Absolute path) :=
  inferInstanceAs (Decidable (path.head? = some slash))

/-- The directory that a path is relative to, or the root for an absolute path. -/
def basePath (link : ℤ → Option Path) (getcwd : Getcwd) (dirFd : ℤ) (userPath : Path) :
    Except Stop Path :=
  if Absolute userPath then .ok [slash]
  else if dirFd ≠ atFdcwd then do
    let result ← readlinkProcPidFd link dirFd
    if Absolute result then .ok result else status (-enotdir)
  else
    -- The directory of the tracer, where that of the tracee is meant.
    match getcwd with
    | .error errno => status (-errno)
    | .ok cwd => .ok cwd

/-- The path of the host for a path of the tracee. -/
def translatePath (link : ℤ → Option Path) (getcwd : Getcwd) (dirFd : ℤ) (userPath : Path) :
    Except Stop Path := do
  let result ← basePath link getcwd dirFd userPath
  if Absolute result then joinPaths [result, userPath] else .error .assertion

section Translation

variable {link : ℤ → Option Path} {dirFd : ℤ} {userPath : Path}

/-- An absolute path is joined to the root. -/
theorem translatePath_absolute (getcwd : Getcwd) (h : Absolute userPath) :
    translatePath link getcwd dirFd userPath = joinPaths [[slash], userPath] := by
  have hbase : basePath link getcwd dirFd userPath = .ok [slash] := if_pos h
  rw [translatePath, hbase]
  rfl

/-- The error of `getcwd` is the result for a relative path. -/
theorem translatePath_error {errno : ℤ} (h : ¬Absolute userPath) :
    translatePath link (.error errno) atFdcwd userPath = status (-errno) := by
  have hbase : basePath link (.error errno) atFdcwd userPath = status (-errno) := if_neg h
  rw [translatePath, hbase]
  rfl

/-- The translation is by the working directory of the tracee exactly for an absolute path. -/
theorem translatePath_byTracee_iff (traceeCwd : Path) :
    ((∀ getcwd getcwd', translatePath link getcwd atFdcwd userPath =
        translatePath link getcwd' atFdcwd userPath) ∧
      (¬Absolute userPath → ∀ getcwd, translatePath link getcwd atFdcwd userPath =
        joinPaths [traceeCwd, userPath])) ↔ Absolute userPath := by
  constructor
  · rintro ⟨hconstant, -⟩
    by_contra hrelative
    have hverdict := hconstant (.error enoent) (.error erange)
    rw [translatePath_error hrelative, translatePath_error hrelative] at hverdict
    exact absurd hverdict (by decide)
  · refine fun habsolute => ⟨fun getcwd getcwd' => ?_, fun hnot => absurd habsolute hnot⟩
    rw [translatePath_absolute getcwd habsolute, translatePath_absolute getcwd' habsolute]

end Translation

/-! ## Front ends -/

section Fronts

variable {α : Type}

/-- A computation that has paths translated. -/
abbrev Front := Inquiry Path Path Stop

/-- What is returned, for the working directory of the tracer. -/
def Front.result (x : Front α) (link : ℤ → Option Path) (getcwd : Getcwd) : Except Stop α :=
  x.run (translatePath link getcwd atFdcwd)

/-- The paths that are translated, if the tracer is in the root directory. -/
def Front.paths (x : Front α) (link : ℤ → Option Path) : List Path :=
  x.asked (translatePath link (.ok [slash]) atFdcwd)

/-- A computation that has no path translated. -/
def Front.of (result : Except Stop α) : Front α := .done result

variable {x : Front α} {link : ℤ → Option Path}

/-- A sequence goes on from what its first part returns. -/
theorem Front.result_bind {β : Type} (f : α → Front β) (getcwd : Getcwd) :
    (x >>= f).result link getcwd = x.result link getcwd >>= fun a => (f a).result link getcwd :=
  Inquiry.run_bind f

/-- A relative path shows the error of `getcwd`. -/
theorem Front.result_error {errno : ℤ} (h : ∃ path ∈ x.paths link, ¬Absolute path) :
    x.result link (.error errno) = status (-errno) :=
  Inquiry.run_error
    (fun _ hpath => by rw [translatePath_absolute _ hpath, translatePath_absolute _ hpath])
    (fun _ hpath => translatePath_error hpath) h

/-- What is returned does not depend on the working directory of the tracer exactly if all paths
are absolute. -/
theorem Front.result_constant_iff :
    (∀ getcwd getcwd', x.result link getcwd = x.result link getcwd') ↔
      ∀ path ∈ x.paths link, Absolute path := by
  have hsame : ∀ (getcwd getcwd' : Getcwd) (path : Path), Absolute path →
      translatePath link getcwd atFdcwd path = translatePath link getcwd' atFdcwd path :=
    fun _ _ _ hpath => by rw [translatePath_absolute _ hpath, translatePath_absolute _ hpath]
  have hne : Stop.status (-enoent) ≠ Stop.status (-erange) := by decide
  exact Inquiry.run_constant_iff (fun getcwd => translatePath link getcwd atFdcwd) hsame hne
    (fun _ hpath => translatePath_error hpath) (fun _ hpath => translatePath_error hpath) _

end Fronts

end Abyss.Execve
