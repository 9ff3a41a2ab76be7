import Abyss.Library.ClassicBpf
import Abyss.Library.Outcome
import Abyss.Library.Machine
import Abyss.Library.Approximation
import Abyss.Syscall.FilterLibc
import Abyss.Syscall.RequiredSysnums
import Abyss.Syscall.Filtering
import Abyss.Tracee.Frame
import Abyss.Ptrace.HiddenExit
import Abyss.Ptrace.MissingTracer
import Abyss.Syscall.RegisterFile
import Abyss.Syscall.NewImage
import Abyss.Library.RefCount
import Abyss.Tracee.Links
import Abyss.Tracee.Change
import Abyss.Tracee.Handling
import Abyss.Tracee.Deferred
import Abyss.Tracee.Orderly
import Abyss.Ptrace.Removal
import Abyss.Tracee.Round
import Abyss.Ptrace.Accounting
import Abyss.Tracee.Nesting
import Abyss.Ptrace.Dangling
import Abyss.Ptrace.Release
import Abyss.Svcer.HookFilter
import Abyss.Library.LinkedList
import Abyss.Svcer.Registry
import Abyss.Svcer.Dispatch
import Abyss.Library.Bytes
import Abyss.Tracee.Mem
import Abyss.Tracee.MemData
import Abyss.Tracee.MemString
import Abyss.Tracee.MemFrame
import Abyss.Syscall.Sysarg
import Abyss.Execve.Path
import Abyss.Library.Inquiry
import Abyss.Execve.Shebang
import Abyss.Execve.Enter
import Abyss.Execve.FirstLine
import Abyss.Execve.Interpreters
import Abyss.Execve.ProgramHeaders
import Abyss.Execve.ShebangText
import Abyss.Library.Steps
import Abyss.Syscall.SysnumValues
import Abyss.Syscall.SysnumArray
import Abyss.Tracee.Chained
import Abyss.Attach.Handshake
import Abyss.Syscall.ExitRegisters
import Abyss.Syscall.EnterRegisters
import Abyss.Syscall.Restored
import Abyss.Syscall.StackAllocation
import Abyss.Syscall.Cancelled
import Abyss.Syscall.Arguments
import Abyss.Syscall.Reexecution
import Abyss.Execve.LoadInfo
import Abyss.Execve.Verdict
import Abyss.Execve.Replies
import Abyss.Cmn.Utils
import Abyss.Loader.Clear
import Abyss.Path.Join
import Abyss.Library.Separated
import Abyss.Path.Components
import Abyss.Path.Substitute
import Abyss.Path.PrefixAlgebra
import Abyss.Library.DeepestFirst
import Abyss.Path.Binding
import Abyss.Execve.Mapping
import Abyss.Execve.SegmentLoad
import Abyss.Library.Hull
import Abyss.Svcer.Disposition
import Abyss.Svcer.Finder
import Abyss.Execve.Auxv
import Abyss.Loader.Script
import Abyss.Loader.RoundTrip
import Abyss.Loader.Execution
import Abyss.Loader.Performed
import Abyss.Cmn.Strings
import Abyss.Ptrace.Failures
import Abyss.Tracee.Birth
import Abyss.Tracee.BirthOrder
import Abyss.Execve.Extract
import Abyss.Loader.Process
import Abyss.Loader.Image
import Abyss.Execve.Verdict
