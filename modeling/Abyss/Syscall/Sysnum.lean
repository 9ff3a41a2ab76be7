import Mathlib.Data.List.Basic
import Mathlib.Data.Nat.Notation

/-!
# Neutral syscall numbers

The tracer names syscalls by a neutral enumeration, independent of the ABI of the tracee.
The enumeration follows `sysnums.list`; a C enumeration also holds integers that it does not
name, starting with `PR_NB_SYSNUM`, and these are kept apart in `other`.
-/

namespace Abyss

/-- The neutral value of a syscall; `void` is no syscall at all. -/
inductive Sysnum where
  | void | ARM_BASE | ARM_breakpoint | ARM_cacheflush | ARM_set_tls | ARM_usr26 | ARM_usr32
  | X32_SYSCALL_BIT | _llseek | _newselect | _sysctl | accept | accept4 | access | acct | add_key
  | adjtimex | afs_syscall | alarm | arch_prctl | arch_specific_syscall | arm_fadvise64_64
  | arm_sync_file_range | bdflush | bind | «break» | brk | cacheflush | capget | capset | chdir
  | chmod | chown | chown32 | chroot | clock_adjtime | clock_getres | clock_gettime
  | clock_nanosleep | clock_settime | clone | close | connect | creat | create_module
  | delete_module | dup | dup2 | dup3 | epoll_create | epoll_create1 | epoll_ctl | epoll_ctl_old
  | epoll_pwait | epoll_wait | epoll_wait_old | eventfd | eventfd2 | execve | execveat | exit
  | exit_group | faccessat | faccessat2 | fadvise64 | fadvise64_64 | fallocate | fanotify_init
  | fanotify_mark | fchdir | fchmod | fchmodat | fchown | fchown32 | fchownat | fcntl | fcntl64
  | fdatasync | fgetxattr | finit_module | flistxattr | flock | fork | fremovexattr | fsetxattr
  | fstat | fstat64 | fstatat64 | fstatfs | fstatfs64 | fsync | ftime | ftruncate | ftruncate64
  | futex | futimesat | get_kernel_syms | get_mempolicy | get_robust_list | get_thread_area
  | getcpu | getcwd | getdents | getdents64 | getegid | getegid32 | geteuid | geteuid32 | getgid
  | getgid32 | getgroups | getgroups32 | getitimer | getpeername | getpgid | getpgrp | getpid
  | getpmsg | getppid | getpriority | getresgid | getresgid32 | getresuid | getresuid32
  | getrlimit | getrusage | getsid | getsockname | getsockopt | gettid | gettimeofday | getuid
  | getuid32 | getxattr | gtty | idle | init_module | inotify_add_watch | inotify_init
  | inotify_init1 | inotify_rm_watch | io_cancel | io_destroy | io_getevents | io_setup
  | io_submit | ioctl | ioperm | iopl | ioprio_get | ioprio_set | ipc | kcmp | kexec_file_load
  | kexec_load | keyctl | kill | lchown | lchown32 | lgetxattr | link | linkat | listen
  | listxattr | llistxattr | lock | lookup_dcookie | lremovexattr | lseek | lsetxattr | lstat
  | lstat64 | madvise | mbind | migrate_pages | mincore | mkdir | mkdirat | mknod | mknodat
  | mlock | mlockall | mmap | mmap2 | modify_ldt | mount | move_pages | mprotect | mpx
  | mq_getsetattr | mq_notify | mq_open | mq_timedreceive | mq_timedsend | mq_unlink | mremap
  | msgctl | msgget | msgrcv | msgsnd | msync | munlock | munlockall | munmap | name_to_handle_at
  | nanosleep | newfstatat | nfsservctl | nice | oldfstat | oldlstat | oldolduname | oldstat
  | olduname | «open» | open_by_handle_at | openat | pause | pciconfig_iobase | pciconfig_read
  | pciconfig_write | perf_event_open | personality | pipe | pipe2 | pivot_root | poll | ppoll
  | prctl | pread64 | preadv | prlimit64 | process_vm_readv | process_vm_writev | prof | profil
  | pselect6 | ptrace | putpmsg | pwrite64 | pwritev | query_module | quotactl | read | readahead
  | readdir | readlink | readlinkat | readv | reboot | recv | recvfrom | recvmmsg | recvmsg
  | remap_file_pages | removexattr | rename | renameat | renameat2 | request_key
  | restart_syscall | rmdir | rt_sigaction | rt_sigpending | rt_sigprocmask | rt_sigqueueinfo
  | rt_sigreturn | rt_sigsuspend | rt_sigtimedwait | rt_tgsigqueueinfo | sched_get_priority_max
  | sched_get_priority_min | sched_getaffinity | sched_getattr | sched_getparam
  | sched_getscheduler | sched_rr_get_interval | sched_setaffinity | sched_setattr
  | sched_setparam | sched_setscheduler | sched_yield | security | select | semctl | semget
  | semop | semtimedop | send | sendfile | sendfile64 | sendmmsg | sendmsg | sendto
  | set_mempolicy | set_robust_list | set_thread_area | set_tid_address | setdomainname
  | setfsgid | setfsgid32 | setfsuid | setfsuid32 | setgid | setgid32 | setgroups | setgroups32
  | sethostname | setitimer | setns | setpgid | setpriority | setregid | setregid32 | setresgid
  | setresgid32 | setresuid | setresuid32 | setreuid | setreuid32 | setrlimit | setsid
  | setsockopt | settimeofday | setuid | setuid32 | setxattr | sgetmask | shmat | shmctl | shmdt
  | shmget | shutdown | sigaction | sigaltstack | signal | signalfd | signalfd4 | sigpending
  | sigprocmask | sigreturn | sigsuspend | socket | socketcall | socketpair | splice | ssetmask
  | stat | stat64 | statfs | statfs64 | stime | stty | swapoff | swapon | symlink | symlinkat
  | sync | sync_file_range | sync_file_range2 | syncfs | sysfs | sysinfo | syslog | tee | tgkill
  | time | timer_create | timer_delete | timer_getoverrun | timer_gettime | timer_settime
  | timerfd_create | timerfd_gettime | timerfd_settime | times | tkill | truncate | truncate64
  | tuxcall | ugetrlimit | ulimit | umask | umount | umount2 | uname | unlink | unlinkat
  | unshare | uselib | ustat | utime | utimensat | utimes | vfork | vhangup | vm86 | vm86old
  | vmsplice | vserver | wait4 | waitid | waitpid | write | writev | x32_execve
  | x32_get_robust_list | x32_ioctl | x32_kexec_load | x32_move_pages | x32_mq_notify
  | x32_preadv | x32_process_vm_readv | x32_process_vm_writev | x32_ptrace | x32_pwritev
  | x32_readv | x32_recvfrom | x32_recvmmsg | x32_recvmsg | x32_rt_sigaction | x32_rt_sigpending
  | x32_rt_sigqueueinfo | x32_rt_sigreturn | x32_rt_sigtimedwait | x32_rt_tgsigqueueinfo
  | x32_sendmmsg | x32_sendmsg | x32_set_robust_list | x32_sigaltstack | x32_timer_create
  | x32_vmsplice | x32_waitid | x32_writev | statx | utimensat_time64
  | other (n : ℕ)
deriving DecidableEq

/-- The integer that represents a neutral value, in the order of the enumeration. -/
def Sysnum.toNat : Sysnum → ℕ
  | .other n => 436 + n
  | s => s.ctorIdx

/-- The calling conventions of a tracee. -/
inductive Abi where
  | default
  | abi2
  | abi3
deriving DecidableEq

end Abyss
