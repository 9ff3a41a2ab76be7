import Abyss.Tracee.Event
import Mathlib.Data.List.Permutation

/-!
# Ptrace requests and missing tracers

A process that asks to be traced by its parent is attached to the parent's record, which it
does not have if it was attached as a root or if its parent is dead. Every other request finds
both the tracer and the ptracee before it uses them.
-/

namespace Abyss

open Machine

section Requests

variable (s : Setup)

/-- The request of the ptrace syscall that a tracee has entered. -/
def ptraceRequestOf (r : Ref) (w : World) : ℕ :=
  peekReg ((w.heap r).mode s.target) (w.heap r).regs .original .sysarg1

/-- The pid of that syscall, with the sign it has. -/
def ptracePidWord (r : Ref) (w : World) : ℕ :=
  let m := (w.heap r).mode s.target
  let word := peekReg m (w.heap r).regs .original .sysarg2
  if m.is32on64 ∧ word = 0xFFFFFFFF then s.target.syscallAvoider else word

/-- What is emulated only depends on the registers of the entry. -/
theorem translatePtraceExit_apply (handle : Ref → ℤ → Prog ℤ) (r : Ref) (w : World) :
    translatePtraceExit s handle r w =
      (if ptraceRequestOf s r w = ptraceTraceme then tracemeRequest s r
      else if ptraceRequestOf s r w = ptraceAttach then
        attachRequest s r (toInt (ptracePidWord s r w))
      else
        match getStoppedPtracee w r (toInt (ptracePidWord s r w)) false (2 ^ 30) with
        | none => pure (-esrch)
        | some ptracee =>
          if (w.heap ptracee).asPtracee.isZombie ∨ (w.heap ptracee).asPtracee.ptracer ≠ some r ∨
              ptracePidWord s r w = s.target.syscallAvoider then pure (-esrch)
          else
            ptraceeRequest s handle r ptracee (ptraceRequestOf s r w)
              (toInt (ptracePidWord s r w))
              (peekReg ((w.heap r).mode s.target) (w.heap r).regs .original .sysarg3)
              (peekReg ((w.heap r).mode s.target) (w.heap r).regs .original .sysarg4)) w := by
  unfold translatePtraceExit
  rw [bind_apply_ok (peek_apply ..), bind_apply_ok (peek_apply ..),
    bind_apply_ok (peek_apply ..), bind_apply_ok (peek_apply ..), bind_apply_ok (tracee_apply ..)]
  by_cases htraceme : ptraceRequestOf s r w = ptraceTraceme
  · rw [if_pos htraceme]
    exact congrFun (if_pos htraceme) w
  · rw [if_neg htraceme]
    refine (congrFun (if_neg htraceme) w).trans ?_
    by_cases hattach : ptraceRequestOf s r w = ptraceAttach
    · rw [if_pos hattach]
      exact congrFun (if_pos hattach) w
    · rw [if_neg hattach]
      refine (congrFun (if_neg hattach) w).trans ?_
      rw [bind_apply_ok (read_apply w)]
      rfl

/-! ## Requests of a ptracer -/

section Primitives

variable {e : Fault}

/-- To read a record does not fault. -/
theorem tracee_avoids (r : Ref) : Avoids e (tracee r) := fun _ heq => nomatch heq

/-- Nor does it to change one. -/
theorem update_avoids (r : Ref) (f : Tracee → Tracee) : Avoids e (update r f) :=
  fun _ heq => nomatch heq

/-- Nor does a question to the host. -/
theorem ask_avoids (c : Call) : Avoids e (ask s c) := fun _ heq => nomatch heq

/-- Nor does it to follow a pointer that is not null. -/
theorem deref_avoids (p : Ref) : Avoids e (deref (some p)) := fun _ heq => nomatch heq

end Primitives

/-- A restart does not follow a null pointer. -/
theorem restartTracee_avoids (r : Ref) (signal : ℤ) :
    Avoids Fault.nullPointer (restartTracee s r signal) := by
  intro w
  rcases restartTracee_cases s r signal w with ⟨-, h⟩ | ⟨-, -, h⟩ | ⟨-, -, h⟩ <;>
    rw [h] <;> exact fun heq => nomatch heq

/-- A question whose error is given back follows none. -/
theorem askOrReturn_avoids {c : Call} {next : Reply → Prog ℤ}
    (h : ∀ reply, Avoids Fault.nullPointer (next reply)) :
    Avoids Fault.nullPointer (askOrReturn s c next) :=
  Avoids.bind (ask_avoids s c) fun reply => Avoids.ite (Avoids.pure _) (h reply)

/-- Nor does one whose error is replaced. -/
theorem askOrFail_avoids {c : Call} {next : Reply → Prog ℤ}
    (h : ∀ reply, Avoids Fault.nullPointer (next reply)) :
    Avoids Fault.nullPointer (askOrFail s c next) :=
  Avoids.bind (ask_avoids s c) fun reply => Avoids.ite (Avoids.pure _) (h reply)

/-- Nor does the conversion of an offset. -/
theorem convertUser_avoids (m : Mode) : Avoids Fault.nullPointer (convertUser m) :=
  Avoids.ite (Avoids.pure ()) (Avoids.fault (by decide))

/-- The requests that leave the ptracee stopped only follow the pointer to the caller. -/
theorem passiveRequest_avoids (ptracer : Ref) (request : ℕ) (pid : ℤ) (address data : ℕ) :
    Avoids Fault.nullPointer (passiveRequest s ptracer request pid address data) := by
  have hdone : ∀ reply : Reply, Avoids Fault.nullPointer (pure 0 : Prog ℤ) :=
    fun _ => Avoids.pure 0
  have hask : ∀ {c : Call}, Avoids Fault.nullPointer (askOrReturn s c fun _ => pure 0) :=
    askOrReturn_avoids s hdone
  refine Avoids.bind (tracee_avoids ptracer) fun p => ?_
  refine Avoids.ite (askOrReturn_avoids s fun _ => hask) ?_
  refine Avoids.ite (Avoids.bind (convertUser_avoids _) fun _ =>
    askOrReturn_avoids s fun _ => hask) ?_
  refine Avoids.ite (askOrReturn_avoids s fun _ => hask) ?_
  refine Avoids.ite (Avoids.bind (convertUser_avoids _) fun _ => hask) ?_
  refine Avoids.ite (Avoids.ite (askOrReturn_avoids s fun _ => hask) hask) ?_
  refine Avoids.ite (askOrReturn_avoids s fun _ => hask) ?_
  refine Avoids.ite (askOrReturn_avoids s fun _ => hask) ?_
  refine Avoids.ite (askOrReturn_avoids s fun _ =>
    Avoids.bind (convertUser_avoids _) fun _ => hask) ?_
  refine Avoids.ite (askOrReturn_avoids s fun _ =>
    Avoids.bind (convertUser_avoids _) fun _ => hask) ?_
  refine Avoids.ite (askOrReturn_avoids s fun _ => hask) ?_
  refine Avoids.ite (askOrReturn_avoids s fun _ => Avoids.ite (Avoids.pure _) hask) ?_
  refine Avoids.ite ?_ (Avoids.ite ?_ (Avoids.ite hask (Avoids.pure _)))
  · refine askOrReturn_avoids s fun base => askOrReturn_avoids s fun length => ?_
    refine askOrReturn_avoids s fun _ => askOrFail_avoids s fun _ => ?_
    exact askOrReturn_avoids s fun _ => hask
  · refine askOrReturn_avoids s fun base => askOrReturn_avoids s fun length => ?_
    refine askOrReturn_avoids s fun _ => askOrReturn_avoids s fun _ => ?_
    exact askOrFail_avoids s hdone

/-- A ptracee that has a tracer is detached from it, unless the tracer's count is wrong. -/
theorem detachFromPtracer_nullSafe {ptracee p : Ref} {w : World}
    (h : (w.heap ptracee).asPtracee.ptracer = some p) :
    (detachFromPtracer ptracee w).1 ≠ .error .nullPointer := by
  unfold detachFromPtracer
  rw [bind_apply_ok (tracee_apply ..), bind_apply_ok (update_apply ..), h]
  rw [bind_apply_ok (show deref (some p) _ = (.ok p, _) from rfl), bind_apply_ok (tracee_apply ..)]
  exact Avoids.bind (Avoids.when (Avoids.fault (by decide))) (fun _ => update_avoids _ _) _

section Handled

variable {handle : Ref → ℤ → Prog ℤ} (hhandle : ∀ q status, Avoids .nullPointer (handle q status))
include hhandle

/-- Nor does it to resume a ptracee. -/
theorem resumePtracee_avoids (ptracee : Ref) (forcedSignal status : ℤ) :
    Avoids Fault.nullPointer (resumePtracee s handle ptracee forcedSignal status) := by
  refine Avoids.bind (tracee_avoids ptracee) fun t => ?_
  refine Avoids.bind (Avoids.ite (hhandle _ _) (Avoids.pure _)) fun signal => ?_
  exact Avoids.bind (restartTracee_avoids s _ _) fun _ => Avoids.pure _

/-- A request about a ptracee of the caller uses no other tracer. -/
theorem ptraceeRequest_nullSafe {ptracer ptracee : Ref} (request : ℕ) (pid : ℤ)
    (address data : ℕ) {w : World} (h : (w.heap ptracee).asPtracee.ptracer = some ptracer) :
    (ptraceeRequest s handle ptracer ptracee request pid address data w).1 ≠
      .error .nullPointer := by
  have hresume : ∀ forced status,
      Avoids Fault.nullPointer (resumePtracee s handle ptracee forced status) :=
    fun _ _ => resumePtracee_avoids s hhandle _ _ _
  have hupdate : ∀ f, Avoids Fault.nullPointer (update ptracee f) := update_avoids ptracee
  unfold ptraceeRequest
  split
  · exact Avoids.bind (hupdate _) (fun _ => hresume _ _) w
  split
  · exact Avoids.bind (hupdate _) (fun _ => hresume _ _) w
  split
  · exact Avoids.bind (hupdate _) (fun _ => hresume _ _) w
  split
  · exact Avoids.bind (hupdate _) (fun _ => hresume _ _) w
  split
  · exact bind_avoids_at (detachFromPtracer_nullSafe h) fun _ w' _ => hresume _ _ w'
  split
  · exact Avoids.bind (ask_avoids s _) (fun _ => hresume _ _) w
  split
  · refine Avoids.ite (Avoids.pure _) ?_ w
    exact Avoids.bind (hupdate _) fun _ => Avoids.pure _
  · exact passiveRequest_avoids s ptracer request pid address data w

end Handled

/-! ## Requests that name a tracer -/

/-- Nor does it to attach to a ptracer that is there. -/
theorem attachToPtracer_avoids (ptracee p : Ref) :
    Avoids Fault.nullPointer (attachToPtracer ptracee (some p)) :=
  Avoids.bind (update_avoids _ _) fun _ => Avoids.bind (deref_avoids p) fun _ => update_avoids _ _

/-- The caller of an attach request is the tracer itself. -/
theorem attachRequest_avoids (ptracer : Ref) (pid : ℤ) :
    Avoids Fault.nullPointer (attachRequest s ptracer pid) := by
  have hfind : Avoids Fault.nullPointer (getTracee s (some ptracer) pid false) := by
    refine Avoids.bind Avoids.read fun w => ?_
    split
    · exact Avoids.pure _
    · split
      · exact Avoids.pure _
      · exact Avoids.pure none
  refine Avoids.bind hfind fun found => ?_
  split
  · exact Avoids.pure _
  · refine Avoids.bind (tracee_avoids _) fun t => Avoids.ite (Avoids.pure _) ?_
    refine Avoids.bind (attachToPtracer_avoids _ _) fun _ => ?_
    exact Avoids.bind (ask_avoids s _) fun _ => Avoids.pure 0

/-- A tracee that already has a tracer cannot ask for another one. -/
theorem tracemeRequest_refused {r : Ref} {w : World}
    (h : (w.heap r).asPtracee.ptracer ≠ none) : tracemeRequest s r w = (.ok (-eperm), w) := by
  unfold tracemeRequest
  rw [bind_apply_ok (tracee_apply ..)]
  exact congrFun (if_pos (Or.inl h)) w

/-- Without a tracer, the parent is followed whether there is one or not. -/
theorem tracemeRequest_orphan {r : Ref} {w : World} (hptracer : (w.heap r).asPtracee.ptracer = none)
    (hparent : (w.heap r).parent = none) :
    (tracemeRequest s r w).1 = .error .nullPointer := by
  have hfree : ¬((w.heap r).asPtracee.ptracer ≠ none ∨ (w.heap r).parent = some r) := by
    simp [hptracer, hparent]
  unfold tracemeRequest
  rw [bind_apply_ok (tracee_apply ..)]
  refine (congrArg Prod.fst (congrFun (if_neg hfree) w)).trans ?_
  rw [hparent]
  rfl

/-- With a parent, nothing else is followed. -/
theorem tracemeRequest_parent {r p : Ref} {w : World} (hparent : (w.heap r).parent = some p) :
    (tracemeRequest s r w).1 ≠ .error .nullPointer := by
  unfold tracemeRequest
  rw [bind_apply_ok (tracee_apply ..)]
  refine Avoids.ite (Avoids.pure _) ?_ w
  rw [hparent]
  refine Avoids.bind (attachToPtracer_avoids r p) fun _ => Avoids.bind (deref_avoids p) fun q => ?_
  refine Avoids.bind (tracee_avoids q) fun t => Avoids.bind (Avoids.when ?_) fun _ => ?_
  · exact Avoids.bind (ask_avoids s _) fun _ => Avoids.when (update_avoids _ _)
  · exact Avoids.bind (update_avoids _ _) fun _ => Avoids.pure 0

/-- A ptrace request uses no missing tracer of its own, however well the events on the way are
handled, and without a parent the request to be traced by it fails and changes nothing. -/
def RequestNullSafe (r : Ref) (w : World) : Prop :=
  (∀ handle, (∀ q status, Avoids .nullPointer (handle q status)) →
      (translatePtraceExit s handle r w).1 ≠ .error .nullPointer) ∧
    (ptraceRequestOf s r w = ptraceTraceme → (w.heap r).parent = none →
      ∀ handle, ∃ e < 0, translatePtraceExit s handle r w = (.ok e, w))

/-- A ptrace request uses a missing tracer exactly if it is the one to be traced by a parent that
the tracer does not know, made by a tracee without a tracer. -/
theorem translatePtraceExit_nullSafe_iff (r : Ref) (w : World) :
    RequestNullSafe s r w ↔
      ¬(ptraceRequestOf s r w = ptraceTraceme ∧ (w.heap r).asPtracee.ptracer = none ∧
        (w.heap r).parent = none) := by
  constructor
  · rintro ⟨hsafe, -⟩ ⟨hrequest, hptracer, hparent⟩
    refine hsafe (fun _ _ => pure 0) (fun _ _ => Avoids.pure 0) ?_
    rw [translatePtraceExit_apply, if_pos hrequest]
    exact tracemeRequest_orphan s hptracer hparent
  · intro h
    refine ⟨fun handle hhandle => ?_, fun hrequest hparent handle => ?_⟩
    · rw [translatePtraceExit_apply]
      split
      · rename_i hrequest
        cases hptracer : (w.heap r).asPtracee.ptracer with
        | some q =>
          rw [tracemeRequest_refused s (by simp [hptracer])]
          exact fun heq => nomatch heq
        | none =>
          cases hparent : (w.heap r).parent with
          | none => exact absurd ⟨hrequest, hptracer, hparent⟩ h
          | some p => exact tracemeRequest_parent s hparent
      split
      · exact attachRequest_avoids s r _ w
      · cases hfound : getStoppedPtracee w r (toInt (ptracePidWord s r w)) false (2 ^ 30) with
        | none => exact Avoids.pure _ w
        | some ptracee =>
          dsimp only
          split
          · exact Avoids.pure _ w
          · rename_i hchecked
            push Not at hchecked
            exact ptraceeRequest_nullSafe s hhandle _ _ _ _ hchecked.2.1
    · have hptracer : (w.heap r).asPtracee.ptracer ≠ none := fun hnone => h ⟨hrequest, hnone, hparent⟩
      refine ⟨-eperm, by decide, ?_⟩
      rw [translatePtraceExit_apply, if_pos hrequest]
      exact tracemeRequest_refused s hptracer

end Requests

/-! ## A root that asks to be traced -/

/-- The process 5 is attached as a root and asks to be traced by its parent. -/
def rootTracemeScript : Script where
  banks := [syscallBank 117 0 0 0 0, syscallBank 117 0 0 0 0]

/-- The attachment, the stop it causes, the entry of the request, and its exit. -/
def rootTracemeInputs : List Input :=
  [.traceNewPid 5, .stop 99 0xff00, .stop 5 0x137f, .stop 5 0x57f]

/-- The first tracee has entered the request, with neither a tracer nor a parent. -/
def EnteredTraceme (s : Setup) (outcome : Except Fault Unit × World) : Prop :=
  outcome.1.isOk = true ∧ ptraceRequestOf s 0 outcome.2 = ptraceTraceme ∧
    (outcome.2.heap 0).asPtracee.ptracer = none ∧ (outcome.2.heap 0).parent = none

instance (s : Setup) (outcome : Except Fault Unit × World) :
    Decidable (EnteredTraceme s outcome) :=
  inferInstanceAs (Decidable (_ ∧ _))

set_option maxRecDepth 100000 in
/-- The root asks to be traced. -/
theorem rootTraceme_entered :
    EnteredTraceme rootTracemeScript.setup (rootTracemeScript.play rootTracemeInputs) := by
  decide_cbv

set_option maxRecDepth 100000 in
/-- At the exit of the syscall the tracer faults. -/
theorem rootTraceme_exit :
    (eventLoop rootTracemeScript.setup 3 (.stop 5 0x857f)
      (rootTracemeScript.play rootTracemeInputs).2).1 = .error .nullPointer := by
  decide_cbv

/-- In a run a root has entered the request, and the tracer crashes at its exit. -/
theorem rootTraceme_crashes :
    ∃ w, Run (eventLoop rootTracemeScript.setup 3) (fun _ _ => True) World.initial w ∧
      ¬RequestNullSafe rootTracemeScript.setup 0 w ∧
      (eventLoop rootTracemeScript.setup 3 (.stop 5 0x857f) w).1 = .error .nullPointer := by
  obtain ⟨hok, hrequest, hptracer, hparent⟩ := rootTraceme_entered
  refine ⟨_, Script.play_run hok, fun hsafe => ?_, rootTraceme_exit⟩
  refine hsafe.1 (fun _ _ => pure 0) (fun _ _ => Avoids.pure 0) ?_
  rw [translatePtraceExit_apply, if_pos hrequest]
  exact tracemeRequest_orphan _ hptracer hparent

end Abyss
