import Abyss.Tracee.Event

/-!
# What the translation of syscalls leaves alone

Most of what the tracer does for a syscall reads and writes registers, and asks its host. The
core of the world forgets all that: the registers, a few fields that only the translation uses,
and the calls that are not marks. A program is quiet if it keeps the core, and an invariant
that only speaks about the core survives every quiet program.
-/

namespace Abyss

open Machine

/-- The marks, and the user's call at the exit of a syscall. -/
def Call.isMark : Call → Bool
  | .stopped .. | .handled .. | .enterStage .. | .exitStage .. | .waking .. | .restarted ..
  | .created .. | .contextStored .. | .unreadable .. | .waitRestarted .. | .freed .. |
    .onSysexit .. => true
  | _ => false

/-- What is left of a record without the fields that only the translation of syscalls uses. -/
def Tracee.core (t : Tracee) : Tracee :=
  { t with
    regs := ⟨zeroBank, zeroBank, zeroBank, false, false⟩
    loadInfo := none
    isAarch32 := false
    asPtracer := { t.asPtracer with waitsIn := .doesntWait }
    asPtracee := { t.asPtracee with ignoreLoaderSyscalls := false } }

/-- The world with nothing but the core of its records, and the marks. -/
def World.core (w : World) : World :=
  { w with heap := fun r => (w.heap r).core, calls := w.calls.filter Call.isMark }

/-- A change within a record that keeps its core keeps the core of the world. -/
theorem World.update_core (w : World) (r : Ref) {f : Tracee → Tracee}
    (h : ∀ t, (f t).core = t.core) : (w.update r f).core = w.core := by
  have hheap : ∀ q, ((w.update r f).heap q).core = (w.heap q).core := by
    intro q
    rw [World.update_heap]
    split
    · subst q
      exact h _
    · rfl
  exact congrArg (fun heap => { w.core with heap := heap }) (funext hheap)

/-- A call that is no mark keeps the core. -/
theorem World.log_core (w : World) {c : Call} (h : c.isMark = false) :
    (w.log c).core = w.core := by
  simp [World.core, World.log, h]

/-- The search for a ptracee only looks at the core of the records. -/
theorem findPtracee_core (w : World) (ptracer : Ref) (pid : ℤ) (onlyStopped onlyWithPevent : Bool)
    (options : ℕ) (refs : List Ref) :
    findPtracee w.core ptracer pid onlyStopped onlyWithPevent options refs =
      findPtracee w ptracer pid onlyStopped onlyWithPevent options refs := by
  induction refs with
  | nil => rfl
  | cons r rest ih =>
    rw [findPtracee, findPtracee, ih]
    rfl

/-- So do the zombies. -/
theorem getPtracee_core (w : World) (ptracer : Ref) (pid : ℤ) (onlyStopped onlyWithPevent : Bool)
    (options : ℕ) :
    getPtracee w.core ptracer pid onlyStopped onlyWithPevent options =
      getPtracee w ptracer pid onlyStopped onlyWithPevent options := by
  unfold getPtracee
  rw [findPtracee_core]
  rfl

/-! ## Invariants of the primitive programs -/

section Primitives

variable {P : World → Prop} {E : Fault → World → Prop}

/-- To read a record keeps an invariant. -/
theorem tracee_keeps (r : Ref) : Keeps P E (tracee r) := by
  intro w hw
  refine ⟨fun t w' h => ?_, fun e w' h => ?_⟩
  · obtain ⟨-, rfl⟩ := Prod.mk.inj h
    exact hw
  · cases h

/-- A change of a record keeps what it preserves. -/
theorem update_keeps {r : Ref} {f : Tracee → Tracee} (h : ∀ w, P w → P (w.update r f)) :
    Keeps P E (update r f) :=
  Keeps.modify h

/-- A mark keeps what it preserves. -/
theorem mark_keeps {c : Call} (h : ∀ w, P w → P (w.log c)) : Keeps P E (mark c) :=
  Keeps.modify h

/-- An assertion keeps an invariant, if its fault is allowed. -/
theorem assert_keeps (hE : ∀ w, P w → E .assertion w) (c : Bool) : Keeps P E (assert c) :=
  Keeps.ite (fun _ => Keeps.pure ()) fun _ => Keeps.fault hE

/-- So does it to follow a pointer. -/
theorem deref_keeps (hE : ∀ w, P w → E .nullPointer w) (r : Option Ref) : Keeps P E (deref r) := by
  cases r with
  | none => exact Keeps.fault hE
  | some r => exact Keeps.pure r

/-- After a record is read, the continuation may use what it says. -/
theorem Triple.tracee_bind {α : Type} {R : α → World → Prop} {r : Ref} {f : Tracee → Prog α}
    (h : ∀ t, Triple (fun w => P w ∧ w.heap r = t) (f t) R E) : Triple P (tracee r >>= f) R E := by
  intro w hw
  rw [bind_apply_ok (tracee_apply r w)]
  exact h _ w ⟨hw, rfl⟩

/-- Detaching a ptracee only writes its ptracer, and the ptracees of one. -/
theorem detachFromPtracer_keeps {q : Ref} (hE : ∀ e w, P w → E e w)
    (hptracee : Keeps P E (update q fun t =>
      { t with asPtracee := { t.asPtracee with ptracer := none } }))
    (hptracer : ∀ p (f : AsPtracer → AsPtracer), Keeps P E (update p fun t =>
      { t with asPtracer := f t.asPtracer })) : Keeps P E (detachFromPtracer q) := by
  refine Keeps.bind (tracee_keeps q) fun _ => Keeps.bind hptracee fun _ => ?_
  refine Keeps.bind (deref_keeps (hE _) _) fun p => Keeps.bind (tracee_keeps p) fun _ => ?_
  exact Keeps.bind (Keeps.when fun _ => Keeps.fault (hE _)) fun _ =>
    hptracer p fun x => { x with nbPtracees := x.nbPtracees - 1 }

end Primitives

/-! ## Quiet programs -/

/-- A program that keeps the core of the world and all other records, whether it returns or
faults, and only faults as `E` allows. -/
def Quiet (r : Ref) (E : Fault → Prop) {α : Type} (x : Prog α) : Prop :=
  ∀ w, (x w).2.core = w.core ∧ (∀ q, q ≠ r → (x w).2.heap q = w.heap q) ∧
    ∀ e, (x w).1 = .error e → E e

section Quiet

variable {α β : Type} {r : Ref} {E : Fault → Prop}

/-- To return a value is quiet. -/
theorem Quiet.pure (a : α) : Quiet r E (pure a : Prog α) := fun _ => ⟨rfl, fun _ _ => rfl, nofun⟩

/-- A fault that is allowed is quiet. -/
theorem Quiet.fault {e : Fault} (h : E e) : Quiet r E (fault e : Prog α) :=
  fun _ => ⟨rfl, fun _ _ => rfl, fun _ heq => Except.error.inj heq ▸ h⟩

/-- To read the world is quiet. -/
theorem Quiet.read : Quiet r E (read : Prog World) := fun _ => ⟨rfl, fun _ _ => rfl, nofun⟩

/-- Quiet programs compose. -/
theorem Quiet.bind {x : Prog α} {f : α → Prog β} (hx : Quiet r E x)
    (hf : ∀ a, Quiet r E (f a)) : Quiet r E (x >>= f) := by
  intro w
  obtain ⟨hcore, hothers, hfault⟩ := hx w
  rcases h : x w with ⟨e | a, w'⟩
  · rw [bind_apply_error h]
    rw [h] at hcore hothers hfault
    exact ⟨hcore, hothers, fun e' heq => hfault e' (congrArg Except.error (Except.error.inj heq))⟩
  · rw [bind_apply_ok h]
    rw [h] at hcore hothers
    obtain ⟨hcore', hothers', hfault'⟩ := hf a w'
    exact ⟨hcore'.trans hcore, fun q hq => (hothers' q hq).trans (hothers q hq), hfault'⟩

/-- A conditional is quiet if its branches are. -/
theorem Quiet.ite {c : Prop} [Decidable c] {x y : Prog α} (hx : Quiet r E x)
    (hy : Quiet r E y) : Quiet r E (if c then x else y) := by
  split
  · exact hx
  · exact hy

/-- So is a guarded program. -/
theorem Quiet.when {c : Prop} [Decidable c] {x : Prog Unit} (hx : Quiet r E x) :
    Quiet r E (when c x) :=
  Quiet.ite hx (Quiet.pure ())

/-- A loop is quiet when each round is. -/
theorem Quiet.forEach {ι : Type} {f : ι → Prog Unit} (h : ∀ a, Quiet r E (f a))
    (items : List ι) : Quiet r E (forEach f items) := by
  induction items with
  | nil => exact Quiet.pure ()
  | cons a rest ih => exact Quiet.bind (h a) fun _ => ih

/-- To read a record is quiet. -/
theorem Quiet.tracee (q : Ref) : Quiet r E (tracee q) := fun _ => ⟨rfl, fun _ _ => rfl, nofun⟩

/-- A change that leaves the core of the record alone is quiet. -/
theorem Quiet.update {f : Tracee → Tracee} (h : ∀ t, (f t).core = t.core) :
    Quiet r E (update r f) :=
  fun w => ⟨w.update_core r h, fun q hq => by simp [update_apply, hq], nofun⟩

/-- A quiet program that may not fault returns. -/
theorem Quiet.returns {x : Prog α} (hx : Quiet r (fun _ => False) x) (w : World) :
    ∃ a v, x w = (.ok a, v) ∧ v.core = w.core ∧ ∀ q, q ≠ r → v.heap q = w.heap q := by
  obtain ⟨hcore, hothers, hfault⟩ := hx w
  rcases h : x w with ⟨e | a, v⟩
  · rw [h] at hfault
    exact (hfault e rfl).elim
  · rw [h] at hcore hothers
    exact ⟨a, v, rfl, hcore, hothers⟩

end Quiet

section Programs

variable (s : Setup) {q : Ref} {E : Fault → Prop}

/-- A question that is no mark is quiet. -/
theorem Quiet.ask {c : Call} (h : c.isMark = false) : Quiet q E (ask s c) :=
  fun w => ⟨w.log_core h, fun _ _ => rfl, nofun⟩

/-- To read a register is quiet. -/
theorem peek_quiet (r : Ref) (version : RegVersion) (reg : Reg) : Quiet q E (peek s r version reg) :=
  fun _ => ⟨rfl, fun _ _ => rfl, nofun⟩

/-- So is it to read the number of the syscall. -/
theorem sysnumOf_quiet (r : Ref) (version : RegVersion) : Quiet q E (sysnumOf s r version) :=
  fun _ => ⟨rfl, fun _ _ => rfl, nofun⟩

/-- A poke is quiet. -/
theorem poke_quiet (r : Ref) (reg : Reg) (value : ℕ) : Quiet r E (poke s r reg value) :=
  Quiet.update fun _ => rfl

/-- So is a change of the number. -/
theorem pokeSysnum_quiet (r : Ref) (sysnum : Sysnum) : Quiet r E (pokeSysnum s r sysnum) :=
  Quiet.update fun _ => rfl

/-- The pid for the callbacks is read quietly. -/
theorem callbackPid_quiet (r : Ref) : Quiet q E (callbackPid r) := fun _ => ⟨rfl, fun _ _ => rfl, nofun⟩

/-- The registers are read quietly. -/
theorem fetchRegs_quiet (r : Ref) : Quiet r E (fetchRegs s r) := by
  refine Quiet.bind (Quiet.tracee r) fun t => Quiet.bind (Quiet.ask s rfl) fun reply => ?_
  refine Quiet.ite (Quiet.pure _) ?_
  exact Quiet.bind (Quiet.update fun _ => rfl) fun _ => Quiet.pure 0

/-- They are written quietly, too. -/
theorem pushRegs_quiet (r : Ref) : Quiet r E (pushRegs s r) := by
  have hset : ∀ pid bank, Quiet r E (do
      let reply ← ask s (.setRegs pid bank)
      pure (if reply.status < 0 then reply.status else 0)) := fun _ _ =>
    Quiet.bind (Quiet.ask s rfl) fun _ => Quiet.pure _
  refine Quiet.bind (Quiet.tracee r) fun t => Quiet.ite ?_ (Quiet.pure 0)
  refine Quiet.bind (Quiet.update fun _ => rfl) fun _ => Quiet.bind (Quiet.tracee r) fun t => ?_
  refine Quiet.ite ?_ (hset _ _)
  exact Quiet.bind (Quiet.ask s rfl) fun _ => hset _ _

/-- The pokes of the user are quiet. -/
theorem applyPokes_quiet (r : Ref) (pokes : List (Reg × ℕ)) : Quiet r E (applyPokes s r pokes) :=
  Quiet.forEach (fun _ => poke_quiet s r _ _) pokes

/-- To kill all tracees is quiet for the tracer. -/
theorem killAllTracees_quiet : Quiet q E (killAllTracees s) :=
  Quiet.bind Quiet.read fun _ =>
    Quiet.forEach (fun _ => Quiet.bind (Quiet.ask s rfl) fun _ => Quiet.pure ()) _

/-- An assertion is quiet, if its fault is allowed. -/
theorem assert_quiet (h : E .assertion) (c : Bool) : Quiet q E (assert c) :=
  Quiet.ite (Quiet.pure ()) (Quiet.fault h)

/-! ## Quiet translations -/

/-- So is a question whose error is given back. -/
theorem askOrReturn_quiet {c : Call} (h : c.isMark = false) {next : Reply → Prog ℤ}
    (hnext : ∀ reply, Quiet q E (next reply)) : Quiet q E (askOrReturn s c next) :=
  Quiet.bind (Quiet.ask s h) fun reply => Quiet.ite (Quiet.pure _) (hnext reply)

/-- So is one whose error is replaced. -/
theorem askOrFail_quiet {c : Call} (h : c.isMark = false) {next : Reply → Prog ℤ}
    (hnext : ∀ reply, Quiet q E (next reply)) : Quiet q E (askOrFail s c next) :=
  Quiet.bind (Quiet.ask s h) fun reply => Quiet.ite (Quiet.pure _) (hnext reply)

/-- A notification is recognized quietly. -/
theorem isNotificationPtracedLoadDone_quiet (r : Ref) :
    Quiet q E (isNotificationPtracedLoadDone s r) := fun _ => ⟨rfl, fun _ _ => rfl, nofun⟩

/-- The headers of an executable are read quietly. -/
theorem extractLoadInfos_quiet (r : Ref) : Quiet r E (extractLoadInfos s r) := by
  refine Quiet.bind (Quiet.ask s rfl) fun reply => Quiet.bind (Quiet.update fun _ => rfl) fun _ => ?_
  refine Quiet.ite (Quiet.pure _) (Quiet.ite ?_ (Quiet.pure 0))
  exact askOrReturn_quiet s rfl fun _ => Quiet.pure _

/-- So is the path of an argument. -/
theorem sysargPath_quiet (r : Ref) (reg : Reg) : Quiet q E (sysargPath s r reg) := by
  refine Quiet.bind (peek_quiet s r _ _) fun address => Quiet.bind (Quiet.tracee r) fun t => ?_
  refine Quiet.bind (Quiet.ite (Quiet.pure _) (Quiet.ask s rfl)) fun path => ?_
  exact Quiet.pure _

/-- An `execve` is entered quietly. -/
theorem translateExecveEnter_quiet (r : Ref) : Quiet r E (translateExecveEnter s r) := by
  refine Quiet.bind (isNotificationPtracedLoadDone_quiet s r) fun notified => Quiet.ite ?_ ?_
  · refine Quiet.bind (Quiet.update fun _ => rfl) fun _ => ?_
    exact Quiet.bind (pokeSysnum_quiet s r _) fun _ => Quiet.pure 0
  · refine Quiet.bind (sysargPath_quiet s r _) fun path => Quiet.ite (Quiet.pure _) ?_
    refine Quiet.bind (Quiet.ask s rfl) fun rawPath => Quiet.ite (Quiet.pure _) ?_
    refine Quiet.bind (Quiet.ask s rfl) fun shebang => Quiet.ite (Quiet.pure _) ?_
    refine Quiet.bind (Quiet.update fun _ => rfl) fun _ => ?_
    refine Quiet.bind (Quiet.ask s rfl) fun info => Quiet.ite (Quiet.pure _) ?_
    refine Quiet.bind (Quiet.update fun _ => rfl) fun _ => ?_
    refine Quiet.bind (Quiet.ask s rfl) fun hostPath => Quiet.ite (Quiet.pure _) ?_
    refine Quiet.bind (Quiet.ask s rfl) fun userPath => Quiet.ite (Quiet.pure _) ?_
    exact extractLoadInfos_quiet s r

/-- It is left quietly, but for a null pointer. -/
theorem translateExecveExit_quiet (h : E .nullPointer) (r : Ref) :
    Quiet r E (translateExecveExit s r) := by
  refine Quiet.bind (isNotificationPtracedLoadDone_quiet s r) fun notified => Quiet.ite ?_ ?_
  · refine Quiet.bind (poke_quiet s r _ _) fun _ => Quiet.bind (pokeSysnum_quiet s r _) fun _ => ?_
    refine Quiet.bind (peek_quiet s r _ _) fun _ => Quiet.bind (poke_quiet s r _ _) fun _ => ?_
    refine Quiet.bind (peek_quiet s r _ _) fun _ => Quiet.bind (poke_quiet s r _ _) fun _ => ?_
    refine Quiet.bind (poke_quiet s r _ _) fun _ => Quiet.bind (poke_quiet s r _ _) fun _ => ?_
    refine Quiet.bind (Quiet.update fun _ => rfl) fun _ => Quiet.bind (Quiet.tracee r) fun t => ?_
    refine Quiet.bind (Quiet.ask s rfl) fun _ => Quiet.when ?_
    exact Quiet.bind (Quiet.ask s rfl) fun _ => Quiet.pure ()
  · split
    · exact Quiet.pure ()
    · refine Quiet.bind (Quiet.tracee r) fun t => ?_
      split
      · exact Quiet.fault h
      · exact Quiet.update fun _ => rfl

/-- An `execveat` is entered quietly. -/
theorem translateExecveatEnter_quiet (r : Ref) : Quiet r E (translateExecveatEnter s r) := by
  refine Quiet.bind (peek_quiet s r _ _) fun _ => Quiet.ite ?_ (Quiet.pure _)
  refine Quiet.bind (pokeSysnum_quiet s r _) fun _ => ?_
  refine Quiet.bind (peek_quiet s r _ _) fun _ => Quiet.bind (poke_quiet s r _ _) fun _ => ?_
  refine Quiet.bind (peek_quiet s r _ _) fun _ => Quiet.bind (poke_quiet s r _ _) fun _ => ?_
  refine Quiet.bind (peek_quiet s r _ _) fun _ => Quiet.bind (poke_quiet s r _ _) fun _ => ?_
  exact translateExecveEnter_quiet s r

/-- So is a wait. -/
theorem translateWaitEnter_quiet (r : Ref) : Quiet r E (translateWaitEnter s r) := by
  refine Quiet.bind (Quiet.update fun _ => rfl) fun _ => Quiet.bind (Quiet.tracee r) fun t => ?_
  refine Quiet.ite (Quiet.pure 0) ?_
  refine Quiet.bind (peek_quiet s r _ _) fun pid => Quiet.bind (peek_quiet s r _ _) fun options => ?_
  refine Quiet.bind Quiet.read fun w => Quiet.ite (Quiet.pure 0) ?_
  unfold emulateWait
  refine Quiet.bind (pokeSysnum_quiet s r _) fun _ => ?_
  exact Quiet.bind (Quiet.update fun _ => rfl) fun _ => Quiet.pure 0

/-- So is every syscall. -/
theorem translateSyscallEnter_quiet (r : Ref) : Quiet r E (translateSyscallEnter s r) := by
  refine Quiet.bind (sysnumOf_quiet s r _) fun sysnum => ?_
  split
  · exact translateExecveEnter_quiet s r
  · exact translateExecveatEnter_quiet s r
  · exact Quiet.bind (pokeSysnum_quiet s r _) fun _ => Quiet.pure 0
  · exact translateWaitEnter_quiet s r
  · exact translateWaitEnter_quiet s r
  · exact sysargPath_quiet s r _
  · refine Quiet.bind (peek_quiet s r _ _) fun _ => ?_
    exact Quiet.bind (Quiet.when (pokeSysnum_quiet s r _)) fun _ => Quiet.pure 0
  · exact Quiet.pure 0

/-- The conversion of an offset is quiet, but for an assertion. -/
theorem convertUser_quiet (h : E .assertion) (m : Mode) : Quiet q E (convertUser m) :=
  assert_quiet h _

/-- The requests that leave the ptracee stopped are quiet, whatever they copy. -/
theorem passiveRequest_quiet (h : E .assertion) (ptracer : Ref) (request : ℕ) (pid : ℤ)
    (address data : ℕ) :
    Quiet q E (passiveRequest s ptracer request pid address data) := by
  have hdone : ∀ reply : Reply, Quiet q E (pure 0 : Prog ℤ) := fun _ => Quiet.pure 0
  have hask : ∀ {c : Call}, c.isMark = false → Quiet q E (askOrReturn s c fun _ => pure 0) :=
    fun h => askOrReturn_quiet s h hdone
  refine Quiet.bind (Quiet.tracee ptracer) fun p => ?_
  refine Quiet.ite (askOrReturn_quiet s rfl fun _ => hask rfl) ?_
  refine Quiet.ite (Quiet.bind (convertUser_quiet h _) fun _ =>
    askOrReturn_quiet s rfl fun _ => hask rfl) ?_
  refine Quiet.ite (askOrReturn_quiet s rfl fun _ => hask rfl) ?_
  refine Quiet.ite (Quiet.bind (convertUser_quiet h _) fun _ => hask rfl) ?_
  refine Quiet.ite (Quiet.ite (askOrReturn_quiet s rfl fun _ => hask rfl) (hask rfl)) ?_
  refine Quiet.ite (askOrReturn_quiet s rfl fun _ => hask rfl) ?_
  refine Quiet.ite (askOrReturn_quiet s rfl fun _ => hask rfl) ?_
  refine Quiet.ite (askOrReturn_quiet s rfl fun _ =>
    Quiet.bind (convertUser_quiet h _) fun _ => hask rfl) ?_
  refine Quiet.ite (askOrReturn_quiet s rfl fun _ =>
    Quiet.bind (convertUser_quiet h _) fun _ => hask rfl) ?_
  refine Quiet.ite (askOrReturn_quiet s rfl fun _ => hask rfl) ?_
  refine Quiet.ite (askOrReturn_quiet s rfl fun _ => Quiet.ite (Quiet.pure _) (hask rfl)) ?_
  refine Quiet.ite ?_ (Quiet.ite ?_ (Quiet.ite (hask rfl) (Quiet.pure _)))
  · refine askOrReturn_quiet s rfl fun base => askOrReturn_quiet s rfl fun length => ?_
    refine askOrReturn_quiet s rfl fun _ => askOrFail_quiet s rfl fun _ => ?_
    exact askOrReturn_quiet s rfl fun _ => hask rfl
  · refine askOrReturn_quiet s rfl fun base => askOrReturn_quiet s rfl fun length => ?_
    refine askOrReturn_quiet s rfl fun _ => askOrReturn_quiet s rfl fun _ => ?_
    exact askOrFail_quiet s rfl hdone

/-- The flags of a clone are read quietly. -/
theorem actualCloneFlags_quiet (parent : Ref) (cloneFlags : ℕ) :
    Quiet parent E (actualCloneFlags s parent cloneFlags) := by
  refine Quiet.bind (fetchRegs_quiet s parent) fun status => Quiet.ite (Quiet.pure _) ?_
  exact Quiet.bind (sysnumOf_quiet s parent _) fun sysnum =>
    Quiet.ite (peek_quiet s parent _ _) (Quiet.pure _)

end Programs

end Abyss
