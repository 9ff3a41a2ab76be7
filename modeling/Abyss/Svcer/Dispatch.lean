import Abyss.Svcer.Registry

/-!
# The dispatch of a trapped syscall

A trapped syscall is given to the first callback of its list. A callback may call `doSyscall`,
which gives the syscall to the next callback, or runs the original syscall behind the last one.
All callbacks share one argument, whose item is moved on by every call and never moved back.

What is meant is a descent: each call of `doSyscall` by a callback leads to the callback behind
it. The dispatch does this as long as no callback calls `doSyscall` twice.
-/

namespace Abyss.Svcer

open Machine LinkedList

/-- What is seen of a dispatch: the items whose callbacks are invoked, and the original syscall. -/
inductive DispatchEvent where
  | invoked (item : ℕ)
  | origin
deriving DecidableEq

/-- The item of the `SvcerHookerArgument`, and what happened so far. -/
structure Dispatch where
  item : Option ℕ
  events : List DispatchEvent

/-- A program of the dispatch. -/
abbrev DispatchProg (α : Type) := Machine Dispatch RegistryFault α

/-- How a callback behaves: whether it calls `doSyscall` again, after it called it a number of times
in this invocation and after what was seen so far. -/
abbrev Behaviour (Callback : Type) := Callback → ℕ → List DispatchEvent → Bool

section Programs

variable {Callback : Type}

/-- Note an event. -/
def record (event : DispatchEvent) : DispatchProg Unit :=
  modify fun s => { s with events := s.events ++ [event] }

/-- Move to the next item. -/
def moveToNext (heap : Heap Callback) : DispatchProg (Option ℕ) := do
  let s ← read
  match s.item with
  | none => fault .nullPointer
  | some r =>
    match heap r with
    | none => fault .useAfterFree
    | some item => do
      modify fun s => { s with item := item.next }
      pure item.next

/-- Invoke the callback of an item. -/
def invokeItem (heap : Heap Callback) (run : Callback → DispatchProg Unit) (r : ℕ) :
    DispatchProg Unit :=
  match heap r with
  | none => fault .useAfterFree
  | some item => do
    record (.invoked r)
    run item.value

/-- Give the syscall to the next callback, or run the original one. -/
def doSyscall (heap : Heap Callback) (run : Callback → DispatchProg Unit) : DispatchProg Unit := do
  let next ← moveToNext heap
  match next with
  | some r => invokeItem heap run r
  | none => record .origin

/-- A callback, which calls `doSyscall` as it behaves; the fuel bounds the calls. -/
def runCallback (heap : Heap Callback) (again : Behaviour Callback) :
    ℕ → Callback → ℕ → DispatchProg Unit
  | 0, _, _ => fault .outOfFuel
  | fuel + 1, cb, calls => do
    let s ← read
    if again cb calls s.events = true then do
      doSyscall heap fun next => runCallback heap again fuel next 0
      runCallback heap again fuel cb (calls + 1)
    else pure ()

/-- Handle a trapped syscall. -/
def handleSyscall (s : Registry Callback) (again : Behaviour Callback) (cpu : Cpu) (nr fuel : ℕ) :
    DispatchProg Unit :=
  match getHeader cpu nr s with
  | some r => do
    modify fun d => { d with item := some r }
    invokeItem s.heap (fun cb => runCallback s.heap again fuel cb 0) r
  | none => record .origin

/-- Before a syscall is trapped. -/
def Dispatch.initial : Dispatch := ⟨none, []⟩

/-! ## What the dispatch is for -/

/-- What is left to do in a descent: to give the syscall to the first of the items, or to go on with
a callback that has called `doSyscall` a number of times, the items behind it being given. -/
inductive Task (Callback : Type) where
  | descend (items : List (ℕ × Callback))
  | body (cb : Callback) (calls : ℕ) (rest : List (ℕ × Callback))

/-- How a descent goes: each call of `doSyscall` leads to the first of the items behind the callback,
or to the original syscall where there is none. -/
inductive Intended (again : Behaviour Callback) :
    Task Callback → List DispatchEvent → List DispatchEvent → Prop
  | origin {events} : Intended again (.descend []) events (events ++ [.origin])
  | invoke {r cb rest events events'} :
      Intended again (.body cb 0 rest) (events ++ [.invoked r]) events' →
      Intended again (.descend ((r, cb) :: rest)) events events'
  | stop {cb calls rest events} : again cb calls events = false →
      Intended again (.body cb calls rest) events events
  | call {cb calls rest events events₁ events'} : again cb calls events = true →
      Intended again (.descend rest) events events₁ →
      Intended again (.body cb (calls + 1) rest) events₁ events' →
      Intended again (.body cb calls rest) events events'

/-- A trapped syscall is handled without following a null item, and as intended for its list. -/
def Handled (s : Registry Callback) (again : Behaviour Callback) (cpu : Cpu) (nr fuel : ℕ)
    (items : List (ℕ × Callback)) : Prop :=
  ∃ d, handleSyscall s again cpu nr fuel Dispatch.initial = (.ok (), d) ∧
    Intended again (.descend items) [] d.events

/-- What is seen of a descent of first calls: the callbacks up to the first one that does not call
`doSyscall`, and the original syscall if there is no such callback. -/
def straight (again : Behaviour Callback) :
    List (ℕ × Callback) → List DispatchEvent → List DispatchEvent
  | [], events => events ++ [.origin]
  | (r, cb) :: rest, events =>
    if again cb 0 (events ++ [.invoked r]) = true then straight again rest (events ++ [.invoked r])
    else events ++ [.invoked r]

/-- In the descent of first calls no callback calls `doSyscall` a second time. -/
def CallsOnce (again : Behaviour Callback) : List (ℕ × Callback) → List DispatchEvent → Prop
  | [], _ => True
  | (r, cb) :: rest, events =>
    again cb 0 (events ++ [.invoked r]) = true →
      CallsOnce again rest (events ++ [.invoked r]) ∧
        again cb 1 (straight again rest (events ++ [.invoked r])) = false

section Intended

variable {again : Behaviour Callback} {items rest : List (ℕ × Callback)}
  {events events' : List DispatchEvent}

/-- Nothing that happened is forgotten. -/
theorem Intended.grows {task : Task Callback} (h : Intended again task events events') :
    events <+: events' := by
  induction h with
  | origin => exact List.prefix_append ..
  | invoke _ ih => exact (List.prefix_append ..).trans ih
  | stop _ => exact List.prefix_rfl
  | call _ _ _ ih ih' => exact ih.trans ih'

/-- A descent of first calls is a possible one. -/
theorem CallsOnce.intended (h : CallsOnce again items events) :
    Intended again (.descend items) events (straight again items events) := by
  induction items generalizing events with
  | nil => exact .origin
  | cons p rest ih =>
    refine .invoke ?_
    rw [straight]
    by_cases hcall : again p.2 0 (events ++ [.invoked p.1]) = true
    · obtain ⟨hrest, hagain⟩ := h hcall
      rw [if_pos hcall]
      exact .call hcall (ih hrest) (.stop hagain)
    · rw [if_neg hcall]
      exact .stop (Bool.eq_false_of_not_eq_true hcall)

/-- A descent of first calls is the only one. -/
theorem CallsOnce.unique (h : CallsOnce again items events)
    (hintended : Intended again (.descend items) events events') :
    events' = straight again items events := by
  induction items generalizing events events' with
  | nil =>
    cases hintended
    rfl
  | cons p rest ih =>
    rw [straight]
    cases hintended with
    | invoke hbody =>
      cases hbody with
      | stop hstop => rw [hstop, if_neg Bool.false_ne_true]
      | call hcall hdescend hbody =>
        obtain ⟨hrest, hagain⟩ := h hcall
        rw [if_pos hcall]
        obtain rfl := ih hrest hdescend
        cases hbody with
        | stop _ => rfl
        | call hcall' _ _ => rw [hagain] at hcall'; cases hcall'

end Intended

/-! ## What one call does -/

section Calls

variable {heap : Heap Callback} {again : Behaviour Callback} {run : Callback → DispatchProg Unit}
  {items rest : List (ℕ × Callback)} {events : List DispatchEvent} {d d' : Dispatch}
  {cb : Callback} {fuel calls r : ℕ} {next : Option ℕ}

/-- At an item the syscall is given to the one behind it. -/
theorem doSyscall_some {r' : ℕ} {item : SvcerHookerItem Callback} {cb' : Callback}
    (hitem : d.item = some r) (hcell : heap r = some item) (hnext : item.next = some r')
    (hcell' : heap r' = some ⟨next, cb'⟩) :
    doSyscall heap run d = run cb' ⟨some r', d.events ++ [.invoked r']⟩ := by
  obtain ⟨_, events⟩ := d
  obtain rfl := hitem
  simp [doSyscall, moveToNext, invokeItem, record, bind_apply, hcell, hnext, hcell']

/-- At the last item the original syscall is run. -/
theorem doSyscall_last {item : SvcerHookerItem Callback}
    (hitem : d.item = some r) (hcell : heap r = some item) (hnext : item.next = none) :
    doSyscall heap run d = (.ok (), ⟨none, d.events ++ [.origin]⟩) := by
  obtain ⟨_, events⟩ := d
  obtain rfl := hitem
  simp [doSyscall, moveToNext, record, bind_apply, hcell, hnext]

/-- After the original syscall there is no item to move on from. -/
theorem doSyscall_none (hitem : d.item = none) :
    doSyscall heap run d = (.error .nullPointer, d) := by
  obtain ⟨_, events⟩ := d
  obtain rfl := hitem
  rfl

/-- A callback that does not call `doSyscall` again returns. -/
theorem runCallback_stop (h : again cb calls d.events = false) :
    runCallback heap again (fuel + 1) cb calls d = (.ok (), d) := by
  simp [runCallback, bind_apply, h]

/-- A callback that calls `doSyscall` again. -/
theorem runCallback_call (h : again cb calls d.events = true) :
    runCallback heap again (fuel + 1) cb calls d =
      (do doSyscall heap fun next => runCallback heap again fuel next 0
          runCallback heap again fuel cb (calls + 1) : DispatchProg Unit) d := by
  simp [runCallback, bind_apply, h]

end Calls

/-! ## What is seen is only added to -/

section Grows

variable {heap : Heap Callback} {again : Behaviour Callback} {run : Callback → DispatchProg Unit}
  {seen : List DispatchEvent}

/-- A program that keeps what was seen. -/
def Grows (seen : List DispatchEvent) {α : Type} (x : DispatchProg α) : Prop :=
  Keeps (fun d => seen <+: d.events) (fun _ _ => True) x

/-- To record an event adds to what was seen. -/
theorem record_grows (event : DispatchEvent) : Grows seen (record event) :=
  Keeps.modify fun _ hd => hd.trans (List.prefix_append ..)

/-- To move to the next item sees nothing. -/
theorem moveToNext_grows : Grows seen (moveToNext heap) := by
  refine Keeps.bind Keeps.read fun s => ?_
  cases s.item with
  | none => exact Keeps.fault fun _ _ => trivial
  | some r =>
    dsimp only
    cases heap r with
    | none => exact Keeps.fault fun _ _ => trivial
    | some item => exact Keeps.bind (Keeps.modify fun _ hd => hd) fun _ => Keeps.pure _

/-- To invoke an item adds what its callback sees. -/
theorem invokeItem_grows (hrun : ∀ cb, Grows seen (run cb)) (r : ℕ) :
    Grows seen (invokeItem heap run r) := by
  unfold invokeItem
  cases heap r with
  | none => exact Keeps.fault fun _ _ => trivial
  | some item => exact Keeps.bind (record_grows _) fun _ => hrun _

/-- So does a syscall. -/
theorem doSyscall_grows (hrun : ∀ cb, Grows seen (run cb)) : Grows seen (doSyscall heap run) := by
  refine Keeps.bind moveToNext_grows fun next => ?_
  cases next with
  | none => exact record_grows _
  | some r => exact invokeItem_grows hrun r

/-- So does a callback. -/
theorem runCallback_grows (fuel : ℕ) (cb : Callback) (calls : ℕ) :
    Grows seen (runCallback heap again fuel cb calls) := by
  induction fuel generalizing cb calls with
  | zero => exact Keeps.fault fun _ _ => trivial
  | succ fuel ih =>
    refine Keeps.bind Keeps.read fun s => Keeps.ite (fun _ => ?_) fun _ => Keeps.pure _
    exact Keeps.bind (doSyscall_grows fun next => ih next 0) fun _ => ih cb (calls + 1)

/-- What a callback has seen when it returns starts with what was seen before. -/
theorem runCallback_extends {fuel calls : ℕ} {cb : Callback} {d d' : Dispatch}
    (h : runCallback heap again fuel cb calls d = (.ok (), d')) : d.events <+: d'.events :=
  (runCallback_grows fuel cb calls d List.prefix_rfl).1 () d' h

end Grows

/-! ## How a dispatch ends -/

section Ends

variable {heap : Heap Callback} {again : Behaviour Callback}

/-- Fewer items than a bound are left from the current one on. -/
def Ahead (heap : Heap Callback) (n : ℕ) (d : Dispatch) : Prop :=
  d.item = none ∨ ∃ r item rest, d.item = some r ∧ heap r = some item ∧
    Holds heap item.next rest ∧ rest.length < n

/-- What is ahead of an item is ahead of the later ones. -/
theorem Ahead.mono {m n : ℕ} {d : Dispatch} (h : Ahead heap m d) (hle : m ≤ n) :
    Ahead heap n d :=
  h.imp_right fun ⟨r, item, rest, hitem, hcell, hholds, hlt⟩ =>
    ⟨r, item, rest, hitem, hcell, hholds, Nat.lt_of_lt_of_le hlt hle⟩

/-- A call of `doSyscall` leaves fewer items ahead, and only goes wrong where there is none. -/
theorem doSyscall_ends {n : ℕ} {run : Callback → DispatchProg Unit}
    (hrun : ∀ cb, Triple (Ahead heap n) (run cb) (fun _ => Ahead heap n)
      fun e _ => e = .nullPointer) :
    Triple (Ahead heap (n + 1)) (doSyscall heap run) (fun _ => Ahead heap n)
      fun e _ => e = .nullPointer := by
  rintro d (hnone | ⟨r, item, rest, hitem, hcell, hholds, hlt⟩)
  · exact Triple.of_error (doSyscall_none hnone) rfl
  · cases rest with
    | nil => exact Triple.of_ok (doSyscall_last hitem hcell hholds) (Or.inl rfl)
    | cons p rest =>
      obtain ⟨hnext, next, hcell', hrest⟩ := hholds
      rw [doSyscall_some hitem hcell hnext hcell']
      refine hrun p.2 _ (Or.inr ⟨p.1, _, rest, rfl, hcell', hrest, ?_⟩)
      exact Nat.lt_of_succ_lt_succ hlt

/-- A dispatch ends, and only goes wrong by following a null item. -/
theorem runCallback_ends {n fuel : ℕ} (hfuel : n < fuel) (cb : Callback) (calls : ℕ) :
    Triple (Ahead heap n) (runCallback heap again fuel cb calls) (fun _ => Ahead heap n)
      fun e _ => e = .nullPointer := by
  induction fuel generalizing n cb calls with
  | zero => exact absurd hfuel (Nat.not_lt_zero n)
  | succ fuel ih =>
    intro d hahead
    cases hagain : again cb calls d.events with
    | false => exact Triple.of_ok (runCallback_stop hagain) hahead
    | true =>
      rw [runCallback_call hagain]
      cases n with
      | zero =>
        rcases hahead with hnone | ⟨r, item, rest, -, -, -, hlt⟩
        · exact Triple.of_error (bind_apply_error (doSyscall_none hnone)) rfl
        · exact absurd hlt (Nat.not_lt_zero _)
      | succ n =>
        have hless := Nat.lt_of_succ_lt_succ hfuel
        refine Triple.bind (doSyscall_ends fun next => ih hless next 0) (fun _ => ?_) d hahead
        exact (ih hless cb (calls + 1)).conseq (fun _ h => h) (fun _ _ h => h.mono (Nat.le_succ n))
          fun _ _ h => h

end Ends

/-! ## Descents of first calls -/

section Straight

variable {heap : Heap Callback} {again : Behaviour Callback} {rest : List (ℕ × Callback)}
  {d : Dispatch} {cb : Callback} {fuel r : ℕ} {next : Option ℕ}

/-- A callback calls `doSyscall` once at most, and so do those behind it. -/
def BodyOnce (again : Behaviour Callback) (cb : Callback) (rest : List (ℕ × Callback))
    (events : List DispatchEvent) : Prop :=
  again cb 0 events = true → CallsOnce again rest events ∧
    again cb 1 (straight again rest events) = false

/-- The item where a descent stopped is none, or one of the given ones. -/
def StoppedIn (heap : Heap Callback) (items : List (ℕ × Callback)) (d : Dispatch) : Prop :=
  d.item = none ∨ ∃ init j a suffix next, items = init ++ (j, a) :: suffix ∧ d.item = some j ∧
    heap j = some ⟨next, a⟩ ∧ Holds heap next suffix

/-- A chain that stops in its rest stops. -/
theorem StoppedIn.cons {items : List (ℕ × Callback)} (h : StoppedIn heap items d)
    (p : ℕ × Callback) : StoppedIn heap (p :: items) d :=
  h.imp_right fun ⟨init, j, a, suffix, next, hitems, hstop⟩ =>
    ⟨p :: init, j, a, suffix, next, congrArg (p :: ·) hitems, hstop⟩

/-- Where no callback calls `doSyscall` twice, the descent goes through the callbacks in order, and
stops at the last invoked one or behind the original syscall. -/
theorem runCallback_straight (hitem : d.item = some r) (hcell : heap r = some ⟨next, cb⟩)
    (hrest : Holds heap next rest) (honce : BodyOnce again cb rest d.events)
    (hfuel : rest.length + 1 < fuel) :
    ∃ d', runCallback heap again fuel cb 0 d = (.ok (), d') ∧
      d'.events = (if again cb 0 d.events = true then straight again rest d.events
        else d.events) ∧ StoppedIn heap ((r, cb) :: rest) d' := by
  induction rest generalizing d cb fuel r next with
  | nil =>
    obtain ⟨fuel, rfl⟩ := Nat.exists_eq_succ_of_ne_zero (Nat.ne_zero_of_lt hfuel)
    cases hcall : again cb 0 d.events with
    | false =>
      exact ⟨d, runCallback_stop hcall, rfl,
        Or.inr ⟨[], r, cb, [], next, rfl, hitem, hcell, hrest⟩⟩
    | true =>
      obtain ⟨fuel, rfl⟩ := Nat.exists_eq_succ_of_ne_zero
        (Nat.ne_zero_of_lt (Nat.lt_of_succ_lt_succ hfuel))
      refine ⟨⟨none, d.events ++ [.origin]⟩, ?_, rfl, Or.inl rfl⟩
      rw [runCallback_call hcall, bind_apply_ok (doSyscall_last hitem hcell hrest)]
      exact runCallback_stop (honce hcall).2
  | cons p rest ih =>
    obtain ⟨fuel, rfl⟩ := Nat.exists_eq_succ_of_ne_zero (Nat.ne_zero_of_lt hfuel)
    cases hcall : again cb 0 d.events with
    | false =>
      exact ⟨d, runCallback_stop hcall, rfl,
        Or.inr ⟨[], r, cb, p :: rest, next, rfl, hitem, hcell, hrest⟩⟩
    | true =>
      obtain ⟨fuel, rfl⟩ := Nat.exists_eq_succ_of_ne_zero
        (Nat.ne_zero_of_lt (Nat.lt_of_succ_lt_succ hfuel))
      obtain ⟨hnext, next', hcell', hrest'⟩ := hrest
      obtain ⟨honce', hagain⟩ := honce hcall
      have honce' : BodyOnce again p.2 rest (d.events ++ [.invoked p.1]) := honce'
      obtain ⟨d', hrun, hevents, hstopped⟩ := ih (d := ⟨some p.1, d.events ++ [.invoked p.1]⟩) rfl
        hcell' hrest' honce' (Nat.lt_of_succ_lt_succ hfuel)
      refine ⟨d', ?_, hevents, hstopped.cons _⟩
      rw [runCallback_call hcall,
        bind_apply_ok ((doSyscall_some hitem hcell hnext hcell').trans hrun)]
      exact runCallback_stop (hevents ▸ hagain)

end Straight

/-! ## Second calls -/

section Diverges

variable {heap : Heap Callback} {again : Behaviour Callback} {rest : List (ℕ × Callback)}
  {events events' : List DispatchEvent} {P Q : List DispatchEvent → Prop} {d d' : Dispatch}
  {cb : Callback} {fuel r : ℕ} {next : Option ℕ}

/-- What was seen differs from all that was possible, from some event on. -/
def Diverges (events : List DispatchEvent) (P : List DispatchEvent → Prop) : Prop :=
  ∃ seen x y, x ≠ y ∧ seen ++ [x] <+: events ∧ ∀ t, P t → seen ++ [y] <+: t

/-- What diverges from a property does not have it. -/
theorem Diverges.not (h : Diverges events P) : ¬P events := by
  obtain ⟨seen, x, y, hne, hseen, hpossible⟩ := h
  intro hP
  have hpre := List.prefix_of_prefix_length_le hseen (hpossible events hP) (by simp)
  have heq := hpre.eq_of_length (by simp)
  exact hne (List.singleton_inj.mp (List.append_cancel_left heq))

/-- What differs from some event on differs for good. -/
theorem Diverges.extend (h : Diverges events P) (hevents : events <+: events')
    (hQ : ∀ t, Q t → ∃ t', P t' ∧ t' <+: t) : Diverges events' Q := by
  obtain ⟨seen, x, y, hne, hseen, hpossible⟩ := h
  refine ⟨seen, x, y, hne, hseen.trans hevents, fun t ht => ?_⟩
  obtain ⟨t', ht', hpre⟩ := hQ t ht
  exact (hpossible t' ht').trans hpre

/-- A second call of `doSyscall` finds the item where the first call left it, and so follows a null
item or skips the item behind the callback. -/
theorem runCallback_second {p : ℕ × Callback} {calls : ℕ} (hstopped : StoppedIn heap (p :: rest) d)
    (hnodup : ((p :: rest).map Prod.fst).Nodup) (hcall : again cb calls d.events = true)
    (hrun : runCallback heap again (fuel + 1) cb calls d = (.ok (), d')) :
    Diverges d'.events (Intended again (.body cb calls (p :: rest)) d.events) := by
  rw [runCallback_call hcall] at hrun
  have hmeant : ∀ t, Intended again (.body cb calls (p :: rest)) d.events t →
      d.events ++ [.invoked p.1] <+: t := by
    intro t ht
    cases ht with
    | stop hstop => rw [hcall] at hstop; cases hstop
    | call _ hdescend hbody =>
      cases hdescend with
      | invoke hinvoke => exact hinvoke.grows.trans hbody.grows
  rcases hstopped with hnone | ⟨init, j, a, suffix, next, hitems, hitem, hcell, hsuffix⟩
  · rw [bind_apply_error (doSyscall_none hnone)] at hrun
    cases hrun
  · obtain ⟨_, d₁, hfirst, hrest⟩ := bind_ok_iff.mp hrun
    have hlater := runCallback_extends hrest
    cases suffix with
    | nil =>
      rw [doSyscall_last hitem hcell hsuffix] at hfirst
      obtain ⟨-, rfl⟩ := Prod.mk.inj hfirst
      exact ⟨d.events, .origin, .invoked p.1, nofun, hlater, hmeant⟩
    | cons q suffix =>
      obtain ⟨hnext, next', hcell', hsuffix'⟩ := hsuffix
      rw [doSyscall_some hitem hcell hnext hcell'] at hfirst
      refine ⟨d.events, .invoked q.1, .invoked p.1, fun heq => ?_,
        (runCallback_extends hfirst).trans hlater, hmeant⟩
      have hq : q ∈ rest := by
        cases init with
        | nil => exact (List.cons.inj hitems).2 ▸ List.mem_cons_self
        | cons p' init =>
          rw [(List.cons.inj hitems).2]
          exact List.mem_append_right _ (List.mem_cons_of_mem _ List.mem_cons_self)
      have hmem : q.1 ∈ rest.map Prod.fst := List.mem_map_of_mem hq
      rw [DispatchEvent.invoked.inj heq] at hmem
      exact (List.nodup_cons.mp hnodup).1 hmem

/-- Where a callback calls `doSyscall` twice, the dispatch does not go as it is meant to. -/
theorem runCallback_diverges (hitem : d.item = some r) (hcell : heap r = some ⟨next, cb⟩)
    (hrest : Holds heap next rest) (htwice : ¬BodyOnce again cb rest d.events)
    (hfuel : rest.length + 1 < fuel) (hrun : runCallback heap again fuel cb 0 d = (.ok (), d')) :
    Diverges d'.events (Intended again (.body cb 0 rest) d.events) := by
  induction rest generalizing d d' cb fuel r next with
  | nil =>
    obtain ⟨fuel, rfl⟩ : ∃ m, fuel = m + 2 := Nat.exists_eq_add_of_le' hfuel
    obtain ⟨hcall, hmore⟩ := Classical.not_imp.mp htwice
    have hagain : again cb 1 (d.events ++ [.origin]) = true :=
      Bool.eq_true_of_not_eq_false fun hstop => hmore ⟨trivial, hstop⟩
    rw [runCallback_call hcall, bind_apply_ok (doSyscall_last hitem hcell hrest),
      runCallback_call hagain, bind_apply_error (doSyscall_none rfl)] at hrun
    cases hrun
  | cons p rest ih =>
    obtain ⟨fuel, rfl⟩ : ∃ m, fuel = m + 2 :=
      Nat.exists_eq_add_of_le' (Nat.lt_of_le_of_lt (Nat.le_add_left ..) hfuel)
    have hless : rest.length + 1 < fuel + 1 := Nat.lt_of_succ_lt_succ hfuel
    have hnodup := hrest.nodup
    obtain ⟨hnext, next', hcell', hrest'⟩ := hrest
    obtain ⟨hcall, hmore⟩ := Classical.not_imp.mp htwice
    rw [runCallback_call hcall] at hrun
    obtain ⟨_, d₁, hfirst, hlast⟩ := bind_ok_iff.mp hrun
    rw [doSyscall_some hitem hcell hnext hcell'] at hfirst
    have hbody : ∀ {t}, Intended again (.body cb 0 (p :: rest)) d.events t →
        ∃ t₁, Intended again (.descend (p :: rest)) d.events t₁ ∧
          Intended again (.body cb 1 (p :: rest)) t₁ t := by
      intro t ht
      cases ht with
      | stop hstop => rw [hcall] at hstop; cases hstop
      | call _ hdescend hbody => exact ⟨_, hdescend, hbody⟩
    by_cases honce : BodyOnce again p.2 rest (d.events ++ [.invoked p.1])
    · -- The callback itself calls a second time.
      obtain ⟨d₂, hrun₂, hevents, hstopped⟩ :=
        runCallback_straight (d := ⟨some p.1, _⟩) rfl hcell' hrest' honce hless
      rw [hfirst] at hrun₂
      obtain ⟨-, rfl⟩ := Prod.mk.inj hrun₂
      have hseen : d₁.events = straight again (p :: rest) d.events := hevents
      have hagain : again cb 1 d₁.events = true :=
        Bool.eq_true_of_not_eq_false fun hstop => hmore ⟨honce, hseen ▸ hstop⟩
      refine (runCallback_second hstopped hnodup hagain hlast).extend List.prefix_rfl
        fun t ht => ⟨t, ?_, List.prefix_rfl⟩
      obtain ⟨t₁, hdescend, hrest⟩ := hbody ht
      have hstraight : t₁ = straight again (p :: rest) d.events :=
        CallsOnce.unique honce hdescend
      rwa [hstraight, ← hseen] at hrest
    · -- A callback behind it does.
      refine (ih rfl hcell' hrest' honce hless hfirst).extend (runCallback_extends hlast)
        fun t ht => ?_
      obtain ⟨t₁, hdescend, hrest⟩ := hbody ht
      cases hdescend with
      | invoke hinvoke => exact ⟨t₁, hinvoke, hrest.grows⟩

end Diverges

/-! ## The dispatch -/

section Dispatch

variable {s : Registry Callback} {again : Behaviour Callback} {cpu : Cpu} {nr fuel : ℕ}
  {items : List (ℕ × Callback)}

/-- Without callbacks the original syscall is run. -/
theorem handleSyscall_none (h : getHeader cpu nr s = none) :
    handleSyscall s again cpu nr fuel Dispatch.initial = (.ok (), ⟨none, [.origin]⟩) := by
  unfold handleSyscall
  rw [h]
  rfl

/-- The syscall is given to the first callback. -/
theorem handleSyscall_some {r : ℕ} {next : Option ℕ} {cb : Callback}
    (h : getHeader cpu nr s = some r) (hcell : s.heap r = some ⟨next, cb⟩) :
    handleSyscall s again cpu nr fuel Dispatch.initial =
      runCallback s.heap again fuel cb 0 ⟨some r, [.invoked r]⟩ := by
  unfold handleSyscall
  rw [h]
  simp [invokeItem, record, Dispatch.initial, bind_apply, hcell]

/-- A dispatch ends, and only goes wrong by following a null item. -/
theorem handleSyscall_ends (h : Holds s.heap (getHeader cpu nr s) items)
    (hfuel : items.length < fuel) {e : RegistryFault} {d : Dispatch}
    (hrun : handleSyscall s again cpu nr fuel Dispatch.initial = (.error e, d)) :
    e = .nullPointer := by
  cases items with
  | nil =>
    rw [handleSyscall_none h] at hrun
    cases hrun
  | cons p rest =>
    obtain ⟨hhead, next, hcell, hrest⟩ := h
    rw [handleSyscall_some hhead hcell] at hrun
    refine (runCallback_ends hfuel p.2 0 _ ?_).2 e d hrun
    exact Or.inr ⟨p.1, _, rest, rfl, hcell, hrest, Nat.lt_succ_self _⟩

/-- A trapped syscall is handled as intended exactly if no callback of the descent calls `doSyscall`
a second time. -/
theorem handleSyscall_handled_iff (h : Holds s.heap (getHeader cpu nr s) items)
    (hfuel : items.length < fuel) :
    Handled s again cpu nr fuel items ↔ CallsOnce again items [] := by
  cases items with
  | nil => exact iff_of_true ⟨_, handleSyscall_none h, .origin⟩ trivial
  | cons p rest =>
    obtain ⟨hhead, next, hcell, hrest⟩ := h
    refine ⟨fun ⟨d, hrun, hintended⟩ => ?_, fun honce => ?_⟩
    · rw [handleSyscall_some hhead hcell] at hrun
      by_contra htwice
      have hdiverges := runCallback_diverges (d := ⟨some p.1, [.invoked p.1]⟩) rfl hcell hrest
        htwice hfuel hrun
      cases hintended with
      | invoke hbody => exact hdiverges.not hbody
    · obtain ⟨d, hrun, hevents, -⟩ :=
        runCallback_straight (d := ⟨some p.1, [.invoked p.1]⟩) rfl hcell hrest honce hfuel
      refine ⟨d, (handleSyscall_some hhead hcell).trans hrun, ?_⟩
      have hseen : d.events = straight again (p :: rest) [] := hevents
      exact hseen ▸ honce.intended

/-- Two callbacks for all syscalls. -/
def twoCallbacks : Registry ℕ where
  heap r := if r = 0 then some ⟨some 1, 10⟩ else if r = 1 then some ⟨none, 11⟩ else none
  next := 2
  callbacks := some fun _ => some 0

/-- The registry holds the two callbacks in a row. -/
theorem twoCallbacks_holds :
    Holds twoCallbacks.heap (getHeader .arm64 56 twoCallbacks) [(0, 10), (1, 11)] :=
  ⟨rfl, some 1, rfl, rfl, none, rfl, rfl⟩

/-- With two callbacks that each call `doSyscall` once, an `openat` is given to both and then run. -/
theorem handleSyscall_bothOnce :
    Handled twoCallbacks (fun _ calls _ => calls == 0) .arm64 56 3 [(0, 10), (1, 11)] :=
  (handleSyscall_handled_iff twoCallbacks_holds (by decide)).mpr
    fun _ => ⟨fun _ => ⟨trivial, rfl⟩, rfl⟩

/-- If the second callback calls `doSyscall` twice, a null item is followed after the original
syscall. -/
theorem handleSyscall_secondTwice :
    Holds twoCallbacks.heap (getHeader .arm64 56 twoCallbacks) [(0, 10), (1, 11)] ∧
      ¬Handled twoCallbacks (fun cb calls _ => calls == 0 || cb == 11 && calls == 1) .arm64 56 3
        [(0, 10), (1, 11)] := by
  refine ⟨twoCallbacks_holds, fun ⟨d, hrun, _⟩ => ?_⟩
  cases hrun

end Dispatch

end Programs
end Abyss.Svcer
