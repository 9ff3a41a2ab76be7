import Abyss.Library.LinkedList
import Abyss.Library.Machine
import Abyss.Syscall.Target
import Mathlib.Data.List.Perm.Subperm

/-!
# The callbacks of the in-process hooker

For each type of syscall the hooker keeps a linked list of callbacks, which grows at its end. A
callback is removed by freeing its item; only the item at the head of a list is unlinked before.
The lists are meant to be the obvious ones: registering appends, unregistering removes the first
occurrence.
-/

namespace Abyss.Svcer

open Machine LinkedList

/-- `TSVCER_SYSCALL_Type`. -/
inductive SyscallType where
  | open | openat | faccessat | fchmodat | fchownat | renameat | renameat2 | fstatat | statfs
  | mkdirat | mknodat | truncate | linkat | unlinkat | readlinkat | symlinkat | utimensat | getcwd
  | chdir | execve | execveat | fcntl | prctl | sigaction
deriving DecidableEq

/-- The type of a syscall by its number, as `getHeader` looks it up. -/
def syscallType : Cpu → ℕ → Option SyscallType
  | .armEabi, nr =>
    match nr with
    | 5 => some .open
    | 322 => some .openat
    | 334 => some .faccessat
    | 333 => some .fchmodat
    | 325 => some .fchownat
    | 329 => some .renameat
    | 382 => some .renameat2
    | 327 => some .fstatat
    | 99 => some .statfs
    | 323 => some .mkdirat
    | 324 => some .mknodat
    | 92 => some .truncate
    | 330 => some .linkat
    | 332 => some .readlinkat
    | 328 => some .unlinkat
    | 331 => some .symlinkat
    | 348 => some .utimensat
    | 183 => some .getcwd
    | 12 => some .chdir
    | 11 => some .execve
    | 387 => some .execveat
    | 55 => some .fcntl
    | 172 => some .prctl
    | 174 => some .sigaction
    | _ => none
  | .arm64, nr =>
    match nr with
    | 56 => some .openat
    | 48 => some .faccessat
    | 53 => some .fchmodat
    | 54 => some .fchownat
    | 38 => some .renameat
    | 276 => some .renameat2
    | 79 => some .fstatat
    | 43 => some .statfs
    | 34 => some .mkdirat
    | 33 => some .mknodat
    | 45 => some .truncate
    | 37 => some .linkat
    | 78 => some .readlinkat
    | 35 => some .unlinkat
    | 36 => some .symlinkat
    | 88 => some .utimensat
    | 17 => some .getcwd
    | 49 => some .chdir
    | 221 => some .execve
    | 281 => some .execveat
    | 25 => some .fcntl
    | 167 => some .prctl
    | 134 => some .sigaction
    | _ => none

/-- An item of a list: the link `mNext` and the callback `mCallback`. -/
abbrev SvcerHookerItem (Callback : Type) := Cell Callback

/-- The items in use, the next address to be handed out, and `g_callbacks`, which is allocated by
the first registration. -/
structure Registry (Callback : Type) where
  heap : Heap Callback
  next : ℕ
  callbacks : Option (SyscallType → Option ℕ)

/-- What goes wrong when a list is followed. -/
inductive RegistryFault where
  | nullPointer
  | useAfterFree
  | outOfFuel
deriving DecidableEq

/-- A program of the registry. -/
abbrev RegistryProg (Callback α : Type) := Machine (Registry Callback) RegistryFault α

section Programs

variable {Callback : Type}

/-- Before the first registration there is nothing. -/
def Registry.initial : Registry Callback := ⟨fun _ => none, 0, none⟩

/-- The item at an address. -/
def itemAt (r : ℕ) : RegistryProg Callback (SvcerHookerItem Callback) := do
  let s ← read
  match s.heap r with
  | none => fault .useAfterFree
  | some item => pure item

/-- Write an item. -/
def putItem (r : ℕ) (item : Option (SvcerHookerItem Callback)) : RegistryProg Callback Unit :=
  modify fun s => { s with heap := Function.update s.heap r item }

/-- `new SvcerHookerItem`. -/
def newItem (cb : Callback) : RegistryProg Callback ℕ := do
  let s ← read
  modify fun s =>
    { s with heap := Function.update s.heap s.next (some ⟨none, cb⟩), next := s.next + 1 }
  pure s.next

/-- Link a new item from the last one of a list; the fuel bounds the length of the list. -/
def addNext (item : ℕ) : ℕ → ℕ → RegistryProg Callback Unit
  | 0, _ => fault .outOfFuel
  | fuel + 1, this => do
    let t ← itemAt this
    match t.next with
    | some next => addNext item fuel next
    | none => putItem this (some { t with next := some item })

/-- Set the head of the list of a type. -/
def setHeader (type : SyscallType) (head : Option ℕ) : RegistryProg Callback Unit :=
  modify fun s =>
    { s with callbacks := s.callbacks.map fun table => Function.update table type head }

/-- Add a callback for a type of syscall. -/
def registerCallback (type : SyscallType) (cb : Callback) : RegistryProg Callback Unit := do
  let s ← read
  when (s.callbacks.isNone = true) (modify fun s => { s with callbacks := some fun _ => none })
  let s ← read
  match s.callbacks with
  | none => fault .nullPointer
  | some table =>
    match table type with
    | none => do
      let item ← newItem cb
      setHeader type (some item)
    | some head => do
      let item ← newItem cb
      let s ← read
      addNext item s.next head

/-- Look for a callback behind an item, and free the item that has it. -/
def removeBehind [DecidableEq Callback] (cb : Callback) : ℕ → ℕ → RegistryProg Callback Unit
  | 0, _ => fault .outOfFuel
  | fuel + 1, item => do
    let i ← itemAt item
    match i.next with
    | none => pure ()
    | some nxt => do
      let n ← itemAt nxt
      -- The source assigns the next item to its local variable, not to the link.
      if n.value = cb then putItem nxt none else removeBehind cb fuel nxt

/-- Remove a callback for a type of syscall. -/
def unregisterCallback [DecidableEq Callback] (type : SyscallType) (cb : Callback) :
    RegistryProg Callback Unit := do
  let s ← read
  match s.callbacks with
  | none => pure ()
  | some table =>
    match table type with
    | none => pure ()
    | some item => do
      let i ← itemAt item
      if i.value = cb then do
        setHeader type i.next
        putItem item none
      else removeBehind cb s.next item

/-- The list of callbacks for a syscall number. -/
def getHeader (cpu : Cpu) (nr : ℕ) (s : Registry Callback) : Option ℕ :=
  match s.callbacks with
  | none => none
  | some table =>
    match syscallType cpu nr with
    | some type => table type
    | none => none

/-- What a user may do with the registry. -/
inductive RegistryOp (Callback : Type) where
  | register (type : SyscallType) (cb : Callback)
  | unregister (type : SyscallType) (cb : Callback)

/-- One call of the user. -/
def registryStep [DecidableEq Callback] : RegistryOp Callback → RegistryProg Callback Unit
  | .register type cb => registerCallback type cb
  | .unregister type cb => unregisterCallback type cb

/-! ## What the registry is for -/

/-- The callbacks of each type. -/
abbrev Callbacks (Callback : Type) := SyscallType → List Callback

/-- What a call does to the callbacks. -/
def RegistryOp.apply [DecidableEq Callback] (m : Callbacks Callback) :
    RegistryOp Callback → Callbacks Callback
  | .register type cb => Function.update m type (m type ++ [cb])
  | .unregister type cb => Function.update m type ((m type).erase cb)

/-- The callbacks after a sequence of calls. -/
def callbacksAfter [DecidableEq Callback] (ops : List (RegistryOp Callback)) : Callbacks Callback :=
  ops.foldl RegistryOp.apply fun _ => []

/-- The head of the list of a type. -/
def Registry.header (s : Registry Callback) (type : SyscallType) : Option ℕ :=
  s.callbacks.bind fun table => table type

/-- The lists of a registry are the given ones, and a syscall number leads to that of its type. -/
def Represents (s : Registry Callback) (m : Callbacks Callback) : Prop :=
  (∀ type, ∃ items, Holds s.heap (s.header type) items ∧ items.map Prod.snd = m type) ∧
    ∀ cpu nr, getHeader cpu nr s = (syscallType cpu nr).bind s.header

/-- A call that unlinks what it frees: a callback is removed from the head of its list, or not
registered at all. -/
def Unlinks (m : Callbacks Callback) : RegistryOp Callback → Prop
  | .register .. => True
  | .unregister type cb => cb ∉ m type ∨ (m type).head? = some cb

instance [DecidableEq Callback] (m : Callbacks Callback) (op : RegistryOp Callback) :
    Decidable (Unlinks m op) := by
  cases op
  · exact inferInstanceAs (Decidable True)
  · exact inferInstanceAs (Decidable (_ ∨ _))

/-- The calls lead to a registry with the lists of the model. -/
def Faithful [DecidableEq Callback] (ops : List (RegistryOp Callback)) : Prop :=
  ∃ s, forEach registryStep ops Registry.initial = (.ok (), s) ∧ Represents s (callbacksAfter ops)

/-! ## Following a list -/

section Follow

variable {s : Registry Callback} {cb : Callback}

/-- An item that is live can be read. -/
theorem itemAt_apply {r : ℕ} {item : SvcerHookerItem Callback} (h : s.heap r = some item) :
    itemAt r s = (.ok item, s) := by
  unfold itemAt
  rw [bind_apply_ok (read_apply s), h]
  rfl

/-- A new item is linked from the last one. -/
theorem addNext_apply (item : ℕ) {init : List (ℕ × Callback)} {last : ℕ} {a : Callback}
    {fuel this : ℕ} (h : Holds s.heap (some this) (init ++ [(last, a)]))
    (hfuel : init.length < fuel) :
    addNext item fuel this s =
      (.ok (), { s with heap := Function.update s.heap last (some ⟨some item, a⟩) }) := by
  induction init generalizing fuel this with
  | nil =>
    obtain ⟨fuel, rfl⟩ := Nat.exists_eq_succ_of_ne_zero (Nat.ne_of_gt hfuel)
    obtain ⟨hthis, next, hcell, hnext⟩ := h
    obtain rfl : this = last := Option.some.inj hthis
    obtain rfl : next = none := hnext
    rw [addNext, bind_apply_ok (itemAt_apply hcell)]
    rfl
  | cons p rest ih =>
    obtain ⟨fuel, rfl⟩ := Nat.exists_eq_succ_of_ne_zero (Nat.ne_zero_of_lt hfuel)
    obtain ⟨hthis, next, hcell, hrest⟩ := h
    obtain rfl : this = p.1 := Option.some.inj hthis
    obtain ⟨following, hfollowing⟩ : ∃ following, next = some following := by
      cases rest with
      | nil => exact ⟨last, hrest.1⟩
      | cons q rest => exact ⟨q.1, hrest.1⟩
    rw [addNext, bind_apply_ok (itemAt_apply hcell), hfollowing]
    exact ih (hfollowing ▸ hrest) (Nat.lt_of_succ_lt_succ hfuel)

/-- A callback is freed behind an item, if it is found there. -/
theorem removeBehind_apply [DecidableEq Callback] {rest : List (ℕ × Callback)} {x : ℕ}
    {a : Callback} {fuel : ℕ}
    (h : Holds s.heap (some x) ((x, a) :: rest)) (hfuel : rest.length < fuel) :
    removeBehind cb fuel x s =
      (.ok (), match rest.find? fun p => p.2 = cb with
        | none => s
        | some p => { s with heap := Function.update s.heap p.1 none }) := by
  induction rest generalizing fuel x a with
  | nil =>
    obtain ⟨fuel, rfl⟩ := Nat.exists_eq_succ_of_ne_zero (Nat.ne_of_gt hfuel)
    obtain ⟨-, next, hcell, hnext⟩ := h
    obtain rfl : next = none := hnext
    rw [removeBehind, bind_apply_ok (itemAt_apply hcell)]
    rfl
  | cons p rest ih =>
    obtain ⟨fuel, rfl⟩ := Nat.exists_eq_succ_of_ne_zero (Nat.ne_zero_of_lt hfuel)
    obtain ⟨-, next, hcell, hnext, next', hcell', hrest⟩ := h
    rw [removeBehind, bind_apply_ok (itemAt_apply hcell), hnext]
    refine (bind_apply_ok (itemAt_apply hcell')).trans ?_
    by_cases hcb : p.2 = cb
    · rw [if_pos hcb, List.find?_cons_of_pos (by simpa using hcb)]
      rfl
    · rw [if_neg hcb, List.find?_cons_of_neg (by simpa using hcb)]
      exact ih ⟨rfl, next', hcell', hrest⟩ (Nat.lt_of_succ_lt_succ hfuel)

end Follow

/-! ## Lists that do not share items -/

/-- The lists of the model, with their items, all of which were handed out and no two of which
belong to different types. -/
structure Listed (s : Registry Callback) (items : SyscallType → List (ℕ × Callback)) : Prop where
  holds : ∀ type, Holds s.heap (s.header type) (items type)
  below : ∀ type, ∀ p ∈ items type, p.1 < s.next
  apart : ∀ type type', type ≠ type' → ∀ p ∈ items type, ∀ q ∈ items type', p.1 ≠ q.1

/-- A registry whose lists are those of the model. -/
def Sound (s : Registry Callback) (m : Callbacks Callback) : Prop :=
  ∃ items, Listed s items ∧ ∀ type, (items type).map Prod.snd = m type

section Sound

variable {s : Registry Callback} {m : Callbacks Callback}
  {items : SyscallType → List (ℕ × Callback)} {type : SyscallType} {cb : Callback}

/-- A sound registry holds the callbacks that were registered. -/
theorem Sound.represents (h : Sound s m) : Represents s m := by
  obtain ⟨items, hlisted, hvalues⟩ := h
  refine ⟨fun type => ⟨items type, hlisted.holds type, hvalues type⟩, fun cpu nr => ?_⟩
  unfold getHeader Registry.header
  cases s.callbacks with
  | none => cases syscallType cpu nr <;> rfl
  | some table => cases syscallType cpu nr <;> rfl

/-- No list is longer than the number of items ever handed out. -/
theorem Listed.length_le (h : Listed s items) (type : SyscallType) :
    (items type).length ≤ s.next := by
  have hsub : (items type).map Prod.fst ⊆ List.range s.next := by
    intro r hr
    obtain ⟨p, hp, rfl⟩ := List.mem_map.mp hr
    exact List.mem_range.mpr (h.below type p hp)
  have hle := ((h.holds type).nodup.subperm hsub).length_le
  rwa [List.length_map, List.length_range] at hle

/-- A registry of other heads and cells keeps the lists of the types that were not touched. -/
theorem Listed.set (h : Listed s items) {s' : Registry Callback} {new : List (ℕ × Callback)}
    (hnext : s.next ≤ s'.next) (hholds : Holds s'.heap (s'.header type) new)
    (hbelow : ∀ p ∈ new, p.1 < s'.next)
    (hold : ∀ p ∈ new, (∃ q ∈ items type, p.1 = q.1) ∨ s.next ≤ p.1)
    (hheader : ∀ other, other ≠ type → s'.header other = s.header other)
    (hheap : ∀ other, other ≠ type → ∀ p ∈ items other, s'.heap p.1 = s.heap p.1) :
    Listed s' (Function.update items type new) := by
  have hapart : ∀ other, other ≠ type → ∀ p ∈ new, ∀ q ∈ items other, p.1 ≠ q.1 := by
    intro other hother p hp q hq
    rcases hold p hp with ⟨p', hp', heq⟩ | hfresh
    · exact heq.trans_ne (h.apart type other hother.symm p' hp' q hq)
    · exact (Nat.ne_of_lt (Nat.lt_of_lt_of_le (h.below other q hq) hfresh)).symm
  refine ⟨fun other => ?_, fun other => ?_, fun a b hab => ?_⟩
  · by_cases hother : other = type
    · rw [hother, Function.update_self]
      exact hholds
    · rw [Function.update_of_ne hother, hheader other hother]
      exact (h.holds other).congr (hheap other hother)
  · by_cases hother : other = type
    · rw [hother, Function.update_self]
      exact hbelow
    · rw [Function.update_of_ne hother]
      exact fun p hp => Nat.lt_of_lt_of_le (h.below other p hp) hnext
  · by_cases ha : a = type
    · subst ha
      rw [Function.update_self, Function.update_of_ne hab.symm]
      exact hapart b hab.symm
    · by_cases hb : b = type
      · subst hb
        rw [Function.update_self, Function.update_of_ne ha]
        exact fun p hp q hq => (hapart a ha q hq p hp).symm
      · rw [Function.update_of_ne ha, Function.update_of_ne hb]
        exact h.apart a b hab

/-- Lists of items and of callbacks are changed together. -/
theorem Sound.of_set {s' : Registry Callback} {new : List (ℕ × Callback)} {values : List Callback}
    (hvalues : ∀ type, (items type).map Prod.snd = m type)
    (hlisted : Listed s' (Function.update items type new)) (hnew : new.map Prod.snd = values) :
    Sound s' (Function.update m type values) := by
  refine ⟨_, hlisted, fun other => ?_⟩
  by_cases hother : other = type
  · rw [hother, Function.update_self, Function.update_self, hnew]
  · rw [Function.update_of_ne hother, Function.update_of_ne hother, hvalues]

/-- The header of a type, if the table was allocated. -/
theorem header_some {table : SyscallType → Option ℕ} (h : s.callbacks = some table) :
    s.header type = table type := by
  rw [Registry.header, h]
  rfl

/-- The first registration of a type starts its list. -/
theorem registerCallback_none (h : s.header type = none) :
    registerCallback type cb s = (.ok (),
      { heap := Function.update s.heap s.next (some ⟨none, cb⟩), next := s.next + 1,
        callbacks := some (Function.update (s.callbacks.getD fun _ => none) type (some s.next)) }) := by
  obtain ⟨heap, next, callbacks⟩ := s
  cases callbacks with
  | none => rfl
  | some table =>
    have hhead : table type = none := h
    simp [registerCallback, when, newItem, setHeader, bind_apply, hhead]

/-- A later registration of a type links a new item from the last one. -/
theorem registerCallback_some {head : ℕ} (h : s.header type = some head) :
    registerCallback type cb s =
      (do let item ← newItem cb
          let s ← read
          addNext item s.next head : RegistryProg Callback Unit) s := by
  obtain ⟨heap, next, callbacks⟩ := s
  cases callbacks with
  | none => cases h
  | some table =>
    have hhead : table type = some head := h
    simp [registerCallback, when, bind_apply, hhead]

/-- The first registration of a type leaves a list of one callback. -/
theorem registerCallback_none_sound (hlisted : Listed s items)
    (hvalues : ∀ type, (items type).map Prod.snd = m type) (h : s.header type = none)
    (hempty : items type = []) :
    ∃ s', registerCallback type cb s = (.ok (), s') ∧
      Sound s' (Function.update m type (m type ++ [cb])) := by
  have hfresh : ∀ other, ∀ p ∈ items other, p.1 ≠ s.next := fun other p hp =>
    Nat.ne_of_lt (hlisted.below other p hp)
  refine ⟨_, registerCallback_none h, ?_⟩
  have hnew : [(s.next, cb)].map Prod.snd = m type ++ [cb] := by
    rw [← hvalues, hempty]
    rfl
  refine Sound.of_set hvalues (hlisted.set (Nat.le_succ _) ?_ ?_ ?_ ?_ ?_) hnew
  · exact ⟨Function.update_self .., none, Function.update_self .., rfl⟩
  · exact fun p hp => List.mem_singleton.mp hp ▸ Nat.lt_succ_self _
  · exact fun p hp => Or.inr (List.mem_singleton.mp hp ▸ Nat.le_refl _)
  · intro other hother
    have hkept : ∀ table : SyscallType → Option ℕ,
        Function.update table type (some s.next) other = table other := fun table =>
      Function.update_of_ne hother ..
    rw [Registry.header, Registry.header, Option.bind_some, hkept]
    cases s.callbacks <;> rfl
  · exact fun other _ p hp => Function.update_of_ne (hfresh other p hp) ..

/-- A later registration of a type appends to its list. -/
theorem registerCallback_some_sound (hlisted : Listed s items)
    (hvalues : ∀ type, (items type).map Prod.snd = m type) {head : ℕ}
    (h : s.header type = some head) {init : List (ℕ × Callback)} {last : ℕ} {a : Callback}
    (hlist : items type = init ++ [(last, a)]) :
    ∃ s', registerCallback type cb s = (.ok (), s') ∧
      Sound s' (Function.update m type (m type ++ [cb])) := by
  have hfresh : ∀ other, ∀ p ∈ items other, p.1 ≠ s.next := fun other p hp =>
    Nat.ne_of_lt (hlisted.below other p hp)
  have hholds := hlisted.holds type
  rw [hlist] at hholds
  have hlast : (last, a) ∈ items type := hlist ▸ List.mem_append_right _ List.mem_cons_self
  have hinit : ∀ p ∈ init, p ∈ items type := fun p hp => hlist ▸ List.mem_append_left _ hp
  -- The list is still there when the new item is in place.
  have hplaced : Holds (Function.update s.heap s.next (some ⟨none, cb⟩)) (some head)
      (init ++ [(last, a)]) := by
    rw [h] at hholds
    refine hholds.congr fun p hp => Function.update_of_ne (hfresh type p ?_) ..
    rwa [hlist]
  have hlength : init.length < s.next + 1 := by
    have hle := hlisted.length_le type
    rw [hlist, List.length_append] at hle
    omega
  have hne : ∀ p ∈ init, p.1 ≠ last := by
    have hnodup := hholds.nodup
    rw [List.map_append, List.nodup_append] at hnodup
    exact fun p hp => hnodup.2.2 _ (List.mem_map_of_mem hp) _ (List.mem_singleton.mpr rfl)
  refine ⟨_, (registerCallback_some h).trans ((bind_apply_ok rfl).trans
    ((bind_apply_ok (read_apply _)).trans (addNext_apply s.next hplaced hlength))), ?_⟩
  have hnew : (init ++ [(last, a), (s.next, cb)]).map Prod.snd = m type ++ [cb] := by
    rw [← hvalues, hlist]
    simp
  refine Sound.of_set hvalues (hlisted.set (Nat.le_succ _) ?_ ?_ ?_ ?_ ?_) hnew
  · refine hholds.snoc (fun p hp => ?_) (Function.update_self ..) ?_
    · exact (Function.update_of_ne (hne p hp) ..).trans
        (Function.update_of_ne (hfresh type p (hinit p hp)) ..)
    · exact (Function.update_of_ne (hfresh type _ hlast).symm ..).trans (Function.update_self ..)
  · intro p hp
    rcases List.mem_append.mp hp with hp | hp
    · exact Nat.lt_succ_of_lt (hlisted.below type p (hinit p hp))
    · rcases List.mem_pair.mp hp with rfl | rfl
      · exact Nat.lt_succ_of_lt (hlisted.below type _ hlast)
      · exact Nat.lt_succ_self _
  · intro p hp
    rcases List.mem_append.mp hp with hp | hp
    · exact Or.inl ⟨p, hinit p hp, rfl⟩
    · rcases List.mem_pair.mp hp with rfl | rfl
      · exact Or.inl ⟨_, hlast, rfl⟩
      · exact Or.inr (Nat.le_refl _)
  · exact fun _ _ => rfl
  · intro other hother p hp
    exact (Function.update_of_ne (hlisted.apart other type hother p hp _ hlast) ..).trans
      (Function.update_of_ne (hfresh other p hp) ..)

/-- A registration appends the callback to the list of its type. -/
theorem registerCallback_sound (h : Sound s m) :
    ∃ s', registerCallback type cb s = (.ok (), s') ∧
      Sound s' (Function.update m type (m type ++ [cb])) := by
  obtain ⟨items, hlisted, hvalues⟩ := h
  have hholds := hlisted.holds type
  rcases List.eq_nil_or_concat' (items type) with hempty | ⟨init, ⟨last, a⟩, hlist⟩
  · rw [hempty] at hholds
    exact registerCallback_none_sound hlisted hvalues hholds hempty
  · obtain ⟨head, hhead⟩ : ∃ head, s.header type = some head := by
      rw [hlist] at hholds
      cases init with
      | nil => exact ⟨last, hholds.1⟩
      | cons p init => exact ⟨p.1, hholds.1⟩
    exact registerCallback_some_sound hlisted hvalues hhead hlist

section Unregister

variable [DecidableEq Callback]

/-- Where nothing was registered nothing is unregistered. -/
theorem unregisterCallback_none (h : s.header type = none) :
    unregisterCallback type cb s = (.ok (), s) := by
  obtain ⟨heap, next, callbacks⟩ := s
  cases callbacks with
  | none => rfl
  | some table =>
    have hhead : table type = none := h
    simp [unregisterCallback, bind_apply, hhead]

/-- A callback at the head of its list is unlinked before it is freed. -/
theorem unregisterCallback_head {head : ℕ} {item : SvcerHookerItem Callback}
    (h : s.header type = some head) (hitem : s.heap head = some item) (hcb : item.value = cb) :
    unregisterCallback type cb s = (.ok (),
      { s with
        heap := Function.update s.heap head none
        callbacks := s.callbacks.map fun table => Function.update table type item.next }) := by
  obtain ⟨heap, next, callbacks⟩ := s
  cases callbacks with
  | none => cases h
  | some table =>
    have hhead : table type = some head := h
    have hcell : heap head = some item := hitem
    simp [unregisterCallback, itemAt, setHeader, putItem, bind_apply, hhead, hcell, hcb]

/-- A callback that is not at the head is looked for behind it. -/
theorem unregisterCallback_behind {head : ℕ} {item : SvcerHookerItem Callback}
    (h : s.header type = some head) (hitem : s.heap head = some item) (hcb : item.value ≠ cb) :
    unregisterCallback type cb s = removeBehind cb s.next head s := by
  obtain ⟨heap, next, callbacks⟩ := s
  cases callbacks with
  | none => cases h
  | some table =>
    have hhead : table type = some head := h
    have hcell : heap head = some item := hitem
    simp [unregisterCallback, itemAt, bind_apply, hhead, hcell, hcb]

/-- The search behind the head frees the first item with the callback and writes no link. -/
theorem unregisterCallback_search (hlisted : Listed s items) {x : ℕ} {a : Callback}
    {rest : List (ℕ × Callback)} (hlist : items type = (x, a) :: rest) (hcb : a ≠ cb) :
    unregisterCallback type cb s =
      (.ok (), match rest.find? fun p => p.2 = cb with
        | none => s
        | some p => { s with heap := Function.update s.heap p.1 none }) := by
  have hholds := hlisted.holds type
  rw [hlist] at hholds
  obtain ⟨hhead, next, hcell, hrest⟩ := hholds
  have hlength : rest.length < s.next := by
    have hle := hlisted.length_le type
    rwa [hlist] at hle
  rw [unregisterCallback_behind hhead hcell hcb]
  exact removeBehind_apply ⟨rfl, next, hcell, hrest⟩ hlength

/-- A callback at the head of its list is removed. -/
theorem unregisterCallback_head_sound (hlisted : Listed s items)
    (hvalues : ∀ type, (items type).map Prod.snd = m type) {x : ℕ} {rest : List (ℕ × Callback)}
    (hlist : items type = (x, cb) :: rest) :
    ∃ s', unregisterCallback type cb s = (.ok (), s') ∧
      Sound s' (Function.update m type ((m type).erase cb)) := by
  have hholds := hlisted.holds type
  rw [hlist] at hholds
  have hnodup := hholds.nodup
  obtain ⟨hhead, next, hcell, hrest⟩ := hholds
  have hx : (x, cb) ∈ items type := hlist ▸ List.mem_cons_self
  have hmem : ∀ p ∈ rest, p ∈ items type := fun p hp => hlist ▸ List.mem_cons_of_mem _ hp
  refine ⟨_, unregisterCallback_head hhead hcell rfl, ?_⟩
  have hnew : rest.map Prod.snd = (m type).erase cb := by
    rw [← hvalues, hlist, List.map_cons, List.erase_cons_head]
  obtain ⟨table, htable⟩ : ∃ table, s.callbacks = some table := by
    cases hcallbacks : s.callbacks with
    | none => rw [Registry.header, hcallbacks] at hhead; cases hhead
    | some table => exact ⟨table, rfl⟩
  refine Sound.of_set hvalues (hlisted.set (Nat.le_refl _) ?_
    (fun p hp => hlisted.below type p (hmem p hp)) (fun p hp => Or.inl ⟨p, hmem p hp, rfl⟩) ?_ ?_)
    hnew
  · have hheader : (s.callbacks.map fun table => Function.update table type next).bind
        (fun table => table type) = next := by
      rw [htable, Option.map_some, Option.bind_some, Function.update_self]
    rw [Registry.header, hheader]
    refine hrest.congr fun p hp => Function.update_of_ne ?_ ..
    intro (heq : p.1 = x)
    rw [List.map_cons, List.nodup_cons] at hnodup
    exact hnodup.1 (List.mem_map.mpr ⟨p, hp, heq⟩)
  · intro other hother
    rw [Registry.header, htable, Option.map_some, Option.bind_some, Function.update_of_ne hother,
      header_some htable]
  · intro other hother p hp
    exact Function.update_of_ne (hlisted.apart other type hother p hp _ hx) ..

/-- Nothing changes where the callback is not registered. -/
theorem unregisterCallback_absent_sound (hlisted : Listed s items)
    (hvalues : ∀ type, (items type).map Prod.snd = m type) (h : cb ∉ m type) :
    ∃ s', unregisterCallback type cb s = (.ok (), s') ∧
      Sound s' (Function.update m type ((m type).erase cb)) := by
  rw [List.erase_of_not_mem h, Function.update_eq_self]
  rw [← hvalues] at h
  refine ⟨s, ?_, items, hlisted, hvalues⟩
  cases hlist : items type with
  | nil =>
    have hholds := hlisted.holds type
    rw [hlist] at hholds
    exact unregisterCallback_none hholds
  | cons p rest =>
    rw [hlist, List.map_cons, List.mem_cons, not_or] at h
    have habsent : rest.find? (fun p => p.2 = cb) = none := by
      rw [List.find?_eq_none]
      rintro q hq hqcb
      exact h.2 (List.mem_map.mpr ⟨q, hq, of_decide_eq_true hqcb⟩)
    rw [unregisterCallback_search hlisted hlist (Ne.symm h.1), habsent]

/-- A callback freed behind the head stays linked. -/
theorem unregisterCallback_dangles (hlisted : Listed s items)
    (hvalues : ∀ type, (items type).map Prod.snd = m type) (hmem : cb ∈ m type)
    (hhead : (m type).head? ≠ some cb) {m' : Callbacks Callback} :
    ∃ s', unregisterCallback type cb s = (.ok (), s') ∧ ¬Represents s' m' := by
  rw [← hvalues] at hmem hhead
  cases hlist : items type with
  | nil => rw [hlist] at hmem; cases hmem
  | cons first rest =>
    rw [hlist, List.map_cons] at hmem hhead
    have hcb : first.2 ≠ cb := fun heq => hhead (heq ▸ List.head?_cons)
    obtain ⟨q, hq, hqcb⟩ := List.mem_map.mp ((List.mem_cons.mp hmem).resolve_left hcb.symm)
    obtain ⟨found, hfound⟩ : ∃ found, rest.find? (fun p => p.2 = cb) = some found :=
      Option.isSome_iff_exists.mp (List.find?_isSome.mpr ⟨q, hq, decide_eq_true hqcb⟩)
    obtain ⟨-, before, after, hsplit, hbefore⟩ := List.find?_eq_some_iff_append.mp hfound
    -- The item before the freed one still links to it.
    obtain ⟨init, last, hinit⟩ : ∃ init last, first :: before = init ++ [last] := by
      rcases List.eq_nil_or_concat' (first :: before) with hnil | ⟨init, last, hinit⟩
      · cases hnil
      · exact ⟨init, last, hinit⟩
    have hholds := hlisted.holds type
    rw [hlist, hsplit, ← List.cons_append, hinit] at hholds
    have hnodup := hholds.nodup
    rw [List.map_append, List.nodup_append] at hnodup
    rw [List.append_assoc] at hholds
    refine ⟨_, unregisterCallback_search hlisted hlist hcb, ?_⟩
    rw [hfound]
    rintro ⟨hlists, -⟩
    obtain ⟨items', hholds', -⟩ := hlists type
    refine hholds.dangling (fun p hp => ?_) (Function.update_self ..) hholds'
    exact Function.update_of_ne
      (hnodup.2.2 _ (List.mem_map_of_mem hp) _ (List.mem_map_of_mem List.mem_cons_self)) ..

/-- A call keeps the lists sound if it unlinks what it frees. -/
theorem registryStep_sound (h : Sound s m) {op : RegistryOp Callback} (hop : Unlinks m op) :
    ∃ s', registryStep op s = (.ok (), s') ∧ Sound s' (op.apply m) := by
  cases op with
  | register type cb => exact registerCallback_sound h
  | unregister type cb =>
    obtain ⟨items, hlisted, hvalues⟩ := h
    rcases hop with habsent | hhead
    · exact unregisterCallback_absent_sound hlisted hvalues habsent
    · rw [← hvalues] at hhead
      cases hlist : items type with
      | nil => rw [hlist] at hhead; cases hhead
      | cons p rest =>
        rw [hlist] at hhead
        obtain rfl : p.2 = cb := Option.some.inj hhead
        exact unregisterCallback_head_sound hlisted hvalues hlist

/-- A call that does not unlink what it frees leaves no lists. -/
theorem registryStep_dangles (h : Sound s m) {op : RegistryOp Callback} (hop : ¬Unlinks m op)
    {m' : Callbacks Callback} :
    ∃ s', registryStep op s = (.ok (), s') ∧ ¬Represents s' m' := by
  cases op with
  | register type cb => exact absurd trivial hop
  | unregister type cb =>
    obtain ⟨items, hlisted, hvalues⟩ := h
    obtain ⟨hmem, hhead⟩ := not_or.mp hop
    exact unregisterCallback_dangles hlisted hvalues (not_not.mp hmem) hhead

end Unregister

end Sound

/-! ## Runs -/

section Runs

variable [DecidableEq Callback] {ops : List (RegistryOp Callback)}

/-- The last of a sequence of calls. -/
theorem registry_snoc {s s' : Registry Callback} {op : RegistryOp Callback}
    (h : forEach registryStep ops Registry.initial = (.ok (), s))
    (hop : registryStep op s = (.ok (), s')) :
    forEach registryStep (ops ++ [op]) Registry.initial = (.ok (), s') := by
  rw [forEach_append, bind_apply_ok h]
  exact bind_apply_ok hop

/-- The callbacks after one more call. -/
theorem callbacksAfter_snoc (op : RegistryOp Callback) :
    callbacksAfter (ops ++ [op]) = op.apply (callbacksAfter ops) := by
  rw [callbacksAfter, List.foldl_append]
  rfl

omit [DecidableEq Callback] in
/-- The registry starts empty. -/
theorem sound_initial : Sound (Registry.initial : Registry Callback) fun _ => [] :=
  ⟨fun _ => [], ⟨fun _ => rfl, fun _ _ hp => absurd hp List.not_mem_nil,
    fun _ _ _ _ hp => absurd hp List.not_mem_nil⟩, fun _ => rfl⟩

/-- As long as each call unlinks what it frees, the lists are sound. -/
theorem registry_sound
    (h : ∀ pre op, pre ++ [op] <+: ops → Unlinks (callbacksAfter pre) op) :
    ∃ s, forEach registryStep ops Registry.initial = (.ok (), s) ∧ Sound s (callbacksAfter ops) := by
  induction ops using List.reverseRecOn with
  | nil => exact ⟨_, rfl, sound_initial⟩
  | append_singleton ops op ih =>
    obtain ⟨s, hrun, hsound⟩ := ih fun pre op' hpre =>
      h pre op' (hpre.trans (List.prefix_append ..))
    obtain ⟨s', hop, hsound'⟩ := registryStep_sound hsound (h ops op List.prefix_rfl)
    exact ⟨s', registry_snoc hrun hop, callbacksAfter_snoc op ▸ hsound'⟩

/-- The first call that does not unlink what it frees leaves no lists. -/
theorem not_faithful_snoc {op : RegistryOp Callback}
    (h : ∀ pre op, pre ++ [op] <+: ops → Unlinks (callbacksAfter pre) op)
    (hop : ¬Unlinks (callbacksAfter ops) op) : ¬Faithful (ops ++ [op]) := by
  obtain ⟨s, hrun, hsound⟩ := registry_sound h
  obtain ⟨s', hlast, hno⟩ := registryStep_dangles hsound hop
  rintro ⟨s'', hrun', hrepresents⟩
  rw [registry_snoc hrun hlast] at hrun'
  exact hno ((Prod.mk.inj hrun').2 ▸ hrepresents)

/-- After every sequence of calls the registry has the lists of the model exactly if each removed
callback was at the head of its list or not registered. -/
theorem registry_faithful_iff (ops : List (RegistryOp Callback)) :
    (∀ pre, pre <+: ops → Faithful pre) ↔
      ∀ pre op, pre ++ [op] <+: ops → Unlinks (callbacksAfter pre) op := by
  refine ⟨fun h => ?_, fun h pre hpre => ?_⟩
  · induction ops using List.reverseRecOn with
    | nil => exact fun pre op hpre => absurd (List.prefix_nil.mp hpre) (List.concat_ne_nil op pre)
    | append_singleton ops op ih =>
      have hbefore := ih fun pre hpre => h pre (hpre.trans (List.prefix_append ..))
      intro pre op' hpre
      rcases List.prefix_concat_iff.mp hpre with heq | hpre
      · obtain ⟨rfl, hlast⟩ := List.append_inj' heq rfl
        obtain rfl : op' = op := List.singleton_inj.mp hlast
        exact of_not_not fun hop => not_faithful_snoc hbefore hop (h _ List.prefix_rfl)
      · exact hbefore pre op' hpre
  · obtain ⟨s, hrun, hsound⟩ := registry_sound fun pre' op hpre' => h pre' op (hpre'.trans hpre)
    exact ⟨s, hrun, hsound.represents⟩

/-- A callback registered after another one and then removed: its item is freed, and the list of
its type still leads to it. -/
theorem registry_secondRemoved :
    ¬∀ pre, pre <+: [RegistryOp.register .openat 0, .register .openat 1, .unregister .openat 1] →
      Faithful pre := by
  intro h
  have hbefore : ∀ pre op,
      pre ++ [op] <+: [RegistryOp.register .openat 0, .register .openat 1] →
        Unlinks (callbacksAfter pre) op := by
    intro pre op hpre
    have hop := hpre.subset (List.mem_append_right pre List.mem_cons_self)
    rcases List.mem_pair.mp hop with rfl | rfl <;> trivial
  exact not_faithful_snoc hbefore (by decide) (h _ List.prefix_rfl)

end Runs

end Programs
end Abyss.Svcer
