import Abyss.Library.DeepestFirst
import Abyss.Path.Components
import Mathlib.Data.Set.Insert

/-!
# The lists of bindings

A binding associates a path of the host with one of the guest. The translation of the operations on
the lists of bindings: a list holds the addresses of the records, in the order of the circular
list. A binding is put into the list of the guest such that no binding precedes one whose guest
path lies under its own, and replaces the one with the same guest path. The search stops at the
first binding that contains a path, which is therefore the deepest one.
-/

namespace Abyss.Paths

open DeepestFirst
open Abyss.Execve (Path slash)

/-- The lists a binding may be in, by the paths that order them. -/
inductive Side where
  | guest
  | host
  | pending
deriving DecidableEq

/-- A binding, with canonical paths. -/
structure Binding where
  host : AbsolutePath
  guest : AbsolutePath
  needSubstitution : Bool

/-- The records at their addresses, and the lists of them. -/
structure Bindings where
  record : ℕ → Binding
  head : Side → List ℕ

/-! ## The circular lists -/

/-- `CIRCLEQ_INSERT_AFTER`. -/
def insertAfter (previous binding : ℕ) : List ℕ → List ℕ
  | [] => []
  | b :: rest =>
    if b = previous then b :: binding :: rest else b :: insertAfter previous binding rest

/-- `CIRCLEQ_INSERT_BEFORE`. -/
def insertBefore (next binding : ℕ) : List ℕ → List ℕ
  | [] => []
  | b :: rest =>
    if b = next then binding :: b :: rest else b :: insertBefore next binding rest

namespace Bindings

/-- Another list on a side. -/
def setHead (s : Bindings) (side : Side) (list : List ℕ) : Bindings :=
  { s with head := Function.update s.head side list }

/-- `strcpy` of both paths into a record, and its flag. -/
def write (s : Bindings) (b : ℕ) (binding : Binding) : Bindings :=
  { s with record := Function.update s.record b binding }

/-- `remove_binding_from_all_lists`; a list without the binding stays as it is. -/
def removeFromAllLists (s : Bindings) (binding : ℕ) : Bindings :=
  { s with head := fun side => (s.head side).erase binding }

/-! ## Insertion -/

/-- The path of a binding that orders the list of a side. -/
def sidePath (s : Bindings) (side : Side) (b : ℕ) : AbsolutePath :=
  if side = .host then (s.record b).host else (s.record b).guest

/-- The place of a new binding: after or before another one, or instead of it. -/
inductive Place where
  | insert (previous next : Option ℕ)
  | replace (iterator : ℕ)

/-- The loop of `insort_binding`, where no `next` stands for the head of the list. -/
def findPlace (s : Bindings) (side : Side) (binding : ℕ) :
    List ℕ → Option ℕ → Option ℕ → Option Place
  | [], previous, next => some (.insert previous next)
  | iterator :: rest, previous, next => do
    let bindingPath := (s.sidePath side binding).text
    let iteratorPath := (s.sidePath side iterator).text
    match ← comparePaths2 bindingPath bindingPath.length iteratorPath iteratorPath.length with
    | .pathsAreEqual =>
      if side = .host then findPlace s side binding rest (some iterator) next
      else some (.replace iterator)
    -- The new binding contains the iterator.
    | .path1IsPrefix => findPlace s side binding rest (some iterator) next
    -- The iterator contains the new binding.
    | .path2IsPrefix =>
      findPlace s side binding rest previous (if next = none then some iterator else next)
    | .pathsAreNotComparable => findPlace s side binding rest previous next

/-- `insort_binding`. -/
def insort (s : Bindings) (side : Side) (binding : ℕ) : Option Bindings := do
  let list := s.head side
  match ← s.findPlace side binding list none list.head? with
  | .replace iterator =>
    some ((s.setHead side (insertAfter iterator binding list)).removeFromAllLists iterator)
  | .insert (some previous) _ => some (s.setHead side (insertAfter previous binding list))
  | .insert none (some next) => some (s.setHead side (insertBefore next binding list))
  | .insert none none => some (s.setHead side (binding :: list))

/-- `insort_binding2`. -/
def insort2 (s : Bindings) (binding : ℕ) : Option Bindings := do
  let record := s.record binding
  let comparison ← comparePaths record.host.text record.guest.text
  let s := s.write binding { record with needSubstitution := comparison ≠ .pathsAreEqual }
  let s ← s.insort .guest binding
  s.insort .host binding

/-! ## Search -/

/-- `get_root`, where the list of the guest was initialized. -/
def getRoot (s : Bindings) : Option Path := do
  let binding ← (s.head .guest).getLast?
  if (s.record binding).guest.text = [slash] then some (s.record binding).host.text else none

/-- `belongs_to_guestfs`. -/
def belongsToGuestfs (_ : Path) : Bool := true

/-- The loop of `get_binding`. -/
def findBinding (s : Bindings) (side : Side) (path : Path) : List ℕ → Option (Option ℕ)
  | [] => some none
  | binding :: rest => do
    let ref := (s.sidePath side binding).text
    let comparison ← comparePaths2 ref ref.length path path.length
    if comparison ≠ .pathsAreEqual ∧ comparison ≠ .path1IsPrefix then
      findBinding s side path rest
    else if side = .host then do
      let root ← s.getRoot
      -- Avoid false positive when a prefix of the rootfs is used as an asymmetric binding.
      if (← comparePaths root [slash]) ≠ .pathsAreEqual ∧ belongsToGuestfs path then
        findBinding s side path rest
      else some (some binding)
    else some (some binding)

/-- `get_binding`; there is no result where an assertion fails. -/
def getBinding (s : Bindings) (side : Side) (path : Path) : Option (Option ℕ) :=
  if path.head? ≠ some slash then none
  else
    match side, s.head side with
    | .pending, _ :: _ => none
    | side, list => s.findBinding side path list

/-! ## The place that is found -/

/-- The components that order the list of a side. -/
def key (s : Bindings) (side : Side) (b : ℕ) : List Path := (s.sidePath side b).components

/-- A binding contains another one. -/
def Contains (s : Bindings) (side : Side) (a b : ℕ) : Prop := s.key side a <+: s.key side b

instance (s : Bindings) (side : Side) : IsTrans ℕ (s.Contains side) :=
  ⟨fun _ _ _ h h' => List.IsPrefix.trans h h'⟩

/-- The binding that is replaced by a new one. -/
def replaced (s : Bindings) (side : Side) (binding : ℕ) : Option ℕ :=
  if side = .host then none
  else (s.head side).find? fun iterator => s.key side iterator = s.key side binding

section Place

variable {s : Bindings} {side : Side} {b : ℕ}

/-- What is known of the place that was found in a list. -/
def Placed (s : Bindings) (side : Side) (b : ℕ) (list : List ℕ) (previous next : Option ℕ) :
    Place → Prop
  | .replace iterator => side ≠ .host ∧ ∃ init rest, list = init ++ iterator :: rest ∧
      (∀ x ∈ init, s.key side x ≠ s.key side b) ∧ s.key side iterator = s.key side b
  | .insert previous' next' => (side ≠ .host → ∀ x ∈ list, s.key side x ≠ s.key side b) ∧
      (next ≠ none ∨ list = [] → next' = next) ∧
      (previous' = previous ∧ (∀ x ∈ list, ¬s.Contains side b x) ∨
        ∃ init last rest, list = init ++ last :: rest ∧ previous' = some last ∧
          s.Contains side b last ∧ ∀ x ∈ rest, ¬s.Contains side b x)

/-- A binding that is passed by, without a trace or as the last one that is contained. -/
theorem Placed.cons {x : ℕ} {list : List ℕ} {previous previous' next next' : Option ℕ}
    {place : Place} (h : Placed s side b list previous' next' place)
    (hkey : side ≠ .host → s.key side x ≠ s.key side b) (hnext : next ≠ none → next' = next)
    (hprevious : previous' = previous ∧ ¬s.Contains side b x ∨
      previous' = some x ∧ s.Contains side b x) :
    Placed s side b (x :: list) previous next place := by
  cases place with
  | replace iterator =>
    obtain ⟨hside, init, rest, rfl, hinit, hiterator⟩ := h
    exact ⟨hside, x :: init, rest, rfl, List.forall_mem_cons.mpr ⟨hkey hside, hinit⟩, hiterator⟩
  | insert found foundNext =>
    obtain ⟨hkeys, hfoundNext, hfound⟩ := h
    refine ⟨fun hside => List.forall_mem_cons.mpr ⟨hkey hside, hkeys hside⟩, fun hne => ?_, ?_⟩
    · have hne := hne.resolve_right (List.cons_ne_nil _ _)
      have heq := hnext hne
      rw [← heq]
      exact hfoundNext (Or.inl (heq ▸ hne))
    · rcases hfound with ⟨hsame, hnone⟩ | ⟨init, last, rest, rfl, hlast, hcontains, hrest⟩
      · rcases hprevious with ⟨rfl, hx⟩ | ⟨rfl, hx⟩
        · exact Or.inl ⟨hsame, List.forall_mem_cons.mpr ⟨hx, hnone⟩⟩
        · exact Or.inr ⟨[], x, list, rfl, hsame, hx, hnone⟩
      · exact Or.inr ⟨x :: init, last, rest, rfl, hlast, hcontains, hrest⟩

/-- One round of the loop, by the prefix order of the components. -/
theorem findPlace_cons (s : Bindings) (side : Side) (b x : ℕ) (list : List ℕ)
    (previous next : Option ℕ) :
    s.findPlace side b (x :: list) previous next =
      match compareComponents (s.key side b) (s.key side x) with
      | .pathsAreEqual =>
        if side = .host then s.findPlace side b list (some x) next else some (.replace x)
      | .path1IsPrefix => s.findPlace side b list (some x) next
      | .path2IsPrefix =>
        s.findPlace side b list previous (if next = none then some x else next)
      | .pathsAreNotComparable => s.findPlace side b list previous next := by
  conv_lhs => unfold findPlace
  dsimp only
  rw [comparePaths2_text]
  rfl

/-- A place is found in every list. -/
theorem findPlace_placed (s : Bindings) (side : Side) (b : ℕ) (list : List ℕ)
    (previous next : Option ℕ) :
    ∃ place, s.findPlace side b list previous next = some place ∧
      Placed s side b list previous next place := by
  induction list generalizing previous next with
  | nil =>
    have hnone : ∀ {p : ℕ → Prop}, ∀ x ∈ ([] : List ℕ), p x := fun x hx =>
      absurd hx List.not_mem_nil
    exact ⟨_, rfl, fun _ => hnone, fun _ => rfl, Or.inl ⟨rfl, hnone⟩⟩
  | cons x list ih =>
    rw [findPlace_cons, compareComponents]
    by_cases heq : s.key side b = s.key side x
    · rw [if_pos heq]
      by_cases hside : side = .host
      · obtain ⟨place, hplace, hplaced⟩ := ih (some x) next
        refine ⟨place, (if_pos hside).trans hplace, hplaced.cons (fun h => absurd hside h)
          (fun _ => rfl) (Or.inr ⟨rfl, ?_⟩)⟩
        rw [Contains, heq]
      · exact ⟨.replace x, if_neg hside, hside, [], list, rfl,
          fun y hy => absurd hy List.not_mem_nil, heq.symm⟩
    · have hkey : side ≠ .host → s.key side x ≠ s.key side b := fun _ => Ne.symm heq
      rw [if_neg heq]
      by_cases hcontains : s.key side b <+: s.key side x
      · obtain ⟨place, hplace, hplaced⟩ := ih (some x) next
        rw [if_pos hcontains]
        exact ⟨place, hplace, hplaced.cons hkey (fun _ => rfl) (Or.inr ⟨rfl, hcontains⟩)⟩
      · rw [if_neg hcontains]
        by_cases hcontained : s.key side x <+: s.key side b
        · obtain ⟨place, hplace, hplaced⟩ := ih previous (if next = none then some x else next)
          rw [if_pos hcontained]
          exact ⟨place, hplace, hplaced.cons hkey (fun h => if_neg h) (Or.inl ⟨rfl, hcontains⟩)⟩
        · obtain ⟨place, hplace, hplaced⟩ := ih previous next
          rw [if_neg hcontained]
          exact ⟨place, hplace, hplaced.cons hkey (fun _ => rfl) (Or.inl ⟨rfl, hcontains⟩)⟩

end Place

/-! ## What an insertion does -/

/-- The element is found behind those that are not it. -/
theorem insertAfter_append {previous : ℕ} {init : List ℕ} (h : previous ∉ init) (b : ℕ)
    (rest : List ℕ) :
    insertAfter previous b (init ++ previous :: rest) = init ++ previous :: b :: rest := by
  induction init with
  | nil => exact if_pos rfl
  | cons x init ih =>
    rw [List.mem_cons, not_or] at h
    rw [List.cons_append, insertAfter, if_neg (Ne.symm h.1), ih h.2]
    rfl

/-- The ways to insert a binding: instead of one with the same guest path, behind the last one
that it contains, or at the start of the list. -/
inductive Inserted (s : Bindings) (side : Side) (b : ℕ) : Bindings → Prop
  | replaced (init : List ℕ) (iterator : ℕ) (rest : List ℕ) (hside : side ≠ .host)
      (hlist : s.head side = init ++ iterator :: rest)
      (hkey : s.key side iterator = s.key side b)
      (hreplaced : s.replaced side b = some iterator) :
      Inserted s side b
        ((s.setHead side (init ++ iterator :: b :: rest)).removeFromAllLists iterator)
  | after (init : List ℕ) (last : ℕ) (rest : List ℕ)
      (hlist : s.head side = init ++ last :: rest) (hcontains : s.Contains side b last)
      (hrest : ∀ x ∈ rest, ¬s.Contains side b x)
      (hkey : side ≠ .host → ∀ x ∈ s.head side, s.key side x ≠ s.key side b) :
      Inserted s side b (s.setHead side (init ++ last :: b :: rest))
  | first (hnone : ∀ x ∈ s.head side, ¬s.Contains side b x) :
      Inserted s side b (s.setHead side (b :: s.head side))

/-- Every insertion succeeds, in one of these ways. -/
theorem insort_inserted (s : Bindings) (side : Side) (b : ℕ) (hnodup : (s.head side).Nodup) :
    ∃ s', s.insort side b = some s' ∧ Inserted s side b s' := by
  obtain ⟨place, hplace, hplaced⟩ :=
    s.findPlace_placed side b (s.head side) none (s.head side).head?
  have hnotMem : ∀ {init rest : List ℕ} {x : ℕ}, s.head side = init ++ x :: rest → x ∉ init := by
    intro init rest x hlist hmem
    rw [hlist, List.nodup_append] at hnodup
    exact hnodup.2.2 x hmem x (List.mem_cons_self ..) rfl
  unfold insort
  dsimp only
  rw [hplace]
  cases place with
  | replace iterator =>
    obtain ⟨hside, init, rest, hlist, hinit, hkey⟩ := hplaced
    have hreplaced : s.replaced side b = some iterator := by
      rw [replaced, if_neg hside, hlist, List.find?_append,
        List.find?_eq_none.mpr fun x hx => by simpa using hinit x hx, Option.none_or,
        List.find?_cons_of_pos (by simpa using hkey)]
    refine ⟨_, rfl, ?_⟩
    have hafter := insertAfter_append (hnotMem hlist) b rest
    rw [← hlist] at hafter
    rw [hafter]
    exact .replaced init iterator rest hside hlist hkey hreplaced
  | insert previous next =>
    obtain ⟨hkey, hnext, ⟨rfl, hnone⟩ | ⟨init, last, rest, hlist, rfl, hcontains, hrest⟩⟩ :=
      hplaced
    · refine ⟨_, ?_, .first hnone⟩
      cases hhead : s.head side with
      | nil =>
        rw [hhead] at hnext
        rw [hnext (Or.inr rfl)]
        rfl
      | cons x list =>
        rw [hhead] at hnext
        rw [hnext (Or.inl (Option.some_ne_none x))]
        change some (s.setHead side (insertBefore x b (x :: list))) = _
        rw [insertBefore, if_pos rfl]
    · refine ⟨_, rfl, ?_⟩
      have hafter := insertAfter_append (hnotMem hlist) b rest
      rw [← hlist] at hafter
      rw [hafter]
      exact .after init last rest hlist hcontains hrest hkey

/-- To set the head of a list changes no record. -/
@[simp] theorem setHead_record (s : Bindings) (side : Side) (list : List ℕ) :
    (s.setHead side list).record = s.record := rfl

/-- Nor does a removal. -/
@[simp] theorem removeFromAllLists_record (s : Bindings) (b : ℕ) :
    (s.removeFromAllLists b).record = s.record := rfl

/-- The list that was set. -/
@[simp] theorem setHead_head_same (s : Bindings) (side : Side) (list : List ℕ) :
    (s.setHead side list).head side = list := Function.update_self ..

/-- The other list stays. -/
theorem setHead_head_of_ne (s : Bindings) {side side' : Side} (list : List ℕ)
    (h : side' ≠ side) : (s.setHead side list).head side' = s.head side' :=
  Function.update_of_ne h ..

/-- A removal is one from both lists. -/
@[simp] theorem removeFromAllLists_head (s : Bindings) (b : ℕ) (side : Side) :
    (s.removeFromAllLists b).head side = (s.head side).erase b := rfl

/-- The paths of the records are all that the order depends on. -/
theorem key_congr {s s' : Bindings} (h : s'.record = s.record) (side : Side) :
    s'.key side = s.key side := by
  funext b
  unfold key sidePath
  rw [h]

section Inserted

variable {s s' : Bindings} {side : Side} {b : ℕ}

/-- An insertion changes no record. -/
theorem Inserted.record (h : Inserted s side b s') : s'.record = s.record := by
  cases h <;> rfl

/-- Where the new binding takes the place of another one, that one is left out. -/
theorem erase_replaced {init rest : List ℕ} {iterator : ℕ}
    (h : (init ++ iterator :: rest).Nodup) :
    (init ++ iterator :: b :: rest).erase iterator = init ++ b :: rest := by
  have hinit : iterator ∉ init := fun hmem =>
    (List.nodup_append.mp h).2.2 iterator hmem iterator (List.mem_cons_self ..) rfl
  rw [List.erase_append_right _ hinit, List.erase_cons_head]

/-- Nothing is replaced where no guest path of the list is the same. -/
theorem replaced_eq_none (h : side ≠ .host → ∀ x ∈ s.head side, s.key side x ≠ s.key side b) :
    s.replaced side b = none := by
  unfold replaced
  split_ifs with hside
  · rfl
  · exact List.find?_eq_none.mpr fun x hx => by simpa using h hside x hx

/-- The list of a binding keeps all other bindings but the one that is replaced. -/
theorem Inserted.mem_iff (h : Inserted s side b s') (hnodup : ∀ side, (s.head side).Nodup)
    (side' : Side) (x : ℕ) :
    x ∈ s'.head side' ↔
      x ∈ s.head side' ∧ s.replaced side b ≠ some x ∨ side' = side ∧ x = b := by
  cases h with
  | replaced init iterator rest hside hlist hkey hreplaced =>
    rw [hreplaced, removeFromAllLists_head]
    by_cases hsame : side' = side
    · subst hsame
      have hlistNodup := hnodup side'
      rw [hlist] at hlistNodup ⊢
      obtain ⟨hiterator, -⟩ := List.nodup_cons.mp (List.nodup_middle.mp hlistNodup)
      rw [setHead_head_same, erase_replaced hlistNodup]
      rw [List.mem_append] at hiterator
      simp only [List.mem_append, List.mem_cons, ne_eq, Option.some.injEq, true_and]
      grind
    · rw [setHead_head_of_ne _ _ hsame, (hnodup side').mem_erase_iff]
      simp only [hsame, false_and, or_false, ne_eq, Option.some.injEq]
      rw [and_comm, eq_comm]
  | after init last rest hlist hcontains hrest hkey =>
    rw [replaced_eq_none hkey]
    by_cases hsame : side' = side
    · subst hsame
      rw [setHead_head_same, hlist]
      simp only [List.mem_append, List.mem_cons, ne_eq, reduceCtorEq, not_false_eq_true, and_true,
        true_and]
      tauto
    · rw [setHead_head_of_ne _ _ hsame]
      simp [hsame]
  | first hnone =>
    rw [replaced_eq_none fun _ x hx heq => hnone x hx (by rw [Contains, heq])]
    by_cases hsame : side' = side
    · subst hsame
      rw [setHead_head_same, List.mem_cons]
      simp [or_comm]
    · rw [setHead_head_of_ne _ _ hsame]
      simp [hsame]

/-- No list has a binding twice. -/
theorem Inserted.nodup (h : Inserted s side b s') (hnodup : ∀ side, (s.head side).Nodup)
    (hb : b ∉ s.head side) (side' : Side) : (s'.head side').Nodup := by
  cases h with
  | replaced init iterator rest hside hlist hkey hreplaced =>
    rw [removeFromAllLists_head]
    refine List.Nodup.erase _ ?_
    by_cases hsame : side' = side
    · subst hsame
      have hlistNodup := hnodup side'
      rw [hlist] at hlistNodup hb
      rw [setHead_head_same]
      grind
    · rw [setHead_head_of_ne _ _ hsame]
      exact hnodup side'
  | after init last rest hlist hcontains hrest hkey =>
    by_cases hsame : side' = side
    · subst hsame
      have hlistNodup := hnodup side'
      rw [hlist] at hlistNodup hb
      rw [setHead_head_same]
      grind
    · rw [setHead_head_of_ne _ _ hsame]
      exact hnodup side'
  | first hnone =>
    by_cases hsame : side' = side
    · subst hsame
      rw [setHead_head_same]
      exact List.nodup_cons.mpr ⟨hb, hnodup side'⟩
    · rw [setHead_head_of_ne _ _ hsame]
      exact hnodup side'

/-- The list of the guest keeps its order. -/
theorem Inserted.ordered (h : Inserted s side b s') (hnodup : ∀ side, (s.head side).Nodup)
    (hordered : Ordered (s.Contains .guest) (s.head .guest)) :
    Ordered (s.Contains .guest) (s'.head .guest) := by
  by_cases hsame : side = .guest
  · subst hsame
    cases h with
    | replaced init iterator rest hside hlist hkey hreplaced =>
      have hlistNodup := hnodup .guest
      rw [hlist] at hlistNodup hordered
      rw [removeFromAllLists_head, setHead_head_same, erase_replaced hlistNodup]
      exact hordered.replace (by rw [Contains, hkey]) (by rw [Contains, hkey])
    | after init last rest hlist hcontains hrest hkey =>
      have hne := hkey (by decide) last
        (hlist ▸ List.mem_append_right _ (List.mem_cons_self ..))
      rw [hlist] at hordered
      rw [setHead_head_same]
      refine hordered.insertAfter hcontains (fun hcontained => hne ?_) hrest
      exact hcontained.eq_of_length_le hcontains.length_le
    | first hnone =>
      rw [setHead_head_same]
      exact hordered.cons hnone
  · have hguest : (Side.guest : Side) ≠ side := Ne.symm hsame
    cases h with
    | replaced init iterator rest hside hlist hkey hreplaced =>
      rw [removeFromAllLists_head, setHead_head_of_ne _ _ hguest]
      exact hordered.sublist (List.erase_sublist ..)
    | after => rwa [setHead_head_of_ne _ _ hguest]
    | first => rwa [setHead_head_of_ne _ _ hguest]

end Inserted

/-! ## Every sequence of operations -/

/-- The bindings of the lists after an insertion. -/
def insertedInto (s : Bindings) (side : Side) (b : ℕ) (linked : Side → Set ℕ) :
    Side → Set ℕ :=
  fun side' => {x | x ∈ linked side' ∧ s.replaced side b ≠ some x ∨ side' = side ∧ x = b}

/-- The lists that a sequence of operations leads to, and the bindings that should be in them. -/
inductive Reachable : Bindings → (Side → Set ℕ) → Prop
  | start (record : ℕ → Binding) : Reachable ⟨record, fun _ => []⟩ fun _ => ∅
  /-- A record is filled in before its binding is put into the lists of the guest and the host. -/
  | write {s : Bindings} {linked : Side → Set ℕ} (b : ℕ) (binding : Binding)
      (h : Reachable s linked) (hguest : b ∉ s.head .guest) (hhost : b ∉ s.head .host) :
      Reachable (s.write b binding) linked
  | insort {s s' : Bindings} {linked : Side → Set ℕ} {side : Side} {b : ℕ}
      (h : Reachable s linked) (hb : b ∉ s.head side) (hrun : s.insort side b = some s') :
      Reachable s' (s.insertedInto side b linked)
  | remove {s : Bindings} {linked : Side → Set ℕ} (b : ℕ) (h : Reachable s linked) :
      Reachable (s.removeFromAllLists b) fun side => linked side \ {b}

/-- What holds of the lists at any time. -/
structure Sorted (s : Bindings) (linked : Side → Set ℕ) : Prop where
  nodup : ∀ side, (s.head side).Nodup
  ordered : Ordered (s.Contains .guest) (s.head .guest)
  mem_iff : ∀ side x, x ∈ s.head side ↔ x ∈ linked side

section Run

variable {s s' : Bindings} {linked : Side → Set ℕ}

/-- A record that is in no list of the guest does not matter to its order. -/
theorem Sorted.write (h : Sorted s linked) {b : ℕ} (binding : Binding)
    (hb : b ∉ s.head .guest) : Sorted (s.write b binding) linked where
  nodup := h.nodup
  ordered := by
    have hkey : ∀ x ∈ s.head .guest, (s.write b binding).key .guest x = s.key .guest x := by
      intro x hx
      have hne : x ≠ b := fun heq => hb (heq ▸ hx)
      unfold key sidePath Bindings.write
      dsimp only
      rw [Function.update_of_ne hne]
    refine List.Pairwise.imp_of_mem ?_ h.ordered
    intro x y hx hy hxy
    rwa [Contains, hkey x hx, hkey y hy]
  mem_iff := h.mem_iff

/-- The lists stay sorted when a binding is inserted. -/
theorem Sorted.insort (h : Sorted s linked) {side : Side} {b : ℕ} (hb : b ∉ s.head side)
    (hrun : s.insort side b = some s') : Sorted s' (s.insertedInto side b linked) := by
  obtain ⟨s₁, hrun₁, hinserted⟩ := s.insort_inserted side b (h.nodup side)
  obtain rfl : s₁ = s' := Option.some.inj (hrun₁.symm.trans hrun)
  refine ⟨hinserted.nodup h.nodup hb, ?_, fun side' x => ?_⟩
  · have hcontains : s₁.Contains .guest = s.Contains .guest := by
      unfold Contains
      rw [key_congr hinserted.record]
    rw [hcontains]
    exact hinserted.ordered h.nodup h.ordered
  · rw [hinserted.mem_iff h.nodup, h.mem_iff]
    rfl

/-- They stay sorted when a binding is removed. -/
theorem Sorted.remove (h : Sorted s linked) (b : ℕ) :
    Sorted (s.removeFromAllLists b) fun side => linked side \ {b} where
  nodup side := (h.nodup side).erase b
  ordered := h.ordered.sublist (List.erase_sublist ..)
  mem_iff side x := by
    rw [removeFromAllLists_head, (h.nodup side).mem_erase_iff, h.mem_iff, Set.mem_sdiff,
      Set.mem_singleton_iff, and_comm]

/-- The lists are sorted after every sequence of operations. -/
theorem Reachable.sorted (h : Reachable s linked) : Sorted s linked := by
  induction h with
  | start record => exact ⟨fun _ => List.nodup_nil, List.Pairwise.nil, fun _ _ => by simp⟩
  | write b binding _ hguest _ ih => exact ih.write binding hguest
  | insort _ hb hrun ih => exact ih.insort hb hrun
  | remove b _ ih => exact ih.remove b

/-- An insertion into the lists of the guest and of the host is a sequence of operations. -/
theorem Reachable.insort2 (h : Reachable s linked) {b : ℕ} (hguest : b ∉ s.head .guest)
    (hhost : b ∉ s.head .host) :
    ∃ s' linked', s.insort2 b = some s' ∧ Reachable s' linked' ∧
      linked' .guest = s.insertedInto .guest b linked .guest := by
  obtain ⟨comparison, hcomparison⟩ : ∃ comparison,
      comparePaths (s.record b).host.text (s.record b).guest.text = some comparison :=
    ⟨_, comparePaths2_text _ _⟩
  let record := s.record b
  let s₁ := s.write b { record with needSubstitution := comparison ≠ .pathsAreEqual }
  have h₁ : Reachable s₁ linked := .write b _ h hguest hhost
  obtain ⟨s₂, hrun₂, hinserted₂⟩ := s₁.insort_inserted .guest b (h₁.sorted.nodup _)
  have h₂ := Reachable.insort h₁ hguest hrun₂
  have hb₂ : b ∉ s₂.head .host := by
    rw [h₂.sorted.mem_iff]
    rintro (⟨hmem, -⟩ | ⟨hside, -⟩)
    · exact hhost ((h₁.sorted.mem_iff .host b).mpr hmem)
    · cases hside
  obtain ⟨s₃, hrun₃, -⟩ := s₂.insort_inserted .host b (h₂.sorted.nodup _)
  refine ⟨s₃, _, ?_, .insort h₂ hb₂ hrun₃, ?_⟩
  · unfold Bindings.insort2
    dsimp only
    rw [hcomparison]
    change (s₁.insort .guest b).bind _ = _
    rw [hrun₂]
    exact hrun₃
  · have hkey : s₁.key .guest = s.key .guest := by
      funext x
      unfold key sidePath
      by_cases hx : x = b
      · subst hx
        simp [s₁, Bindings.write, record]
      · simp [s₁, Bindings.write, Function.update_of_ne hx]
    have hreplaced : s₁.replaced .guest b = s.replaced .guest b := by
      unfold replaced
      rw [hkey]
      rfl
    have hnone : s₂.replaced .host b = none := rfl
    ext x
    change (x ∈ linked .guest ∧ s₁.replaced .guest b ≠ some x ∨ _) ∧ s₂.replaced .host b ≠ some x ∨
      Side.guest = .host ∧ x = b ↔ _
    rw [hreplaced, hnone]
    simp [insertedInto]

end Run

/-! ## The deepest binding -/

/-- The loop of the search finds the first binding that contains the path. -/
theorem findBinding_guest (s : Bindings) (path : AbsolutePath) (list : List ℕ) :
    s.findBinding .guest path.text list =
      some (list.find? fun b => s.key .guest b <+: path.components) := by
  induction list with
  | nil => rfl
  | cons b list ih =>
    unfold findBinding
    dsimp only
    rw [comparePaths2_text]
    change (if compareComponents (s.key .guest b) path.components ≠ .pathsAreEqual ∧
        compareComponents (s.key .guest b) path.components ≠ .path1IsPrefix then
      s.findBinding .guest path.text list else some (some b)) = _
    have hcontains : s.key .guest b <+: path.components ↔
        ¬(compareComponents (s.key .guest b) path.components ≠ .pathsAreEqual ∧
          compareComponents (s.key .guest b) path.components ≠ .path1IsPrefix) := by
      unfold compareComponents
      split_ifs with heq hpre <;> simp_all
    by_cases hfound : s.key .guest b <+: path.components
    · rw [if_neg (hcontains.mp hfound), List.find?_cons_of_pos (by simpa using hfound)]
    · rw [if_pos (not_not.mp fun h => hfound (hcontains.mpr h)), ih,
        List.find?_cons_of_neg (by simpa using hfound)]

/-- The text of a path starts with a separator. -/
theorem head?_text (path : AbsolutePath) : path.text.head? = some slash := by
  unfold AbsolutePath.text AbsolutePath.stem AbsolutePath.tail
  cases path.components with
  | nil => rfl
  | cons component components => rfl

/-- The search among the bindings of the guest. -/
theorem getBinding_guest (s : Bindings) (path : AbsolutePath) :
    s.getBinding .guest path.text =
      some ((s.head .guest).find? fun b => s.key .guest b <+: path.components) := by
  unfold getBinding
  rw [if_neg (not_not_intro (head?_text path))]
  exact s.findBinding_guest path _

/-- A binding is the deepest one of the guest that contains a path. -/
def Deepest (s : Bindings) (path : AbsolutePath) (b : ℕ) : Prop :=
  b ∈ s.head .guest ∧ s.key .guest b <+: path.components ∧
    ∀ x ∈ s.head .guest, s.key .guest x <+: path.components → s.key .guest x <+: s.key .guest b

/-- The first binding that contains a path is the deepest one. -/
theorem Sorted.getBinding {s : Bindings} {linked : Side → Set ℕ} (h : Sorted s linked)
    (path : AbsolutePath) :
    ∃ found, s.getBinding .guest path.text = some found ∧
      match found with
      | none => ∀ x ∈ s.head .guest, ¬s.key .guest x <+: path.components
      | some b => s.Deepest path b := by
  refine ⟨_, s.getBinding_guest path, ?_⟩
  cases hfind : (s.head .guest).find? fun b => s.key .guest b <+: path.components with
  | none => exact fun x hx hcontains => by simpa [hcontains] using List.find?_eq_none.mp hfind x hx
  | some b =>
    have hchain : ∀ x y, decide (s.key .guest x <+: path.components) = true →
        decide (s.key .guest y <+: path.components) = true →
          s.Contains .guest x y ∨ s.Contains .guest y x := fun x y hx hy =>
      List.prefix_or_prefix_of_prefix (of_decide_eq_true hx) (of_decide_eq_true hy)
    refine ⟨List.mem_of_find?_eq_some hfind, by simpa using List.find?_some hfind, ?_⟩
    exact fun x hx hcontains =>
      h.ordered.find?_deepest hchain hfind x hx (decide_eq_true hcontains)

end Bindings

/-- The list of the guest stays sorted, loses nothing and gives the deepest binding. -/
theorem bindings_sorted {s : Bindings} {linked : Side → Set ℕ} (h : Bindings.Reachable s linked) :
    (∀ x, x ∈ s.head .guest ↔ x ∈ linked .guest) ∧
    (s.head .guest).Pairwise (fun a b =>
      ¬(s.key .guest a <+: s.key .guest b ∧ s.key .guest a ≠ s.key .guest b)) ∧
    (s.head .guest).Pairwise (fun a b => s.key .guest a ≠ s.key .guest b) ∧
    (∀ path, ∃ found, s.getBinding .guest path.text = some found ∧
      match found with
      | none => ∀ x ∈ s.head .guest, ¬s.key .guest x <+: path.components
      | some b => s.Deepest path b) ∧
    ∀ side b, ∃ s', s.insort side b = some s' := by
  have hsorted := h.sorted
  refine ⟨hsorted.mem_iff .guest, ?_, ?_, hsorted.getBinding, fun side b => ?_⟩
  · exact hsorted.ordered.imp fun hab hunder => hab hunder.1
  · refine hsorted.ordered.imp fun hab heq => hab ?_
    rw [Bindings.Contains, heq]
  · obtain ⟨s', hrun, -⟩ := s.insort_inserted side b (hsorted.nodup side)
    exact ⟨s', hrun⟩

/-- The bindings of "/", "/a" and again "/a". -/
def nestedRecord (i : ℕ) : Binding :=
  let path := lettersPath (if i = 0 then [] else [97]) (by split <;> decide)
  ⟨path, path, false⟩

/-- The second binding of "/a" replaces the first one, and stands before that of "/". -/
theorem bindings_sorted_nested :
    ∃ s : Bindings, s.head .guest = [2, 0] ∧
      s.getBinding .guest [slash, 97, slash, 98] = some (some 2) ∧
      (s.head .guest).Pairwise fun a b => s.key .guest a ≠ s.key .guest b := by
  have h₀ := Bindings.Reachable.start nestedRecord
  have h₁ := @Bindings.Reachable.insort _ _ _ .guest 0 h₀ (by decide) rfl
  have h₂ := @Bindings.Reachable.insort _ _ _ .guest 1 h₁ (by decide) rfl
  have h₃ := @Bindings.Reachable.insort _ _ _ .guest 2 h₂ (by decide) rfl
  exact ⟨_, rfl, rfl, (bindings_sorted h₃).2.2.1⟩

end Abyss.Paths
