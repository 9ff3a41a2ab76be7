import Mathlib.Logic.Basic

/-!
# Programs over a state that may fault

A program takes a state to a value or a fault, and always leaves a state behind, so that what
is proved about the states left behind also covers the runs that end in a fault. A triple
speaks about the value and the state of a return, and separately about a fault and its state. A run
takes a step for each input, and what every step preserves holds of every state of a run.
-/

/-- A program over states `σ` that returns an `α` or stops with an `ε`. -/
def Machine (σ ε α : Type) : Type := σ → Except ε α × σ

namespace Machine

variable {σ ε α β γ : Type}

instance : Monad (Machine σ ε) where
  pure a := fun s => (.ok a, s)
  bind x f := fun s =>
    match x s with
    | (.ok a, s') => f a s'
    | (.error e, s') => (.error e, s')

/-- A sequence, at a state. -/
theorem bind_apply (x : Machine σ ε α) (f : α → Machine σ ε β) (s : σ) :
    (x >>= f) s = match x s with
      | (.ok a, s') => f a s'
      | (.error e, s') => (.error e, s') := rfl

/-- Stop with a fault. -/
def fault (e : ε) : Machine σ ε α := fun s => (.error e, s)

/-- Read the state. -/
def read : Machine σ ε σ := fun s => (.ok s, s)

/-- Change the state. -/
def modify (f : σ → σ) : Machine σ ε Unit := fun s => (.ok (), f s)

/-- Run a program if a condition holds. -/
def when (c : Prop) [Decidable c] (x : Machine σ ε Unit) : Machine σ ε Unit :=
  if c then x else pure ()

/-- A step that is not always possible; it faults where it is not. -/
def attempt (f : σ → Option σ) : Machine σ Unit Unit := fun s =>
  match f s with
  | some s' => (.ok (), s')
  | none => (.error (), s)

/-- Run a program for each element of a list. -/
def forEach {ι : Type} (f : ι → Machine σ ε Unit) : List ι → Machine σ ε Unit
  | [] => pure ()
  | a :: rest => do
    f a
    forEach f rest

/-- To return a value does not touch the state. -/
@[simp] theorem pure_apply (a : α) (s : σ) : (pure a : Machine σ ε α) s = (.ok a, s) := rfl

/-- The state that is read is the current one. -/
@[simp] theorem read_apply (s : σ) : (read : Machine σ ε σ) s = (.ok s, s) := rfl

/-- A change of the state always returns. -/
@[simp] theorem modify_apply (f : σ → σ) (s : σ) :
    (modify f : Machine σ ε Unit) s = (.ok (), f s) := rfl

/-- A sequence continues where its first part returned. -/
theorem bind_apply_ok {x : Machine σ ε α} {f : α → Machine σ ε β} {s s' : σ} {a : α}
    (h : x s = (.ok a, s')) : (x >>= f) s = f a s' := by
  rw [bind_apply, h]

/-- A sequence stops where its first part faulted. -/
theorem bind_apply_error {x : Machine σ ε α} {f : α → Machine σ ε β} {s s' : σ} {e : ε}
    (h : x s = (.error e, s')) : (x >>= f) s = (.error e, s') := by
  rw [bind_apply, h]

/-- A sequence depends on the outcome of its first part only. -/
theorem bind_apply_congr {x y : Machine σ ε α} {f : α → Machine σ ε β} {s s' : σ}
    (h : x s = y s') : (x >>= f) s = (y >>= f) s' := by
  rw [bind_apply, bind_apply, h]

/-- Sequences may be regrouped. -/
theorem bind_assoc (x : Machine σ ε α) (f : α → Machine σ ε β) (g : β → Machine σ ε γ) :
    x >>= f >>= g = x >>= fun a => f a >>= g := by
  funext s
  rcases h : x s with ⟨e | a, s'⟩
  · rw [bind_apply_error h, bind_apply_error (bind_apply_error h)]
  · rw [bind_apply_ok h, bind_apply, bind_apply_ok h, bind_apply]

/-- Nothing is added by returning what was returned. -/
theorem bind_return (x : Machine σ ε α) : (x >>= fun a => pure a) = x := by
  funext s
  rcases h : x s with ⟨_ | a, s'⟩
  · exact bind_apply_error h
  · exact bind_apply_ok h

/-- A sequence returns when both its parts do. -/
theorem bind_ok_iff {x : Machine σ ε α} {f : α → Machine σ ε β} {s s' : σ} {b : β} :
    (x >>= f) s = (.ok b, s') ↔ ∃ a s₁, x s = (.ok a, s₁) ∧ f a s₁ = (.ok b, s') := by
  rcases hx : x s with ⟨_ | _, s₁⟩
  · rw [bind_apply_error hx]
    simp
  · rw [bind_apply_ok hx]
    simp [and_assoc]

/-- Two lists of programs, one after the other. -/
theorem forEach_append {ι : Type} (f : ι → Machine σ ε Unit) (init rest : List ι) :
    forEach f (init ++ rest) = (do forEach f init; forEach f rest) := by
  induction init with
  | nil => rfl
  | cons i init ih =>
    rw [List.cons_append, forEach, forEach, bind_assoc, ih]

/-! ## Triples -/

/-- From a state in `P` the program returns into `Q`, or faults as `E` allows. -/
def Triple (P : σ → Prop) (x : Machine σ ε α) (Q : α → σ → Prop) (E : ε → σ → Prop) : Prop :=
  ∀ s, P s → (∀ a s', x s = (.ok a, s') → Q a s') ∧ ∀ e s', x s = (.error e, s') → E e s'

/-- An invariant that survives a program that returns; where it faults, `E` holds. -/
def Keeps (I : σ → Prop) (E : ε → σ → Prop) (x : Machine σ ε α) : Prop :=
  Triple I x (fun _ => I) E

section Triple

variable {P : σ → Prop} {Q : α → σ → Prop} {E : ε → σ → Prop}

/-- What holds at one state, where the outcome is known to be a return. -/
theorem Triple.of_ok {x : Machine σ ε α} {s s' : σ} {a : α} (h : x s = (.ok a, s'))
    (hQ : Q a s') :
    (∀ b t, x s = (.ok b, t) → Q b t) ∧ ∀ e t, x s = (.error e, t) → E e t := by
  rw [h]
  refine ⟨fun b t heq => ?_, fun e t heq => ?_⟩
  · obtain ⟨⟨rfl⟩, rfl⟩ := Prod.mk.inj heq
    exact hQ
  · cases heq

/-- What holds at one state, where the outcome is known to be a fault. -/
theorem Triple.of_error {x : Machine σ ε α} {s s' : σ} {e : ε} (h : x s = (.error e, s'))
    (hE : E e s') :
    (∀ b t, x s = (.ok b, t) → Q b t) ∧ ∀ e t, x s = (.error e, t) → E e t := by
  rw [h]
  refine ⟨fun b t heq => ?_, fun e t heq => ?_⟩
  · cases heq
  · obtain ⟨⟨rfl⟩, rfl⟩ := Prod.mk.inj heq
    exact hE

/-- What returns at once leaves its state. -/
theorem Triple.pure {a : α} (h : ∀ s, P s → Q a s) : Triple P (pure a : Machine σ ε α) Q E := by
  intro s hs
  refine ⟨fun b s' heq => ?_, fun e s' heq => ?_⟩
  · obtain ⟨⟨rfl⟩, rfl⟩ := Prod.mk.inj heq
    exact h s hs
  · cases heq

/-- So does what faults at once. -/
theorem Triple.fault {e : ε} (h : ∀ s, P s → E e s) :
    Triple P (fault e : Machine σ ε α) Q E := by
  intro s hs
  refine ⟨fun b s' heq => ?_, fun e s' heq => ?_⟩
  · cases heq
  · obtain ⟨⟨rfl⟩, rfl⟩ := Prod.mk.inj heq
    exact h s hs

/-- A change of the state leads to what holds of the changed one. -/
theorem Triple.modify {f : σ → σ} {Q : Unit → σ → Prop} (h : ∀ s, P s → Q () (f s)) :
    Triple P (modify f : Machine σ ε Unit) Q E := by
  intro s hs
  refine ⟨fun b s' heq => ?_, fun e s' heq => ?_⟩
  · obtain ⟨-, rfl⟩ := Prod.mk.inj heq
    exact h s hs
  · cases heq

/-- A step that is not always possible only has to be looked at where it is. -/
theorem Triple.attempt {f : σ → Option σ} {Q : Unit → σ → Prop} {E : Unit → σ → Prop}
    (h : ∀ s s', P s → f s = some s' → Q () s') (hE : ∀ s, P s → E () s) :
    Triple P (attempt f) Q E := by
  intro s hs
  cases hf : f s with
  | none =>
    have hrun : Machine.attempt f s = (.error (), s) := by simp only [Machine.attempt, hf]
    exact Triple.of_error hrun (hE s hs)
  | some s' =>
    have hrun : Machine.attempt f s = (.ok (), s') := by simp only [Machine.attempt, hf]
    exact Triple.of_ok hrun (h s s' hs hf)

/-- Triples compose along a sequence. -/
theorem Triple.bind {M : α → σ → Prop} {R : β → σ → Prop} {x : Machine σ ε α}
    {f : α → Machine σ ε β} (hx : Triple P x M E) (hf : ∀ a, Triple (M a) (f a) R E) :
    Triple P (x >>= f) R E := by
  intro s hs
  have hM := hx s hs
  rcases hxs : x s with ⟨e | a, s₁⟩
  · rw [bind_apply_error hxs]
    refine ⟨fun b s' heq => ?_, fun e' s' heq => ?_⟩
    · cases heq
    · obtain ⟨⟨rfl⟩, rfl⟩ := Prod.mk.inj heq
      exact hM.2 e s₁ hxs
  · rw [bind_apply_ok hxs]
    exact hf a s₁ (hM.1 a s₁ hxs)

/-- Reading the state gives the continuation the very state it runs in. -/
theorem Triple.read_bind {R : β → σ → Prop} {f : σ → Machine σ ε β}
    (h : ∀ s, P s → Triple (fun s' => s' = s) (f s) R E) :
    Triple P (Machine.read >>= f) R E := by
  intro s hs
  rw [bind_apply_ok (read_apply s)]
  exact h s hs s rfl

/-- A conditional may use its test. -/
theorem Triple.ite {c : Prop} [Decidable c] {x y : Machine σ ε α}
    (hx : c → Triple P x Q E) (hy : ¬c → Triple P y Q E) :
    Triple P (if c then x else y) Q E := by
  by_cases h : c
  · rw [if_pos h]
    exact hx h
  · rw [if_neg h]
    exact hy h

/-- The rule of consequence. -/
theorem Triple.conseq {P' : σ → Prop} {Q' : α → σ → Prop} {E' : ε → σ → Prop}
    {x : Machine σ ε α} (h : Triple P x Q E) (hP : ∀ s, P' s → P s)
    (hQ : ∀ a s, Q a s → Q' a s) (hE : ∀ e s, E e s → E' e s) : Triple P' x Q' E' := by
  intro s hs
  obtain ⟨hok, herr⟩ := h s (hP s hs)
  exact ⟨fun a s' heq => hQ a s' (hok a s' heq), fun e s' heq => hE e s' (herr e s' heq)⟩

end Triple

/-! ## Programs that follow a result -/

/-- From a state in `P` the program ends as the result says: with the same fault, or in a state that
is in `Q` for what is returned. -/
def Follows (P : σ → Prop) (x : Machine σ ε α) (result : Except ε β) (Q : α → β → σ → Prop) : Prop :=
  Triple P x (fun a s => ∃ b, result = .ok b ∧ Q a b s) fun e _ => result = .error e

section Follows

variable {P : σ → Prop} {Q : α → β → σ → Prop} {x : Machine σ ε α} {result : Except ε β}

/-- A program that returns at once follows what is returned. -/
theorem Follows.of_ok {b : β} (h : ∀ s, P s → ∃ a s', x s = (.ok a, s') ∧ Q a b s') :
    Follows P x (.ok b) Q := by
  intro s hs
  obtain ⟨a, s', hrun, hQ⟩ := h s hs
  exact Triple.of_ok hrun ⟨b, rfl, hQ⟩

/-- A program that faults follows its fault. -/
theorem Follows.of_error {e : ε} (h : ∀ s, P s → (x s).1 = .error e) :
    Follows P x (.error e) Q := by
  intro s hs
  exact Triple.of_error (Prod.ext (h s hs) rfl) rfl

/-- Sequences follow sequences. -/
theorem Follows.bind {R : γ → δ → σ → Prop} {f : α → Machine σ ε γ} {g : β → Except ε δ}
    (hx : Follows P x result Q)
    (hf : ∀ a b, result = .ok b → Follows (Q a b) (f a) (g b) R) :
    Follows P (x >>= f) (result >>= g) R := by
  refine Triple.bind (hx.conseq (fun _ h => h) (fun _ _ h => h) fun e _ he => ?_) fun a => ?_
  · rw [he]
    rfl
  · rintro s ⟨b, rfl, hQ⟩
    exact hf a b rfl s hQ

/-- A step that always returns adds nothing to the result. -/
theorem Follows.ok_bind {b : β} {R : γ → δ → σ → Prop} {f : α → Machine σ ε γ}
    {result : Except ε δ} (hx : Follows P x (.ok b) Q)
    (hf : ∀ a, Follows (Q a b) (f a) result R) : Follows P (x >>= f) result R :=
  hx.bind fun a _ heq => Except.ok.inj heq ▸ hf a

/-- A result may be made into another one. -/
theorem Follows.map {g : β → δ} {R : α → δ → σ → Prop} (h : Follows P x result Q)
    (hR : ∀ a b s, Q a b s → R a (g b) s) : Follows P x (result.map g) R := by
  refine Triple.conseq h (fun _ hs => hs) (fun a s ⟨b, hb, hQ⟩ => ?_) fun e _ he => ?_
  · rw [hb]
    exact ⟨g b, rfl, hR a b s hQ⟩
  · rw [he]
    rfl

/-- A fact about the values so far may be used. -/
theorem Follows.of_and {c : Prop} (h : c → Follows P x result Q) :
    Follows (fun s => c ∧ P s) x result Q := fun s hs => h hs.1 s hs.2

/-- The rule of consequence. -/
theorem Follows.conseq {P' : σ → Prop} {Q' : α → β → σ → Prop} (h : Follows P x result Q)
    (hP : ∀ s, P' s → P s) (hQ : ∀ a b s, Q a b s → Q' a b s) : Follows P' x result Q' :=
  Triple.conseq h hP (fun a s ⟨b, hb, hs⟩ => ⟨b, hb, hQ a b s hs⟩) fun _ _ h => h

/-- A program that is known to end as the result says follows it. -/
theorem Follows.of_verdict
    (h : ∀ s, P s → (x s).1.map (fun _ => ()) = result.map fun _ => ()) :
    Follows P x result fun _ _ _ => True := by
  intro s hs
  have hsame := h s hs
  rcases hrun : x s with ⟨e | a, s'⟩
  · rw [hrun] at hsame
    refine Triple.of_error rfl ?_
    cases result with
    | error e' => exact congrArg Except.error (Except.error.inj hsame).symm
    | ok b => cases hsame
  · rw [hrun] at hsame
    refine Triple.of_ok rfl ?_
    cases result with
    | error e' => cases hsame
    | ok b => exact ⟨b, rfl, trivial⟩

/-- What holds where the program returns may be added. -/
theorem Follows.and {R : α → σ → Prop} {E : ε → σ → Prop} (h : Follows P x result Q)
    (hx : Triple P x R E) : Follows P x result fun a b s => Q a b s ∧ R a s := by
  intro s hs
  refine ⟨fun a s' hrun => ?_, (h s hs).2⟩
  obtain ⟨b, hb, hQ⟩ := (h s hs).1 a s' hrun
  exact ⟨b, hb, hQ, (hx s hs).1 a s' hrun⟩

/-- What is returned is what the result says. -/
theorem Follows.verdict {s : σ} (h : Follows P x result Q) (hs : P s) :
    (x s).1.map (fun _ => ()) = result.map fun _ => () := by
  obtain ⟨hok, herror⟩ := h s hs
  rcases hrun : x s with ⟨e | a, s'⟩
  · rw [herror e s' hrun]
    rfl
  · obtain ⟨b, hb, -⟩ := hok a s' hrun
    rw [hb]
    rfl

end Follows

section Keeps

variable {I : σ → Prop} {E : ε → σ → Prop}

/-- To return a value keeps an invariant. -/
theorem Keeps.pure (a : α) : Keeps I E (pure a : Machine σ ε α) := Triple.pure fun _ h => h

/-- A fault keeps what its condition allows. -/
theorem Keeps.fault {e : ε} (hE : ∀ s, I s → E e s) :
    Keeps I E (Machine.fault e : Machine σ ε α) :=
  Triple.fault hE

/-- A change keeps an invariant that it preserves. -/
theorem Keeps.modify {f : σ → σ} (h : ∀ s, I s → I (f s)) :
    Keeps I E (Machine.modify f : Machine σ ε Unit) :=
  Triple.modify h

/-- To read the state keeps an invariant. -/
theorem Keeps.read : Keeps I E (Machine.read : Machine σ ε σ) := by
  intro s hs
  refine ⟨fun b s' heq => ?_, fun e s' heq => ?_⟩
  · obtain ⟨-, rfl⟩ := Prod.mk.inj heq
    exact hs
  · cases heq

/-- An invariant survives a sequence when it survives its parts. -/
theorem Keeps.bind {x : Machine σ ε α} {f : α → Machine σ ε β} (hx : Keeps I E x)
    (hf : ∀ a, Keeps I E (f a)) : Keeps I E (x >>= f) :=
  Triple.bind hx hf

/-- After a part that keeps an invariant, only continuations from states with the invariant
matter. -/
theorem Keeps.bind_congr {x : Machine σ ε α} {f g : α → Machine σ ε β} (hx : Keeps I E x) {s : σ}
    (hs : I s) (hfg : ∀ a s', I s' → f a s' = g a s') : (x >>= f) s = (x >>= g) s := by
  obtain ⟨hok, -⟩ := hx s hs
  rcases h : x s with ⟨e | a, s'⟩
  · rw [bind_apply_error h, bind_apply_error h]
  · rw [bind_apply_ok h, bind_apply_ok h, hfg a s' (hok a s' h)]

/-- An invariant survives a conditional when it survives both branches. -/
theorem Keeps.ite {c : Prop} [Decidable c] {x y : Machine σ ε α} (hx : c → Keeps I E x)
    (hy : ¬c → Keeps I E y) : Keeps I E (if c then x else y) :=
  Triple.ite hx hy

/-- A guarded program keeps an invariant if it does where it is run. -/
theorem Keeps.when {c : Prop} [Decidable c] {x : Machine σ ε Unit} (hx : c → Keeps I E x) :
    Keeps I E (Machine.when c x) :=
  Triple.ite hx fun _ => Keeps.pure ()

/-- An invariant survives a loop when it survives each round. -/
theorem Keeps.forEach {ι : Type} {f : ι → Machine σ ε Unit} {items : List ι}
    (h : ∀ a ∈ items, Keeps I E (f a)) : Keeps I E (Machine.forEach f items) := by
  induction items with
  | nil => exact Keeps.pure ()
  | cons a rest ih =>
    refine Keeps.bind (h a List.mem_cons_self) fun _ => ?_
    exact ih fun b hb => h b (List.mem_cons_of_mem _ hb)

end Keeps

/-! ## Avoided faults -/

/-- The program never stops with the fault `e`. -/
def Avoids (e : ε) (x : Machine σ ε α) : Prop := ∀ s, (x s).1 ≠ .error e

section Avoids

variable {e : ε}

/-- To return a value is no fault. -/
theorem Avoids.pure (a : α) : Avoids e (pure a : Machine σ ε α) := fun _ h => nomatch h

/-- Nor is it to read the state. -/
theorem Avoids.read : Avoids e (Machine.read : Machine σ ε σ) := fun _ h => nomatch h

/-- A change of the state does not fault. -/
theorem Avoids.modify (f : σ → σ) : Avoids e (Machine.modify f : Machine σ ε Unit) :=
  fun _ h => nomatch h

/-- Another fault is not the one that is avoided. -/
theorem Avoids.fault {e' : ε} (h : e' ≠ e) : Avoids e (Machine.fault e' : Machine σ ε α) :=
  fun _ heq => h (Except.error.inj heq)

/-- A sequence avoids a fault at a state when its first part does, and the rest does from what
the first part returned. -/
theorem bind_avoids_at {x : Machine σ ε α} {f : α → Machine σ ε β} {s : σ}
    (hx : (x s).1 ≠ .error e) (hf : ∀ a s', x s = (.ok a, s') → (f a s').1 ≠ .error e) :
    ((x >>= f) s).1 ≠ .error e := by
  rcases h : x s with ⟨e' | a, s'⟩
  · rw [bind_apply_error h]
    rw [h] at hx
    exact fun heq => hx (congrArg Except.error (Except.error.inj heq))
  · rw [bind_apply_ok h]
    exact hf a s' h

/-- A sequence avoids a fault that its parts avoid. -/
theorem Avoids.bind {x : Machine σ ε α} {f : α → Machine σ ε β} (hx : Avoids e x)
    (hf : ∀ a, Avoids e (f a)) : Avoids e (x >>= f) :=
  fun s => bind_avoids_at (hx s) fun a s' _ => hf a s'

/-- So does a conditional. -/
theorem Avoids.ite {c : Prop} [Decidable c] {x y : Machine σ ε α} (hx : Avoids e x)
    (hy : Avoids e y) : Avoids e (if c then x else y) := by
  split
  · exact hx
  · exact hy

/-- So does a guarded program. -/
theorem Avoids.when {c : Prop} [Decidable c] {x : Machine σ ε Unit} (hx : Avoids e x) :
    Avoids e (Machine.when c x) :=
  Avoids.ite hx (Avoids.pure ())

end Avoids

/-! ## Runs -/

section Runs

variable {ι : Type} (step : ι → Machine σ ε Unit) (allowed : σ → ι → Prop) (start : σ)

/-- The states between the steps of a run whose inputs are all allowed. -/
inductive Run : σ → Prop
  | start : Run start
  | step {s s' : σ} {i : ι} : Run s → allowed s i → step i s = (.ok (), s') → Run s'

/-- The states that a run reaches, be it by a step that faults. -/
inductive Reached : σ → Prop
  | run {s : σ} : Run step allowed start s → Reached s
  | fault {s s' : σ} {i : ι} {e : ε} :
      Run step allowed start s → allowed s i → step i s = (.error e, s') → Reached s'

variable {step allowed start} {I F : σ → Prop} {E : ε → σ → Prop}

/-- An invariant that every allowed step preserves holds between the steps of a run. -/
theorem Run.invariant (hstart : I start)
    (hstep : ∀ i, Triple (fun s => I s ∧ allowed s i) (step i) (fun _ => I) E) {s : σ}
    (h : Run step allowed start s) : I s := by
  induction h with
  | start => exact hstart
  | step _ hallowed hs ih => exact (hstep _ _ ⟨ih, hallowed⟩).1 _ _ hs

/-- What holds of every return and of every fault holds of every reached state. -/
theorem Reached.invariant (hstart : I start)
    (hstep : ∀ i, Triple (fun s => I s ∧ allowed s i) (step i) (fun _ => I) E)
    (hI : ∀ s, I s → F s) (hE : ∀ e s, E e s → F s) {s : σ} (h : Reached step allowed start s) :
    F s := by
  cases h with
  | run hrun => exact hI _ (hrun.invariant hstart hstep)
  | fault hrun hallowed hs =>
    exact hE _ _ ((hstep _ _ ⟨hrun.invariant hstart hstep, hallowed⟩).2 _ _ hs)

/-- A list of allowed inputs is a run. -/
theorem Run.forEach {items : List ι} (hallowed : ∀ s i, allowed s i) {s s' : σ}
    (h : Run step allowed start s) (hs : Machine.forEach step items s = (.ok (), s')) :
    Run step allowed start s' := by
  induction items generalizing s with
  | nil =>
    obtain ⟨-, rfl⟩ := Prod.mk.inj hs
    exact h
  | cons i rest ih =>
    obtain ⟨a, s₁, hfirst, hrest⟩ := bind_ok_iff.mp hs
    exact ih (h.step (hallowed s i) hfirst) hrest

/-- Whether the inputs are allowed one after the other, every step returns, and the last state is
as wanted; between the steps a state may be tidied up for the sake of its evaluation. -/
def runsTo (tidy : σ → σ) (step : ι → Machine σ ε Unit) (allowed : σ → ι → Prop)
    [∀ s i, Decidable (allowed s i)] (wanted : σ → Prop) [DecidablePred wanted] :
    List ι → σ → Bool
  | [], s => wanted s
  | i :: rest, s =>
      decide (allowed s i) && match step i s with
        | (.ok (), s') => runsTo tidy step allowed wanted rest (tidy s')
        | (.error _, _) => false

/-- The same inputs run to a state that is as wanted in both ways. -/
theorem runsTo_and [∀ s i, Decidable (allowed s i)] {wanted wanted' : σ → Prop}
    [DecidablePred wanted] [DecidablePred wanted'] {tidy : σ → σ} {items : List ι} {s : σ}
    (h : runsTo tidy step allowed wanted items s = true)
    (h' : runsTo tidy step allowed wanted' items s = true) :
    runsTo tidy step allowed (fun s => wanted s ∧ wanted' s) items s = true := by
  induction items generalizing s with
  | nil => exact decide_eq_true ⟨of_decide_eq_true h, of_decide_eq_true h'⟩
  | cons i rest ih =>
    rw [runsTo, Bool.and_eq_true_iff] at h h' ⊢
    refine ⟨h.1, ?_⟩
    rcases hstep : step i s with ⟨_ | ⟨⟩, s'⟩
    · rw [hstep] at h
      cases h.2
    · rw [hstep] at h h'
      exact ih h.2 h'.2

/-- A list of inputs that runs to a wanted state is a run to it. -/
theorem Run.of_runsTo [∀ s i, Decidable (allowed s i)] {wanted : σ → Prop} [DecidablePred wanted]
    {tidy : σ → σ} (htidy : ∀ s, tidy s = s) {items : List ι} {s : σ}
    (h : Run step allowed start s) (hs : runsTo tidy step allowed wanted items s = true) :
    ∃ s', Run step allowed start s' ∧ wanted s' := by
  induction items generalizing s with
  | nil => exact ⟨s, h, by simpa [runsTo] using hs⟩
  | cons i rest ih =>
    rw [runsTo, Bool.and_eq_true_iff] at hs
    rcases hstep : step i s with ⟨_ | ⟨⟩, s'⟩
    · rw [hstep] at hs
      cases hs.2
    · rw [hstep] at hs
      exact ih (h.step (of_decide_eq_true hs.1) hstep) (htidy s' ▸ hs.2)

/-- It returns that state. -/
theorem forEach_of_runsTo [∀ s i, Decidable (allowed s i)] {wanted : σ → Prop}
    [DecidablePred wanted] {tidy : σ → σ} (htidy : ∀ s, tidy s = s) {items : List ι} {s : σ}
    (hs : runsTo tidy step allowed wanted items s = true) :
    ∃ s', Machine.forEach step items s = (.ok (), s') ∧ wanted s' := by
  induction items generalizing s with
  | nil => exact ⟨s, rfl, by simpa [runsTo] using hs⟩
  | cons i rest ih =>
    rw [runsTo, Bool.and_eq_true_iff] at hs
    rcases hstep : step i s with ⟨_ | ⟨⟩, s'⟩
    · rw [hstep] at hs
      cases hs.2
    · rw [hstep] at hs
      rw [Machine.forEach, bind_apply_ok hstep]
      exact ih (htidy s' ▸ hs.2)

end Runs

end Machine
