import Mathlib.Data.List.Basic

/-!
# Computations that ask

A computation asks questions one after the other and goes on from the answers. An answer that is
an error ends it with this error.

What it returns only depends on the answers to the questions that it asks. Of a family of ways to
answer that only agree on some of the questions, and otherwise can end with different errors, it
is therefore independent exactly if it asks none of the other questions.
-/

/-- A computation with a result, or a question and the rest of it for each answer. -/
inductive Inquiry (ι ω ε α : Type) where
  | done (result : Except ε α)
  | ask (question : ι) (next : ω → Inquiry ι ω ε α)

namespace Inquiry

variable {ι ω ε α β : Type}

/-- Go on with a result. -/
def bind : Inquiry ι ω ε α → (α → Inquiry ι ω ε β) → Inquiry ι ω ε β
  | .done (.ok a), f => f a
  | .done (.error e), _ => .done (.error e)
  | .ask question next, f => .ask question fun answer => (next answer).bind f

instance : Monad (Inquiry ι ω ε) where
  pure a := .done (.ok a)
  bind := bind

/-- A question whose answer is the result. -/
def question (q : ι) : Inquiry ι ω ε ω := .ask q fun answer => .done (.ok answer)

/-- What is returned for given answers. -/
def run (answer : ι → Except ε ω) : Inquiry ι ω ε α → Except ε α
  | .done result => result
  | .ask question next =>
    match answer question with
    | .error e => .error e
    | .ok reply => (next reply).run answer

/-- The questions that are asked for given answers. -/
def asked (answer : ι → Except ε ω) : Inquiry ι ω ε α → List ι
  | .done _ => []
  | .ask question next =>
    question :: match answer question with
      | .error _ => []
      | .ok reply => (next reply).asked answer

variable {answer answer' : ι → Except ε ω} {x : Inquiry ι ω ε α}

/-- A question asks for itself only. -/
theorem asked_question (q : ι) : (question q : Inquiry ι ω ε ω).asked answer = [q] := by
  rw [question, asked]
  cases answer q <;> rfl

/-- A sequence runs one part after the other. -/
theorem run_bind (f : α → Inquiry ι ω ε β) :
    (x >>= f).run answer = (x.run answer).bind fun a => (f a).run answer := by
  induction x with
  | done result => cases result <;> rfl
  | ask question next ih =>
    change (Inquiry.ask question fun reply => (next reply).bind f).run answer = _
    rw [run, run]
    cases answer question with
    | error e => rfl
    | ok reply => exact ih reply

/-- A sequence asks the questions of its parts. -/
theorem asked_bind (f : α → Inquiry ι ω ε β) :
    (x >>= f).asked answer = x.asked answer ++ match x.run answer with
      | .error _ => []
      | .ok a => (f a).asked answer := by
  induction x with
  | done result => cases result <;> rfl
  | ask question next ih =>
    change (Inquiry.ask question fun reply => (next reply).bind f).asked answer = _
    rw [asked, asked, run, List.cons_append]
    cases answer question with
    | error e => rfl
    | ok reply => exact congrArg (question :: ·) (ih reply)

/-- Only the answers to the questions that are asked count. -/
theorem run_congr (h : ∀ q ∈ x.asked answer, answer q = answer' q) :
    x.run answer = x.run answer' := by
  induction x with
  | done result => rfl
  | ask question next ih =>
    rw [asked] at h
    rw [run, run, ← h question List.mem_cons_self]
    cases hreply : answer question with
    | error e => rfl
    | ok reply =>
      rw [hreply] at h
      exact ih reply fun q hq => h q (List.mem_cons_of_mem _ hq)

/-- Where the first answer that is not shared is an error, it is the result. -/
theorem run_error {shared : ι → Prop} {e : ε} (hsame : ∀ q, shared q → answer q = answer' q)
    (herror : ∀ q, ¬shared q → answer' q = .error e) (h : ∃ q ∈ x.asked answer, ¬shared q) :
    x.run answer' = .error e := by
  induction x with
  | done result =>
    obtain ⟨q, hq, -⟩ := h
    cases hq
  | ask question next ih =>
    rw [run]
    by_cases hshared : shared question
    · obtain ⟨q, hq, hnot⟩ := h
      rw [← hsame question hshared]
      rw [asked] at hq
      rcases List.mem_cons.mp hq with rfl | hq
      · exact absurd hshared hnot
      · cases hreply : answer question with
        | error e =>
          rw [hreply] at hq
          cases hq
        | ok reply =>
          rw [hreply] at hq
          exact ih reply ⟨q, hq, hnot⟩
    · rw [herror question hshared]

/-! ## Families of answers -/

section Families

variable {κ : Type} {shared : ι → Prop} (answers : κ → ι → Except ε ω)

/-- A computation that only asks questions with shared answers has one result. -/
theorem run_shared (hsame : ∀ c c' q, shared q → answers c q = answers c' q) {c₀ : κ}
    (h : ∀ q ∈ x.asked (answers c₀), shared q) (c : κ) :
    x.run (answers c) = x.run (answers c₀) :=
  (run_congr fun q hq => hsame c₀ c q (h q hq)).symm

/-- The result is the same for all answers exactly if only questions with shared answers are
asked. -/
theorem run_constant_iff (hsame : ∀ c c' q, shared q → answers c q = answers c' q)
    {c₁ c₂ : κ} {e₁ e₂ : ε} (hne : e₁ ≠ e₂)
    (herror₁ : ∀ q, ¬shared q → answers c₁ q = .error e₁)
    (herror₂ : ∀ q, ¬shared q → answers c₂ q = .error e₂) (c₀ : κ) :
    (∀ c c', x.run (answers c) = x.run (answers c')) ↔
      ∀ q ∈ x.asked (answers c₀), shared q := by
  constructor
  · intro hconstant
    by_contra hasked
    have hother : ∃ q ∈ x.asked (answers c₀), ¬shared q := by simpa using hasked
    have hresult := hconstant c₁ c₂
    rw [run_error (hsame c₀ c₁) herror₁ hother, run_error (hsame c₀ c₂) herror₂ hother] at hresult
    exact hne (Except.error.inj hresult)
  · intro h c c'
    rw [run_shared answers hsame h c, run_shared answers hsame h c']

end Families

end Inquiry
