import Abyss.Tracee.Frame

/-!
# Errors of emulated ptrace requests

A request about a stopped ptracee asks the host for what it needs, one thing after the other. If
the host fails, the error is given back, and nothing has changed; the ptracee is not restarted.
Three requests do not do so: two give back what the host's ptrace returns, which is -1, and one goes
on to restart the ptracee.
-/

namespace Abyss

open Machine

/-! ## Requests in two parts -/

section Requests

variable (s : Setup)

end Requests

/-! ## Failures of the host -/

/-- A call that was made between two worlds failed with an error. -/
def Failed (s : Setup) (w v : World) (c : Call) (e : ℤ) : Prop :=
  0 < e ∧ ∃ past, w.calls <:+ past ∧ c :: past <:+ v.calls ∧ (s.host (c :: past)).status = -e

/-- The program changes no record, and gives back the error of a call that fails, or -1 for some of
the calls. -/
def Relays (s : Setup) (slips : Call → Bool) (x : Prog ℤ) : Prop :=
  ∀ w, ∃ result v, x w = (result, v) ∧ v.heap = w.heap ∧ w.calls <:+ v.calls ∧
    ∀ c e, Failed s w v c e → result = .ok (if slips c = true then -1 else -e)

section Relays

variable {s : Setup} {w v : World} {c c' : Call} {e : ℤ} {slips : Call → Bool}

/-- Where no call was made none failed. -/
theorem not_failed (h : v.calls = w.calls) : ¬Failed s w v c e := by
  rintro ⟨-, past, hpast, hcall, -⟩
  have hle := (hpast.trans ((List.suffix_cons c past).trans hcall)).length_le
  have hlt := hcall.length_le
  rw [h] at hlt
  have := hpast.length_le
  rw [List.length_cons] at hlt
  omega

/-- A call that failed is the first one, or was made after it. -/
theorem Failed.cases (h : Failed s w v c e) (hv : (w.log c').calls <:+ v.calls) :
    c = c' ∧ (s.host (c' :: w.calls)).status = -e ∨ Failed s (w.log c') v c e := by
  obtain ⟨he, past, hpast, hcall, hstatus⟩ := h
  have hle := hpast.length_le
  rcases Nat.lt_or_ge w.calls.length past.length with hlt | hge
  · refine Or.inr ⟨he, past, ?_, hcall, hstatus⟩
    refine List.suffix_of_suffix_length_le hv ((List.suffix_cons c past).trans hcall) ?_
    rw [World.log_calls, List.length_cons]
    exact hlt
  · obtain rfl : w.calls = past := hpast.eq_of_length_le hge
    have hsame : c' :: w.calls = c :: w.calls :=
      (List.suffix_of_suffix_length_le hv hcall (Nat.le_refl _)).eq_of_length rfl
    obtain rfl := (List.cons.inj hsame).1
    exact Or.inl ⟨rfl, hstatus⟩

/-- A status that does not come from the host is relayed. -/
theorem Relays.pure (status : ℤ) : Relays s slips (pure status) := fun w =>
  ⟨_, w, rfl, rfl, List.suffix_refl _, fun _ _ h => absurd h (not_failed rfl)⟩

/-- The record of a tracee may be looked at first. -/
theorem Relays.tracee {r : Ref} {f : Tracee → Prog ℤ} (h : ∀ t, Relays s slips (f t)) :
    Relays s slips (tracee r >>= f) :=
  fun w => h (w.heap r) w

/-- A conditional relays errors if its branches do where they are taken. -/
theorem Relays.ite {p : Prop} [Decidable p] {x y : Prog ℤ} (hx : p → Relays s slips x)
    (hy : ¬p → Relays s slips y) : Relays s slips (if p then x else y) := by
  split
  · exact hx ‹_›
  · exact hy ‹_›

/-- A processor may be asserted first. -/
theorem Relays.convertUser {m : Mode} {x : Prog ℤ} (hx : Relays s slips x) :
    Relays s slips (convertUser m >>= fun _ => x) := by
  unfold Abyss.convertUser assert
  split
  · exact hx
  · exact fun w => ⟨_, w, rfl, rfl, List.suffix_refl _, fun _ _ h => absurd h (not_failed rfl)⟩

/-- The host is asked, and a program goes on with its reply unless it fails. -/
theorem Relays.ask {onError : Reply → ℤ} {next : Reply → Prog ℤ}
    (herror : ∀ reply : Reply, reply.status < 0 →
      onError reply = if slips c = true then -1 else reply.status)
    (hnext : ∀ reply, Relays s slips (next reply)) :
    Relays s slips (do
      let reply ← ask s c
      if reply.status < 0 then Pure.pure (onError reply) else next reply) := by
  intro w
  rw [bind_apply_ok (ask_apply s c w)]
  by_cases hfail : (s.host (c :: w.calls)).status < 0
  · rw [if_pos hfail]
    refine ⟨_, w.log c, rfl, rfl, List.suffix_cons c _, fun c' e h => ?_⟩
    rcases h.cases (List.suffix_refl _) with ⟨rfl, hstatus⟩ | hlater
    · rw [herror _ hfail, hstatus]
    · exact absurd hlater (not_failed rfl)
  · rw [if_neg hfail]
    obtain ⟨result, v, hrun, hheap, hcalls, hreport⟩ := hnext (s.host (c :: w.calls)) (w.log c)
    refine ⟨result, v, hrun, hheap, (List.suffix_cons c _).trans hcalls, fun c' e h => ?_⟩
    rcases h.cases hcalls with ⟨-, hstatus⟩ | hlater
    · have hpos := h.1
      omega
    · exact hreport c' e hlater

/-- An error that is given back is relayed. -/
theorem Relays.askOrReturn {next : Reply → Prog ℤ} (hc : slips c = false)
    (hnext : ∀ reply, Relays s slips (next reply)) : Relays s slips (askOrReturn s c next) :=
  Relays.ask (fun _ _ => by rw [hc, if_neg Bool.false_ne_true]) hnext

/-- An error that is replaced by -1 slips. -/
theorem Relays.askOrFail {next : Reply → Prog ℤ} (hc : slips c = true)
    (hnext : ∀ reply, Relays s slips (next reply)) : Relays s slips (askOrFail s c next) :=
  Relays.ask (fun _ _ => by rw [hc, if_pos rfl]) hnext

end Relays

/-! ## Requests that report failures -/

/-- The host's ptrace for a request. -/
def Call.isPtrace (request : ℕ) : Call → Bool
  | .ptrace request' _ _ _ => request' = request
  | _ => false

/-- The calls of passive requests whose failure is given back as -1. -/
def Call.slips (c : Call) : Bool := c.isPtrace ptraceGetregset || c.isPtrace ptraceSetregset

section Passive

variable {s : Setup}

end Passive

/-! ## Failed requests -/

section Failures

variable (s : Setup)

variable {s} {handle : Ref → ℤ → Prog ℤ} {w : World} {ptracer ptracee : Ref}

end Failures

/-! ## A request that fails -/

end Abyss
