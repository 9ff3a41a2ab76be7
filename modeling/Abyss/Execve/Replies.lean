import Abyss.Execve.Enter
import Abyss.Syscall.Cancelled

/-!
# The replies for an `execve`

The stages of a syscall leave the files to the host, and only look at the status of each reply: that
of the path, of the scripts and of the headers. Where the host replies as the front end of `execve`
does, the status of the entry is the verdict of the front end, so that an `execve` is cancelled
exactly if the front end does not accept the executable.
-/

namespace Abyss.Execve

open Machine

/-- A status tells a result: it is negative for an error, which has this status. -/
def Tells {α : Type} : Except Stop α → ℤ → Prop
  | .ok _, z => 0 ≤ z
  | .error stop, z => z < 0 ∧ stop = .status z

/-- A reply for the headers of a file tells whether there is an interpreter, too. -/
def TellsInterp (result : Except Stop (Option Path)) (reply : Reply) : Prop :=
  Tells result reply.status ∧ ∀ interp, result = .ok interp → reply.value.testBit 1 = interp.isSome

/-- Where there is memory the host of the tracer replies what the front end returns for a path: for
the path itself, for its scripts, for the headers of the executable and for those of its interpreter,
which are asked for next. -/
structure Replies (s : Setup) (h : Host) (getcwd : Getcwd) (sysarg : Except Stop Path) : Prop where
  memory : ∀ allocation, h.allocates allocation = true
  alloc : ∀ calls, 0 ≤ (s.host (.alloc :: calls)).status
  readPath : ∀ pid address calls, Tells sysarg (s.host (.readPath pid address :: calls)).status
  expandShebang : ∀ userPath calls, sysarg = .ok userPath →
    Tells ((expandShebang h userPath).result h.link getcwd) (s.host (.expandShebang :: calls)).status
  program : ∀ userPath found calls, sysarg = .ok userPath →
    (Execve.expandShebang h userPath).result h.link getcwd = .ok found →
    TellsInterp ((extractLoadInfo h false found.2.1).result h.link getcwd)
      (s.host (.extractLoadInfo :: .alloc :: calls))
  interp : ∀ userPath found interpPath calls, sysarg = .ok userPath →
    (Execve.expandShebang h userPath).result h.link getcwd = .ok found →
    (extractLoadInfo h false found.2.1).result h.link getcwd = .ok (some interpPath) →
    TellsInterp ((extractLoadInfo h true interpPath).result h.link getcwd)
      (s.host (.extractLoadInfo :: .extractLoadInfo :: calls))

/-- A loader tells that it is done, by the arguments of its `execve`. -/
def loadDoneOf (s : Setup) (t : Tracee) : Bool :=
  let arg := peekReg (t.mode s.target) t.regs .original
  t.asPtracee.ptracer.isSome && arg .sysarg1 = 1 && arg .sysarg4 = 2 && arg .sysarg5 = 3 &&
    arg .sysarg6 = 4

section Replies

variable {s : Setup} {h : Host} {getcwd : Getcwd} {sysarg : Except Stop Path} {r : Ref} {w : World}
  {α : Type} {result : Except Stop α}

/-- The program ends with a status that tells a result. -/
def EndsAs (x : Prog ℤ) (w : World) (result : Except Stop α) : Prop :=
  ∃ z w', x w = (.ok z, w') ∧ Tells result z

/-- An error ends the entry with its status. -/
theorem EndsAs.of_error {β : Type} {z : ℤ} {stop : Stop} (hz : Tells (.error stop : Except Stop α) z)
    (g : α → Except Stop β) (x : Prog ℤ) : EndsAs (if z < 0 then pure z else x) w (.error stop >>= g) :=
  ⟨z, w, by rw [if_pos hz.1]; rfl, hz⟩

/-- There is memory for what is allocated. -/
theorem Replies.alloc_bind (hreplies : Replies s h getcwd sysarg) (f : Reply → Prog ℤ) (z : ℤ) :
    (ask s .alloc >>= fun reply => if reply.status < 0 then pure z else f reply) w =
      f (s.host (.alloc :: w.calls)) (w.log .alloc) := by
  rw [bind_apply_ok (ask_apply ..), if_neg (not_lt.mpr (hreplies.alloc _))]

/-- The headers are extracted as the front end says. -/
theorem Replies.extractLoadInfos_endsAs (hreplies : Replies s h getcwd sysarg) {userPath : Path}
    {found : Bool × Path × Path} (hpath : sysarg = .ok userPath)
    (hfound : (Execve.expandShebang h userPath).result h.link getcwd = .ok found)
    {calls : List Call} (hcalls : w.calls = .alloc :: calls) :
    EndsAs (Abyss.extractLoadInfos s r) w ((extractLoadInfos h found.2.1).result h.link getcwd) := by
  have hmemory := not_allocates_false hreplies.memory
  have hverdict : (extractLoadInfos h found.2.1).result h.link getcwd =
      (extractLoadInfo h false found.2.1).result h.link getcwd >>= fun interp =>
        Front.result (interp.elim (pure ()) fun interpPath => do
          let nested ← extractLoadInfo h true interpPath
          if nested.isSome then Front.of (status (-einval)) else pure ()) h.link getcwd := by
    unfold extractLoadInfos
    rw [if_neg (hmemory _), if_neg (hmemory _), if_neg (hmemory _), Front.result_bind]
    congr 1
    funext interp
    cases interp <;> rfl
  rw [hverdict]
  have hprogram := hreplies.program userPath found calls hpath hfound
  have hinterp := hreplies.interp userPath found
  unfold EndsAs Abyss.extractLoadInfos
  rw [bind_apply_ok (ask_apply ..), bind_apply_ok (update_apply ..), hcalls]
  generalize hfirst : s.host (.extractLoadInfo :: .alloc :: calls) = reply at hprogram
  cases hresult : (extractLoadInfo h false found.2.1).result h.link getcwd with
  | error stop =>
    rw [hresult] at hprogram
    exact EndsAs.of_error hprogram.1 _ _
  | ok interp =>
    rw [hresult] at hprogram hinterp
    rw [if_neg (not_lt.mpr hprogram.1), hprogram.2 interp rfl]
    cases interp with
    | none => exact ⟨0, _, rfl, le_rfl⟩
    | some interpPath =>
      have hnested := hinterp interpPath (.alloc :: calls) hpath hfound rfl
      rw [if_pos (show (some interpPath).isSome = true from rfl), Outcome.ok_bind, Option.elim_some,
        Front.result_bind, askOrReturn, bind_apply_ok (ask_apply ..), World.update_calls,
        World.log_calls, hcalls]
      generalize s.host (.extractLoadInfo :: .extractLoadInfo :: .alloc :: calls) = reply' at hnested
      cases hinner : (extractLoadInfo h true interpPath).result h.link getcwd with
      | error stop =>
        rw [hinner] at hnested
        exact EndsAs.of_error hnested.1 _ _
      | ok nested =>
        rw [hinner] at hnested
        rw [if_neg (not_lt.mpr hnested.1), hnested.2 nested rfl, Outcome.ok_bind]
        cases nested with
        | none => exact ⟨0, _, rfl, le_rfl⟩
        | some _ => exact ⟨-einval, _, rfl, by decide, rfl⟩

/-- The status of the entry of an `execve` is the verdict of the front end. -/
theorem Replies.translateExecveEnter_endsAs (hreplies : Replies s h getcwd sysarg)
    (hnull : peekReg ((w.heap r).mode s.target) (w.heap r).regs .current .sysarg1 = 0 →
      sysarg = .ok []) :
    EndsAs (Abyss.translateExecveEnter s r) w
      (translateExecveEnter h getcwd (loadDoneOf s (w.heap r)) sysarg) := by
  have hnotified : isNotificationPtracedLoadDone s r w = (.ok (loadDoneOf s (w.heap r)), w) := rfl
  unfold EndsAs Abyss.translateExecveEnter
  rw [bind_apply_ok hnotified]
  cases loadDoneOf s (w.heap r) with
  | true => exact ⟨0, _, rfl, le_rfl⟩
  | false =>
    rw [if_neg Bool.false_ne_true]
    have hargument : ∃ path w₁, sysargPath s r .sysarg1 w = (.ok path, w₁) ∧ Tells sysarg path := by
      rcases sysargPath_cases s r .sysarg1 w with ⟨haddress, hrun⟩ | ⟨-, hrun⟩
      · exact ⟨0, w, hrun, hnull haddress ▸ le_rfl⟩
      · exact ⟨_, _, hrun, hreplies.readPath _ _ _⟩
    obtain ⟨path, w₁, hrun, hpath⟩ := hargument
    rw [bind_apply_ok hrun]
    cases hsysarg : sysarg with
    | error stop =>
      rw [hsysarg] at hpath
      exact EndsAs.of_error hpath _ _
    | ok userPath =>
      rw [hsysarg] at hpath
      rw [if_neg (not_lt.mpr hpath), hreplies.alloc_bind,
        translateExecveEnter_path (hreplies.memory _), bind_apply_ok (ask_apply ..)]
      have hshebang := hreplies.expandShebang userPath (.alloc :: w₁.calls) hsysarg
      rw [World.log_calls]
      cases hfound : (Execve.expandShebang h userPath).result h.link getcwd with
      | error stop =>
        rw [hfound] at hshebang
        obtain ⟨hnegative, rfl⟩ := hshebang
        rw [if_pos hnegative]
        refine ⟨_, _, rfl, ?_⟩
        change Tells (Except.error (if _ then _ else _) : Except Stop Unit) _
        split_ifs
        · exact ⟨by decide, rfl⟩
        · exact ⟨hnegative, rfl⟩
      | ok found =>
        rw [hfound] at hshebang
        rw [if_neg (not_lt.mpr hshebang), bind_apply_ok (update_apply ..), hreplies.alloc_bind,
          bind_apply_ok (update_apply ..), hreplies.alloc_bind, hreplies.alloc_bind]
        exact hreplies.extractLoadInfos_endsAs hsysarg hfound rfl

/-- The entry of an `execve` fails exactly if the front end does not accept the executable. -/
theorem Replies.translateExecveEnter_fails_iff (hreplies : Replies s h getcwd sysarg)
    (hnull : peekReg ((w.heap r).mode s.target) (w.heap r).regs .current .sysarg1 = 0 →
      sysarg = .ok []) :
    (∃ z w', Abyss.translateExecveEnter s r w = (.ok z, w') ∧ z < 0) ↔
      ∃ stop, translateExecveEnter h getcwd (loadDoneOf s (w.heap r)) sysarg = .error stop := by
  obtain ⟨z, w', hrun, htells⟩ := hreplies.translateExecveEnter_endsAs hnull
  cases hverdict : translateExecveEnter h getcwd (loadDoneOf s (w.heap r)) sysarg with
  | error stop =>
    rw [hverdict] at htells
    exact iff_of_true ⟨z, w', hrun, htells.1⟩ ⟨stop, rfl⟩
  | ok _ =>
    rw [hverdict] at htells
    refine iff_of_false ?_ nofun
    rintro ⟨z', w'', hrun', hnegative⟩
    rw [hrun] at hrun'
    obtain rfl := Except.ok.inj (Prod.mk.inj hrun').1
    exact absurd hnegative (not_lt.mpr htells)

end Replies

/-- The host of the tracer may reply so: the file that is executed cannot be opened. -/
example : Replies
    ⟨arm64 fun _ => .void, fun
      | .expandShebang :: _ => { status := -enoent }
      | _ => {}, false, false⟩ oneExecutable (.ok [slash]) (.ok [47, 98, 47, 120]) where
  memory _ := rfl
  alloc _ := le_rfl
  readPath _ _ _ := le_rfl
  expandShebang := by
    rintro _ _ ⟨⟩
    exact ⟨neg_neg_of_pos (by decide : 0 < enoent), rfl⟩
  program := by
    rintro _ _ _ ⟨⟩ hfound
    cases hfound
  interp := by
    rintro _ _ _ _ ⟨⟩ hfound
    cases hfound

end Abyss.Execve
