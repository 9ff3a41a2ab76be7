import Abyss.Execve.FirstLine
import Abyss.Library.Steps

/-!
# Chains of interpreters

A script is replaced by its interpreter, which may be a script again. Each path on the way is
translated, and its file is checked, before it is asked for its interpreter.

What is found is the last element of this chain, together with its translation; a chain that
does not end within the limit is an error, and so is everything on the way that fails. The chain is
that of the interpreters which the texts of the scripts name, as long as no script ends with the path
of its interpreter.
-/

namespace Abyss.Execve

open Bytes

section Chains

variable (h : Host) (translate : Path → Except Stop Path)
  (shebang : Path → Except Stop (Option Path))

/-- The path has this translation, whose file can be executed. -/
structure Executable (path hostPath : Path) : Prop where
  nonempty : path ≠ []
  translated : translate path = .ok hostPath
  accessible : h.accessible hostPath = true
  executable : h.executable hostPath = true
  statable : h.statable hostPath = true

/-- A script that can be executed has an interpreter that can be executed; `shebang` tells the
interpreter of a file. -/
def Interprets (script interp : Path) : Prop :=
  ∃ hostScript hostInterp, Executable h translate script hostScript ∧
    shebang hostScript = .ok (some interp) ∧ Executable h translate interp hostInterp

/-- Memory for the paths of the levels up to a limit. -/
def HasMemory (levels : ℕ) : Prop := ∀ i < levels, h.allocates (.oldUserPath i) = true

/-- What is returned for the path at a level, from the translation of the path on. -/
def levelResult (levels i : ℕ) (path : Path) (hasShebang : Bool) (hostPath : Path) :
    Except Stop (Bool × Path × Path) :=
  if h.allocates (.oldUserPath i) = false then status (-enomem)
  else (extractShebang h hostPath).bind fun
    | none => .ok (hasShebang, hostPath, path)
    | some interp => ((translateAndCheckExec h interp).run translate).bind fun _ =>
      (expandShebangFrom h levels (i + 1) interp true).run translate

variable {h translate} {path hostPath : Path} {stop : Stop}

/-- A result without paths is what it is. -/
theorem run_of {α : Type} (result : Except Stop α) : (Front.of result).run translate = result := rfl

/-- The check of a path. -/
theorem translateAndCheckExec_run :
    (translateAndCheckExec h path).run translate =
      if path = [] then status (-enoexec)
      else (translate path).bind fun hostPath =>
        if h.accessible hostPath = false then status (-enoent)
        else if h.executable hostPath = false then status (-eacces)
        else if h.statable hostPath = false then status (-eperm)
        else .ok hostPath := by
  unfold translateAndCheckExec
  split
  · rfl
  · rw [Inquiry.run_bind]
    have hquestion : (Inquiry.question path : Front Path).run translate = translate path := by
      rw [Inquiry.question, Inquiry.run]
      cases translate path <;> rfl
    rw [hquestion]
    refine congrArg (translate path).bind (funext fun hostPath => ?_)
    split_ifs <;> rfl

/-- What is checked of a path. -/
theorem translateAndCheckExec_ok_iff :
    (translateAndCheckExec h path).run translate = .ok hostPath ↔
      Executable h translate path hostPath := by
  rw [translateAndCheckExec_run]
  constructor
  · intro hok
    split at hok
    · cases hok
    · rename_i hne
      cases htranslate : translate path with
      | error stop =>
        rw [htranslate] at hok
        cases hok
      | ok hostPath' =>
        rw [htranslate] at hok
        change (if _ then _ else if _ then _ else if _ then _ else _) = _ at hok
        split_ifs at hok with haccess hexec hstat
        · cases hok
        · cases hok
        · cases hok
        · obtain rfl := Except.ok.inj hok
          exact ⟨hne, htranslate, Bool.not_eq_false _ ▸ haccess, Bool.not_eq_false _ ▸ hexec,
            Bool.not_eq_false _ ▸ hstat⟩
  · rintro ⟨hne, htranslate, haccess, hexec, hstat⟩
    rw [if_neg hne, htranslate]
    change (if _ then _ else if _ then _ else if _ then _ else _) = _
    rw [if_neg (by simp [haccess]), if_neg (by simp [hexec]), if_neg (by simp [hstat])]

/-- A path has one translation. -/
theorem Executable.unique {hostPath' : Path} (hpath : Executable h translate path hostPath)
    (hpath' : Executable h translate path hostPath') : hostPath' = hostPath :=
  Except.ok.inj (hpath'.translated.symm.trans hpath.translated)

/-- Each level begins with the check of its path. -/
theorem expandShebangFrom_succ (levels i : ℕ) (path : Path) (hasShebang : Bool) :
    (expandShebangFrom h (levels + 1) i path hasShebang).run translate =
      ((translateAndCheckExec h path).run translate).bind
        (levelResult h translate levels i path hasShebang) := by
  rw [expandShebangFrom, Inquiry.run_bind]
  refine congrArg _ (funext fun hostPath => ?_)
  unfold levelResult
  split
  · rfl
  · rw [Inquiry.run_bind, run_of]
    refine congrArg _ (funext fun found => ?_)
    cases found with
    | none => rfl
    | some interp => exact Inquiry.run_bind _

/-- The chain is followed level by level. -/
theorem expandShebangFrom_steps (levels i : ℕ) (hasShebang : Bool) {n : ℕ} {script interp : Path}
    (hsteps : Steps (Interprets h translate (extractShebang h)) n script interp)
    (hmemory : ∀ j < n, h.allocates (.oldUserPath (i + j)) = true) :
    (expandShebangFrom h (levels + n) i script hasShebang).run translate =
      (expandShebangFrom h levels (i + n) interp (hasShebang || decide (0 < n))).run translate := by
  induction hsteps generalizing i hasShebang with
  | refl path => simp
  | @step n script interp last hinterp _ ih =>
    obtain ⟨hostScript, hostInterp, hscript, hshebang, hchecked⟩ := hinterp
    have hfirst : h.allocates (.oldUserPath i) = true := hmemory 0 (Nat.succ_pos n)
    rw [← Nat.add_assoc, expandShebangFrom_succ, translateAndCheckExec_ok_iff.mpr hscript]
    change levelResult h translate (levels + n) i script hasShebang hostScript = _
    rw [levelResult, if_neg (by simp [hfirst]), hshebang]
    change ((translateAndCheckExec h interp).run translate).bind _ = _
    rw [translateAndCheckExec_ok_iff.mpr hchecked]
    change (expandShebangFrom h (levels + n) (i + 1) interp true).run translate = _
    rw [ih (i + 1) true fun j hj => ?_]
    · simp [Nat.add_comm 1 n, Nat.add_assoc]
    · have hnext := hmemory (j + 1) (Nat.succ_lt_succ hj)
      rwa [Nat.add_right_comm, Nat.add_assoc]

/-- What is found is the end of the chain. -/
theorem expandShebangFrom_found {levels i : ℕ} {script last : Path} {hasShebang found : Bool}
    (hresult : (expandShebangFrom h levels i script hasShebang).run translate =
      .ok (found, hostPath, last)) :
    ∃ n < levels, (∀ j ≤ n, h.allocates (.oldUserPath (i + j)) = true) ∧
      Steps (Interprets h translate (extractShebang h)) n script last ∧
      found = (hasShebang || decide (0 < n)) ∧ Executable h translate last hostPath ∧
      extractShebang h hostPath = .ok none := by
  induction levels generalizing i script hasShebang with
  | zero => cases hresult
  | succ levels ih =>
    rw [expandShebangFrom_succ] at hresult
    cases hcheck : (translateAndCheckExec h script).run translate with
    | error stop =>
      rw [hcheck] at hresult
      cases hresult
    | ok hostScript =>
      have hscript := translateAndCheckExec_ok_iff.mp hcheck
      rw [hcheck] at hresult
      change levelResult h translate levels i script hasShebang hostScript = _ at hresult
      rw [levelResult] at hresult
      split at hresult
      · cases hresult
      · rename_i hmemory
        rw [Bool.not_eq_false] at hmemory
        cases hshebang : extractShebang h hostScript with
        | error stop =>
          rw [hshebang] at hresult
          cases hresult
        | ok interp =>
          rw [hshebang] at hresult
          cases interp with
          | none =>
            obtain ⟨rfl, rfl, rfl⟩ : hasShebang = found ∧ hostScript = hostPath ∧ script = last := by
              simpa using Except.ok.inj hresult
            refine ⟨0, Nat.succ_pos _, fun j hj => ?_, .refl _, by simp, hscript, hshebang⟩
            rwa [Nat.le_zero.mp hj]
          | some interp =>
            change ((translateAndCheckExec h interp).run translate).bind _ = _ at hresult
            cases hcheck' : (translateAndCheckExec h interp).run translate with
            | error stop =>
              rw [hcheck'] at hresult
              cases hresult
            | ok hostInterp =>
              rw [hcheck'] at hresult
              obtain ⟨n, hn, hbehind, hsteps, hfound, hlast, hplain⟩ := ih hresult
              refine ⟨n + 1, Nat.succ_lt_succ hn, fun j hj => ?_,
                .step ⟨hostScript, hostInterp, hscript, hshebang,
                  translateAndCheckExec_ok_iff.mp hcheck'⟩ hsteps,
                by simp [hfound], hlast, hplain⟩
              cases j with
              | zero => exact hmemory
              | succ j =>
                have hnext := hbehind j (Nat.le_of_succ_le_succ hj)
                rwa [Nat.add_right_comm, Nat.add_assoc] at hnext

/-- What is asked for at a script: its own translation and that of its interpreter, and then what the
next level asks for. -/
theorem expandShebangFrom_asked {script hostScript interp : Path} (levels i : ℕ) (hasShebang : Bool)
    (hscript : Executable h translate script hostScript)
    (hmemory : h.allocates (.oldUserPath i) = true)
    (hshebang : extractShebang h hostScript = .ok (some interp)) :
    (expandShebangFrom h (levels + 1) i script hasShebang).asked translate =
      script :: ((if interp = [] then [] else [interp]) ++
        match (translateAndCheckExec h interp).run translate with
        | .error _ => []
        | .ok _ => (expandShebangFrom h levels (i + 1) interp true).asked translate) := by
  rw [expandShebangFrom, Inquiry.asked_bind, translateAndCheckExec_asked, if_neg hscript.nonempty,
    translateAndCheckExec_ok_iff.mpr hscript]
  refine congrArg (script :: ·) ?_
  dsimp only
  rw [if_neg (by simp [hmemory]), Inquiry.asked_bind, run_of, hshebang]
  change (translateAndCheckExec h interp >>= fun _ =>
    expandShebangFrom h levels (i + 1) interp true).asked translate = _
  rw [Inquiry.asked_bind, translateAndCheckExec_asked]
  cases (translateAndCheckExec h interp).run translate <;> rfl

/-- Each level of a chain asks twice, before the next one does. -/
theorem expandShebangFrom_asked_steps (levels i : ℕ) (hasShebang : Bool) {n : ℕ}
    {script interp : Path} (hsteps : Steps (Interprets h translate (extractShebang h)) n script interp)
    (hmemory : ∀ j < n, h.allocates (.oldUserPath (i + j)) = true) :
    ∃ before, before.length = 2 * n ∧
      (expandShebangFrom h (levels + n) i script hasShebang).asked translate = before ++
        (expandShebangFrom h levels (i + n) interp (hasShebang || decide (0 < n))).asked
          translate := by
  induction hsteps generalizing i hasShebang with
  | refl path => exact ⟨[], rfl, by simp⟩
  | @step n script interp last hinterp _ ih =>
    obtain ⟨hostScript, hostInterp, hscript, hshebang, hchecked⟩ := hinterp
    have hfirst : h.allocates (.oldUserPath i) = true := hmemory 0 (Nat.succ_pos n)
    obtain ⟨before, hbefore, hasked⟩ := ih (i + 1) true fun j hj => by
      have hnext := hmemory (j + 1) (Nat.succ_lt_succ hj)
      rwa [Nat.add_right_comm, Nat.add_assoc]
    refine ⟨script :: interp :: before, by rw [List.length_cons, List.length_cons, hbefore]; omega, ?_⟩
    rw [← Nat.add_assoc, expandShebangFrom_asked _ i hasShebang hscript hfirst hshebang,
      translateAndCheckExec_ok_iff.mpr hchecked, if_neg hchecked.nonempty]
    dsimp only
    rw [hasked]
    simp [Nat.add_comm 1 n, Nat.add_assoc]

end Chains

/-! ## The end of a chain -/

/-- What is returned for a path: the end of its chain of interpreters with the translation of that
end, if there is one within the limit, and otherwise what has failed on the way. The elements of the
chain are checked one after the other, each as the interpreter of the one before and then again; a
check asks for the translation of the path. -/
structure ExpandsShebang (h : Host) (translate : Path → Except Stop Path)
    (shebang : Path → Except Stop (Option Path)) (path : Path)
    (result : Except Stop (Bool × Path × Path)) (asked : List Path) : Prop where
  found : ∀ hasShebang hostPath last, result = .ok (hasShebang, hostPath, last) →
    ∃ n < h.maxSymlinks, HasMemory h (n + 1) ∧ Steps (Interprets h translate shebang) n path last ∧
      hasShebang = decide (0 < n) ∧ Executable h translate last hostPath ∧
      shebang hostPath = .ok none
  ends : ∀ n < h.maxSymlinks, ∀ hostPath last, Steps (Interprets h translate shebang) n path last →
    HasMemory h (n + 1) → Executable h translate last hostPath →
    shebang hostPath = .ok none → result = .ok (decide (0 < n), hostPath, last)
  tooLong : ∀ last, Steps (Interprets h translate shebang) h.maxSymlinks path last →
    HasMemory h h.maxSymlinks → result = status (-eloop)
  cyclic : ∀ m n last, Steps (Interprets h translate shebang) m path last → 0 < n →
    Steps (Interprets h translate shebang) n last last → HasMemory h h.maxSymlinks →
    result = status (-eloop)
  unchecked : 0 < h.maxSymlinks → ∀ stop,
    (translateAndCheckExec h path).run translate = .error stop → result = .error stop
  noMemory : ∀ n < h.maxSymlinks, ∀ hostScript script,
    Steps (Interprets h translate shebang) n path script → HasMemory h n →
    Executable h translate script hostScript → h.allocates (.oldUserPath n) = false →
    result = status (-enomem)
  unread : ∀ n < h.maxSymlinks, ∀ hostScript script stop,
    Steps (Interprets h translate shebang) n path script → HasMemory h (n + 1) →
    Executable h translate script hostScript → shebang hostScript = .error stop →
    result = .error stop
  unusable : ∀ n < h.maxSymlinks, ∀ hostScript script interp stop,
    Steps (Interprets h translate shebang) n path script → HasMemory h (n + 1) →
    Executable h translate script hostScript → shebang hostScript = .ok (some interp) →
    (translateAndCheckExec h interp).run translate = .error stop → result = .error stop
  checked : ∀ n < h.maxSymlinks, ∀ hostScript script,
    Steps (Interprets h translate shebang) n path script → HasMemory h n →
    Executable h translate script hostScript → asked[2 * n]? = some script
  checkedInterp : ∀ n < h.maxSymlinks, ∀ hostScript script interp,
    Steps (Interprets h translate shebang) n path script → HasMemory h (n + 1) →
    Executable h translate script hostScript → shebang hostScript = .ok (some interp) →
    interp ≠ [] → asked[2 * n + 1]? = some interp

/-- No script of the chain that the texts name, up to the limit and as far as there is memory for it,
ends with the path of its interpreter. -/
def NoneEndsInPath (h : Host) (translate : Path → Except Stop Path) (path : Path) : Prop :=
  ∀ n < h.maxSymlinks, ∀ hostScript script,
    Steps (Interprets h translate h.shebang) n path script → HasMemory h (n + 1) →
    Executable h translate script hostScript → ¬h.EndsInPath hostScript

section Ends

variable {h : Host} {translate : Path → Except Stop Path} {n : ℕ} {path script hostScript : Path}

/-- At an element of the chain its own level decides. -/
theorem expandShebang_at (hn : n < h.maxSymlinks)
    (hsteps : Steps (Interprets h translate (extractShebang h)) n path script) (hmemory : HasMemory h n)
    (hscript : Executable h translate script hostScript) :
    (expandShebang h path).run translate =
      levelResult h translate (h.maxSymlinks - n - 1) n script (decide (0 < n)) hostScript := by
  have hlevels : h.maxSymlinks = h.maxSymlinks - n - 1 + 1 + n := by omega
  have hfollow := expandShebangFrom_steps (h := h) (h.maxSymlinks - n - 1 + 1) 0 false hsteps
    fun j hj => by rw [Nat.zero_add]; exact hmemory j hj
  rw [← hlevels, Nat.zero_add, Bool.false_or] at hfollow
  rw [expandShebang, hfollow, expandShebangFrom_succ, translateAndCheckExec_ok_iff.mpr hscript]
  rfl

/-- A chain that goes on up to the limit is an error. -/
theorem expandShebang_tooLong {last : Path}
    (hsteps : Steps (Interprets h translate (extractShebang h)) h.maxSymlinks path last)
    (hmemory : HasMemory h h.maxSymlinks) :
    (expandShebang h path).run translate = status (-eloop) := by
  have hfollow := expandShebangFrom_steps 0 0 false hsteps
    fun j hj => by rw [Nat.zero_add]; exact hmemory j hj
  rw [Nat.zero_add] at hfollow
  exact hfollow

/-- What is asked for at an element of the chain begins with its own translation. -/
theorem expandShebang_asked (hn : n < h.maxSymlinks)
    (hsteps : Steps (Interprets h translate (extractShebang h)) n path script)
    (hmemory : HasMemory h n) (hscript : Executable h translate script hostScript) :
    ((expandShebang h path).asked translate)[2 * n]? = some script := by
  have hlevels : h.maxSymlinks = h.maxSymlinks - n - 1 + 1 + n := by omega
  obtain ⟨before, hbefore, hasked⟩ := expandShebangFrom_asked_steps (h := h)
    (h.maxSymlinks - n - 1 + 1) 0 false hsteps fun j hj => by rw [Nat.zero_add]; exact hmemory j hj
  rw [expandShebang, hlevels, hasked, ← hbefore, List.getElem?_append_right le_rfl, Nat.sub_self,
    expandShebangFrom, Inquiry.asked_bind, translateAndCheckExec_asked, if_neg hscript.nonempty]
  rfl

/-- Behind it the interpreter is asked for, if its path is not empty. -/
theorem expandShebang_asked_interp {interp : Path} (hn : n < h.maxSymlinks)
    (hsteps : Steps (Interprets h translate (extractShebang h)) n path script)
    (hmemory : HasMemory h (n + 1)) (hscript : Executable h translate script hostScript)
    (hshebang : extractShebang h hostScript = .ok (some interp)) :
    ((expandShebang h path).asked translate)[2 * n + 1]? =
      if interp = [] then none else some interp := by
  have hlevels : h.maxSymlinks = h.maxSymlinks - n - 1 + 1 + n := by omega
  obtain ⟨before, hbefore, hasked⟩ := expandShebangFrom_asked_steps (h := h)
    (h.maxSymlinks - n - 1 + 1) 0 false hsteps fun j hj => by
      rw [Nat.zero_add]
      exact hmemory j (Nat.lt_succ_of_lt hj)
  have hallocated : h.allocates (.oldUserPath (0 + n)) = true := by
    rw [Nat.zero_add]
    exact hmemory n (Nat.lt_succ_self n)
  rw [expandShebang, hlevels, hasked, ← hbefore, List.getElem?_append_right (Nat.le_succ _),
    Nat.succ_sub le_rfl, Nat.sub_self, expandShebangFrom_asked _ _ _ hscript hallocated hshebang,
    List.getElem?_cons_succ]
  by_cases hempty : interp = []
  · rw [if_pos hempty, if_pos hempty, hempty]
    rfl
  · rw [if_neg hempty, if_neg hempty]
    rfl

/-- Shebangs are expanded to the end of the chain of the interpreters that are extracted. -/
theorem expandShebang_extracted (h : Host) (translate : Path → Except Stop Path) (path : Path) :
    ExpandsShebang h translate (extractShebang h) path ((expandShebang h path).run translate)
      ((expandShebang h path).asked translate) where
  found _ _ _ hresult := by
    obtain ⟨n, hn, hmemory, hsteps, hfound, hlast, hplain⟩ := expandShebangFrom_found hresult
    refine ⟨n, hn, fun i hi => ?_, hsteps, by rw [hfound, Bool.false_or], hlast, hplain⟩
    have hallocated := hmemory i (Nat.le_of_lt_succ hi)
    rwa [Nat.zero_add] at hallocated
  ends n hn hostPath last hsteps hmemory hlast hplain := by
    refine (expandShebang_at hn hsteps (fun i hi => hmemory i (by omega)) hlast).trans ?_
    rw [levelResult, if_neg (by simp [hmemory n (Nat.lt_succ_self n)]), hplain]
    rfl
  tooLong _ hsteps hmemory := expandShebang_tooLong hsteps hmemory
  cyclic m n last hsteps hn hcycle hmemory := by
    obtain ⟨_, hlong⟩ := hsteps.exists_of_cycle hcycle hn h.maxSymlinks
    exact expandShebang_tooLong hlong hmemory
  unchecked hlevels stop hstop := by
    obtain ⟨levels, hsucc⟩ := Nat.exists_eq_succ_of_ne_zero hlevels.ne'
    rw [expandShebang, hsucc, expandShebangFrom_succ, hstop]
    rfl
  noMemory n hn hostScript script hsteps hmemory hscript hfull :=
    (expandShebang_at hn hsteps hmemory hscript).trans (if_pos hfull)
  unread n hn hostScript script stop hsteps hmemory hscript hstop := by
    refine (expandShebang_at hn hsteps (fun i hi => hmemory i (by omega)) hscript).trans ?_
    rw [levelResult, if_neg (by simp [hmemory n (Nat.lt_succ_self n)]), hstop]
    rfl
  unusable n hn hostScript script interp stop hsteps hmemory hscript hshebang hstop := by
    refine (expandShebang_at hn hsteps (fun i hi => hmemory i (by omega)) hscript).trans ?_
    rw [levelResult, if_neg (by simp [hmemory n (Nat.lt_succ_self n)]), hshebang]
    change ((translateAndCheckExec h interp).run _).bind _ = _
    rw [hstop]
    rfl
  checked n hn hostScript script hsteps hmemory hscript :=
    expandShebang_asked hn hsteps hmemory hscript
  checkedInterp n hn hostScript script interp hsteps hmemory hscript hshebang hne :=
    (expandShebang_asked_interp hn hsteps hmemory hscript hshebang).trans (if_neg hne)

/-- Where two readers agree on the scripts of the chain of the one, its chain is that of the other, and
what is returned is the end of both. -/
theorem ExpandsShebang.of_agree {shebang shebang' : Path → Except Stop (Option Path)}
    {result : Except Stop (Bool × Path × Path)} {asked : List Path}
    (hexpands : ExpandsShebang h translate shebang path result asked)
    (hagree : ∀ n < h.maxSymlinks, ∀ hostScript script,
      Steps (Interprets h translate shebang') n path script → HasMemory h (n + 1) →
      Executable h translate script hostScript → shebang hostScript = shebang' hostScript) :
    ExpandsShebang h translate shebang' path result asked := by
  have hmono : ∀ {k l : ℕ}, HasMemory h k → l ≤ k → HasMemory h l :=
    fun hmemory hle i hi => hmemory i (lt_of_lt_of_le hi hle)
  have hforward : ∀ {k last}, k ≤ h.maxSymlinks → HasMemory h k →
      Steps (Interprets h translate shebang') k path last →
      Steps (Interprets h translate shebang) k path last := by
    intro k last hk hmemory hsteps
    refine hsteps.imp_of_reached fun m hm script interp hreached _ hinterp => ?_
    obtain ⟨hostScript, hostInterp, hscript, hshebang, hinterp⟩ := hinterp
    have hsame := hagree m (by omega) hostScript script hreached (hmono hmemory (by omega)) hscript
    exact ⟨hostScript, hostInterp, hscript, hsame.trans hshebang, hinterp⟩
  have hback : ∀ {k last}, k ≤ h.maxSymlinks → HasMemory h k →
      Steps (Interprets h translate shebang) k path last →
      Steps (Interprets h translate shebang') k path last := by
    intro k last hk hmemory hsteps
    refine hsteps.imp_of_reached fun m hm script interp _ hreached hinterp => ?_
    obtain ⟨hostScript, hostInterp, hscript, hshebang, hinterp⟩ := hinterp
    have hsame := hagree m (by omega) hostScript script hreached (hmono hmemory (by omega)) hscript
    exact ⟨hostScript, hostInterp, hscript, hsame.symm.trans hshebang, hinterp⟩
  have htooLong : ∀ last, Steps (Interprets h translate shebang') h.maxSymlinks path last →
      HasMemory h h.maxSymlinks → result = status (-eloop) := fun last hsteps hmemory =>
    hexpands.tooLong last (hforward le_rfl hmemory hsteps) hmemory
  refine
    { found := fun hasShebang hostPath last hresult => ?_
      ends := fun n hn hostPath last hsteps hmemory hlast hplain => ?_
      tooLong := htooLong
      cyclic := fun m n last hsteps hn hcycle hmemory => ?_
      unchecked := hexpands.unchecked
      noMemory := fun n hn hostScript script hsteps hmemory hscript hfull => ?_
      unread := fun n hn hostScript script stop hsteps hmemory hscript hstop => ?_
      unusable := fun n hn hostScript script interp stop hsteps hmemory hscript hshebang hstop => ?_
      checked := fun n hn hostScript script hsteps hmemory hscript => ?_
      checkedInterp := fun n hn hostScript script interp hsteps hmemory hscript hshebang hne => ?_ }
  · obtain ⟨n, hn, hmemory, hsteps, hfound, hlast, hplain⟩ :=
      hexpands.found hasShebang hostPath last hresult
    have hsteps' := hback hn.le (hmono hmemory (Nat.le_succ n)) hsteps
    have hsame := hagree n hn hostPath last hsteps' hmemory hlast
    exact ⟨n, hn, hmemory, hsteps', hfound, hlast, hsame.symm.trans hplain⟩
  · have hsame := hagree n hn hostPath last hsteps hmemory hlast
    exact hexpands.ends n hn hostPath last (hforward hn.le (hmono hmemory (Nat.le_succ n)) hsteps)
      hmemory hlast (hsame.trans hplain)
  · obtain ⟨last', hlong⟩ := hsteps.exists_of_cycle hcycle hn h.maxSymlinks
    exact htooLong last' hlong hmemory
  · exact hexpands.noMemory n hn hostScript script (hforward hn.le hmemory hsteps) hmemory hscript
      hfull
  · have hsame := hagree n hn hostScript script hsteps hmemory hscript
    exact hexpands.unread n hn hostScript script stop
      (hforward hn.le (hmono hmemory (Nat.le_succ n)) hsteps) hmemory hscript (hsame.trans hstop)
  · have hsame := hagree n hn hostScript script hsteps hmemory hscript
    exact hexpands.unusable n hn hostScript script interp stop
      (hforward hn.le (hmono hmemory (Nat.le_succ n)) hsteps) hmemory hscript
      (hsame.trans hshebang) hstop
  · exact hexpands.checked n hn hostScript script (hforward hn.le hmemory hsteps) hmemory hscript
  · have hsame := hagree n hn hostScript script hsteps hmemory hscript
    exact hexpands.checkedInterp n hn hostScript script interp
      (hforward hn.le (hmono hmemory (Nat.le_succ n)) hsteps) hmemory hscript
      (hsame.trans hshebang) hne

/-- Up to a script that ends with the path of its interpreter, the chain is that of what is
extracted. -/
theorem steps_extracted (hsize : 3 ≤ h.binprmBufSize) (hbuffers : h.binprmBufSize < pathMax)
    (hsteps : Steps (Interprets h translate h.shebang) n path script)
    (hends : ∀ m < n, ∀ hostScript script, Steps (Interprets h translate h.shebang) m path script →
      Executable h translate script hostScript → ¬h.EndsInPath hostScript) :
    Steps (Interprets h translate (extractShebang h)) n path script := by
  refine hsteps.imp_of_reached fun m hm b c hreached _ hinterp => ?_
  obtain ⟨hostScript, hostInterp, hscript, hshebang, hinterp⟩ := hinterp
  have hsame := extractShebang_text hsize hbuffers (hends m hm hostScript b hreached hscript)
  exact ⟨hostScript, hostInterp, hscript, hsame.trans hshebang, hinterp⟩

/-- At the first script that ends with the path of its interpreter another path is checked. -/
theorem expandShebang_misses {result : Except Stop (Bool × Path × Path)}
    (hsize : 3 ≤ h.binprmBufSize) (hbuffers : h.binprmBufSize < pathMax) (hn : n < h.maxSymlinks)
    (hsteps : Steps (Interprets h translate (extractShebang h)) n path script)
    (htext : Steps (Interprets h translate h.shebang) n path script)
    (hmemory : HasMemory h (n + 1)) (hscript : Executable h translate script hostScript)
    (hends : h.EndsInPath hostScript) :
    ¬ExpandsShebang h translate h.shebang path result ((expandShebang h path).asked translate) := by
  intro hexpands
  obtain ⟨interp, hne, hnamed, hextracted⟩ := extractShebang_endsInPath hsize hbuffers hends
  have hasked := hexpands.checkedInterp n hn hostScript script interp htext hmemory hscript hnamed hne
  rw [expandShebang_asked_interp hn hsteps hmemory hscript hextracted] at hasked
  have hlength : interp.dropLast.length < interp.length := by
    have := List.length_pos_of_ne_nil hne
    rw [List.length_dropLast]
    omega
  split at hasked
  · cases hasked
  · rw [Option.some.inj hasked] at hlength
    exact lt_irrefl _ hlength

/-- Shebangs are expanded to the end of the chain of interpreters that the texts of the scripts name
exactly if none of these scripts ends with the path of its interpreter. -/
theorem expandShebang_expands_iff (h : Host) (getcwd : Getcwd) (path : Path)
    (hsize : 3 ≤ h.binprmBufSize) (hbuffers : h.binprmBufSize < pathMax) :
    ExpandsShebang h (translatePath h.link getcwd atFdcwd) h.shebang path
      ((expandShebang h path).result h.link getcwd)
      ((expandShebang h path).asked (translatePath h.link getcwd atFdcwd)) ↔
      NoneEndsInPath h (translatePath h.link getcwd atFdcwd) path := by
  constructor
  · intro hexpands n
    induction n using Nat.strong_induction_on with
    | h n ih =>
      intro hn hostScript script hsteps hmemory hscript hends
      have hcode := steps_extracted hsize hbuffers hsteps fun m hm hostScript' script' hreached =>
        ih m hm (hm.trans hn) hostScript' script' hreached fun i hi => hmemory i (by omega)
      exact expandShebang_misses hsize hbuffers hn hcode hsteps hmemory hscript hends hexpands
  · intro hnone
    refine (expandShebang_extracted h _ path).of_agree ?_
    intro n hn hostScript script hsteps hmemory hscript
    exact extractShebang_text hsize hbuffers (hnone n hn hostScript script hsteps hmemory hscript)

/-- The path `/bin/sh`. -/
def binSh : Path := [47, 98, 105, 110, 47, 115, 104]

/-- The line of a script whose interpreter is `/bin/sh`. -/
def binShLine : List Byte := [35, 33] ++ binSh

/-- `/x` is a script with this content, and `/bin/sh` a program. -/
def oneScript (content : List Byte) : Host where
  cpu := .arm64
  link _ := none
  accessible path := path = [47, 120] ∨ path = binSh
  executable _ := true
  statable _ := true
  openFile path :=
    if path = [47, 120] then .ok (fileOf content)
    else if path = binSh then .ok (fileOf [127, 69, 76, 70])
    else .error enoent
  allocates _ := true
  errno := 0
  maxSymlinks := 40
  binprmBufSize := 256

/-- A script whose line ends behind `/bin/sh` is replaced by this program. -/
theorem expandShebang_expands_iff_newline :
    ExpandsShebang (oneScript (binShLine ++ [10]))
      (translatePath (fun _ => none) (.ok [slash]) atFdcwd) (oneScript (binShLine ++ [10])).shebang
      [47, 120] (.ok (true, binSh, binSh)) [[47, 120], binSh, binSh] := by
  have hresult : (expandShebang (oneScript (binShLine ++ [10])) [47, 120]).result (fun _ => none)
      (.ok [slash]) = .ok (true, binSh, binSh) := by decide +kernel
  have hasked : (expandShebang (oneScript (binShLine ++ [10])) [47, 120]).asked
      (translatePath (fun _ => none) (.ok [slash]) atFdcwd) = [[47, 120], binSh, binSh] := by
    decide +kernel
  rw [← hresult, ← hasked]
  refine (expandShebang_expands_iff (oneScript (binShLine ++ [10])) (.ok [slash]) [47, 120]
    (by decide) (by decide)).mpr ?_
  rintro n - hostScript script - - - ⟨file, hopen, hends⟩
  by_cases hscript : hostScript = [47, 120]
  · subst hscript
    obtain rfl := Except.ok.inj hopen
    exact absurd (hends.path 10 (by decide)) (by decide)
  · by_cases hprogram : hostScript = binSh
    · subst hprogram
      obtain rfl := Except.ok.inj hopen
      cases hends.script
    · change (if _ then _ else if _ then _ else _) = _ at hopen
      rw [if_neg hscript, if_neg hprogram] at hopen
      cases hopen

/-- The interpreter of a script that ends with `/bin/sh` is looked for at `/bin/s`. -/
theorem expandShebang_lastCharacter :
    ¬ExpandsShebang (oneScript binShLine) (translatePath (fun _ => none) (.ok [slash]) atFdcwd)
      (oneScript binShLine).shebang [47, 120]
      ((expandShebang (oneScript binShLine) [47, 120]).result (fun _ => none) (.ok [slash]))
      ((expandShebang (oneScript binShLine) [47, 120]).asked
        (translatePath (fun _ => none) (.ok [slash]) atFdcwd)) := by
  intro hexpands
  have hscript : Executable (oneScript binShLine)
      (translatePath (fun _ => none) (.ok [slash]) atFdcwd) [47, 120] [47, 120] :=
    ⟨by decide, rfl, by decide, rfl, rfl⟩
  have hprogram : Executable (oneScript binShLine)
      (translatePath (fun _ => none) (.ok [slash]) atFdcwd) binSh binSh :=
    ⟨by decide, rfl, by decide, rfl, rfl⟩
  have hends := hexpands.ends 1 (by decide) binSh binSh
    (.step ⟨_, _, hscript, rfl, hprogram⟩ (.refl _)) (fun _ _ => rfl) hprogram rfl
  have hmissing : (expandShebang (oneScript binShLine) [47, 120]).result (fun _ => none)
      (.ok [slash]) = status (-enoent) := by decide +kernel
  rw [hmissing] at hends
  cases hends

end Ends

end Abyss.Execve
