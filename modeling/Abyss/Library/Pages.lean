import Mathlib.Data.Nat.Bitwise
import Mathlib.Tactic.Ring

/-!
# Pages

The base of a page is the address with its low bits masked out, if the size of a page is a power
of two.
-/

namespace Pages

/-- The start of the page of an address. -/
def base (p a : ℕ) : ℕ := a / p * p

section Base

variable {p a b : ℕ}

/-- A page begins at or below each of its addresses. -/
theorem base_le (p a : ℕ) : base p a ≤ a := Nat.div_mul_le_self a p

/-- It ends behind each of them. -/
theorem lt_base_add (hp : 0 < p) (a : ℕ) : a < base p a + p := by
  rw [base, ← Nat.succ_mul, Nat.mul_comm]
  exact Nat.lt_mul_div_succ a hp

/-- A page begins at a multiple of its size. -/
theorem dvd_base (p a : ℕ) : p ∣ base p a := Nat.dvd_mul_left ..

/-- Higher addresses are not in lower pages. -/
theorem base_mono (p : ℕ) (h : a ≤ b) : base p a ≤ base p b :=
  Nat.mul_le_mul_right p (Nat.div_le_div_right h)

/-- A page that starts before the end of a page starts at its start or before. -/
theorem le_base_of_lt (hb : p ∣ b) (h : b < base p a + p) : b ≤ base p a := by
  by_contra hlt
  have hle := Nat.le_of_dvd (by omega) (Nat.dvd_sub hb (dvd_base p a))
  omega

/-- An address at which a page begins is its base. -/
theorem base_of_dvd (h : p ∣ a) : base p a = a := Nat.div_mul_cancel h

/-- Every other address is above the base. -/
theorem base_lt (h : ¬p ∣ a) : base p a < a := by
  refine Nat.lt_of_le_of_ne (base_le p a) fun heq => h ?_
  rw [← heq]
  exact dvd_base p a

/-- The next page begins a size further. -/
theorem base_add_self (hp : 0 < p) (a : ℕ) : base p (a + p) = base p a + p := by
  rw [base, base, Nat.add_div_right a hp, Nat.succ_mul]

/-- Moving by whole pages. -/
theorem base_add_of_dvd (hp : 0 < p) (hb : p ∣ b) (a : ℕ) : base p (a + b) = base p a + b := by
  obtain ⟨n, rfl⟩ := hb
  rw [base, Nat.add_mul_div_left _ _ hp, Nat.add_mul, Nat.mul_comm n p]
  rfl

/-- The offset within the page. -/
theorem add_base_of_modEq {a' : ℕ} (h : a % p = a' % p) : a + base p a' = a' + base p a := by
  have ha := Nat.div_add_mod' a p
  have ha' := Nat.div_add_mod' a' p
  unfold base
  omega

end Base

/-! ## Masks -/

/-- A bit of an address is one of the base of its page unless it is one of the low bits. -/
theorem testBit_base (k a i : ℕ) :
    (base (2 ^ k) a).testBit i = (decide (k ≤ i) && a.testBit i) := by
  rw [base, ← Nat.shiftRight_eq_div_pow, ← Nat.shiftLeft_eq, Nat.testBit_shiftLeft,
    Nat.testBit_shiftRight]
  by_cases h : k ≤ i
  · simp [h]
  · simp [h]

/-- The mask of a page size. -/
def mask {w : ℕ} (p : BitVec w) : BitVec w := ~~~(p - 1)

/-- A bit of the mask is set unless it is one of the low bits. -/
theorem getLsbD_mask {w k : ℕ} (hk : k < w) (i : ℕ) :
    (mask (BitVec.ofNat w (2 ^ k))).getLsbD i = (decide (i < w) && decide (k ≤ i)) := by
  have hone : 1 ≤ 2 ^ k := Nat.one_le_two_pow
  have hlt : 2 ^ k < 2 ^ w := Nat.pow_lt_pow_right (by decide) hk
  have hsub : BitVec.ofNat w (2 ^ k) - 1 = BitVec.ofNat w (2 ^ k - 1) := by
    apply BitVec.eq_of_toNat_eq
    have h1 : 1 < 2 ^ w := Nat.one_lt_two_pow (by omega)
    have hle : (1 : BitVec w) ≤ BitVec.ofNat w (2 ^ k) := by
      rw [BitVec.le_def, BitVec.toNat_ofNat, Nat.mod_eq_of_lt hlt]
      change 1 % 2 ^ w ≤ _
      rwa [Nat.mod_eq_of_lt h1]
    rw [BitVec.toNat_sub_of_le hle, BitVec.toNat_ofNat, BitVec.toNat_ofNat, Nat.mod_eq_of_lt hlt,
      Nat.mod_eq_of_lt (by omega)]
    change 2 ^ k - 1 % 2 ^ w = _
    rw [Nat.mod_eq_of_lt h1]
  rw [mask, hsub, BitVec.getLsbD_not, BitVec.getLsbD_ofNat, Nat.testBit_two_pow_sub_one]
  have hnot : (!decide (i < k)) = decide (k ≤ i) := by
    rw [← decide_not, decide_eq_decide, Nat.not_lt]
  by_cases hi : i < w
  · simp only [hi, decide_true, Bool.true_and, hnot]
  · simp [hi]

/-- What is left of an address under the mask, which may be that of a narrower word. -/
theorem toNat_and_mask {w v k : ℕ} (hk : k < w) (x : BitVec v) (hx : x.toNat < 2 ^ w)
    (hv : w ≤ v) :
    ((x &&& (mask (BitVec.ofNat w (2 ^ k))).setWidth v).setWidth w).toNat =
      base (2 ^ k) x.toNat := by
  apply Nat.eq_of_testBit_eq
  intro i
  rw [testBit_base, BitVec.testBit_toNat, BitVec.getLsbD_setWidth, BitVec.getLsbD_and,
    BitVec.getLsbD_setWidth, getLsbD_mask hk, ← BitVec.testBit_toNat]
  by_cases hi : i < w
  · have hiv : i < v := by omega
    simp [hi, hiv, Bool.and_comm]
  · have hzero : x.toNat.testBit i = false :=
      Nat.testBit_lt_two_pow (Nat.lt_of_lt_of_le hx (Nat.pow_le_pow_right (by decide) (by omega)))
    simp [hi, hzero]

end Pages
