import Mathlib.Algebra.Order.Group.Nat
import Mathlib.Tactic.Ring
import Mathlib.Tactic.Linarith

/-!
# Binary long division

Division of a `w`-digit binary number, most significant digit first. After `k` digits the
quotient and remainder are those of the number formed by these digits, and the digits still
to come stand at the top of a shift register. A step brings down one digit and subtracts the
divisor if it fits. The last part recovers truncated division of integers from the division
of their magnitudes.

Nothing here depends on the width of a machine word or on how the step is computed. The
invariant is about natural numbers: the digits that have been brought down form a number, and
quotient and remainder are the quotient and the remainder of that number. The bound that a
hardware divider needs, that a remainder never grows beyond one more bit than the divisor,
follows from it.
-/

namespace LongDivision

/-- The state of dividing `n` by `d` after `k` of `w` digits: quotient `q`, remainder `r`,
and the shift register `x` of the digits to come. -/
structure Partway (w n d k q r x : ℕ) : Prop where
  quotient : q = n / 2 ^ (w - k) / d
  remainder : r = n / 2 ^ (w - k) % d
  digits : x = n * 2 ^ k % 2 ^ w

variable {w n d k q r x : ℕ}

theorem Partway.start (hn : n < 2 ^ w) : Partway w n d 0 0 0 n where
  quotient := by rw [Nat.sub_zero, Nat.div_eq_of_lt hn, Nat.zero_div]
  remainder := by rw [Nat.sub_zero, Nat.div_eq_of_lt hn, Nat.zero_mod]
  digits := by rw [pow_zero, Nat.mul_one, Nat.mod_eq_of_lt hn]

/-- The first `k + 1` digits are the first `k` digits and one more. -/
theorem digits_succ (hk : k < w) :
    n / 2 ^ (w - (k + 1)) = 2 * (n / 2 ^ (w - k)) + n / 2 ^ (w - (k + 1)) % 2 := by
  have hpow : w - k = w - (k + 1) + 1 := by omega
  rw [hpow, Nat.pow_succ, ← Nat.div_div_eq_div_mul]
  omega

/-- The top digit of the shift register is the next digit of the dividend. -/
theorem Partway.digit (h : Partway w n d k q r x) (hk : k < w) :
    x / 2 ^ (w - 1) = n / 2 ^ (w - (k + 1)) % 2 := by
  have hw : 2 ^ w = 2 ^ (w - k) * 2 ^ k := by rw [← Nat.pow_add]; congr 1; omega
  have hw1 : 2 ^ (w - 1) = 2 ^ (w - (k + 1)) * 2 ^ k := by rw [← Nat.pow_add]; congr 1; omega
  have hwk : 2 ^ (w - k) = 2 ^ (w - (k + 1)) * 2 := by rw [← Nat.pow_succ]; congr 1; omega
  rw [h.digits, hw, hw1, Nat.mul_mod_mul_right, Nat.mul_div_mul_right _ _ (Nat.two_pow_pos k),
    hwk, Nat.mod_mul_right_div_self]

theorem Partway.remainder_lt (h : Partway w n d k q r x) (hd : 0 < d) : r < d := by
  rw [h.remainder]
  exact Nat.mod_lt _ hd

/-- Bringing down a digit: the quotient and remainder of `2 * m + b`. -/
theorem div_bring_down {m b : ℕ} (hd : 0 < d) (hb : b ≤ 1) :
    (2 * m + b) / d = 2 * (m / d) + (if d ≤ 2 * (m % d) + b then 1 else 0) ∧
      (2 * m + b) % d =
        if d ≤ 2 * (m % d) + b then 2 * (m % d) + b - d else 2 * (m % d) + b := by
  have hm : d * (m / d) + m % d = m := Nat.div_add_mod m d
  have hlt : m % d < d := Nat.mod_lt m hd
  split_ifs with hfit
  -- the divisor fits: one more in the quotient, and so much less in the remainder
  · refine (Nat.div_mod_unique hd).mpr ⟨?_, by omega⟩
    have : d * (2 * (m / d) + 1) = 2 * (d * (m / d)) + d := by ring
    omega
  · refine (Nat.div_mod_unique hd).mpr ⟨?_, by omega⟩
    have : d * (2 * (m / d) + 0) = 2 * (d * (m / d)) := by ring
    omega

/-- **One step of the division**: bring down the top digit and subtract if it fits. -/
theorem Partway.step (h : Partway w n d k q r x) (hk : k < w) (hd : 0 < d) :
    Partway w n d (k + 1)
      (2 * q + if d ≤ 2 * r + x / 2 ^ (w - 1) then 1 else 0)
      (if d ≤ 2 * r + x / 2 ^ (w - 1) then 2 * r + x / 2 ^ (w - 1) - d
        else 2 * r + x / 2 ^ (w - 1))
      (2 * x % 2 ^ w) := by
  have hb : n / 2 ^ (w - (k + 1)) % 2 ≤ 1 := by omega
  obtain ⟨hq, hr⟩ := div_bring_down (m := n / 2 ^ (w - k)) hd hb
  rw [← digits_succ hk, ← h.remainder, ← h.digit hk] at hq hr
  rw [← h.quotient] at hq
  refine ⟨hq.symm, hr.symm, ?_⟩
  rw [h.digits, Nat.mul_mod_mod, Nat.pow_succ]
  congr 1
  ring

theorem Partway.finish (h : Partway w n d w q r x) : q = n / d ∧ r = n % d := by
  have hq := h.quotient
  have hr := h.remainder
  rw [Nat.sub_self, pow_zero, Nat.div_one] at hq hr
  exact ⟨hq, hr⟩

/-! ## Truncated division from magnitudes -/

theorem natCast_tmod (m l : ℕ) : (m : ℤ).tmod l = ((m % l : ℕ) : ℤ) := (Int.ofNat_tmod m l).symm

theorem natCast_not_neg (m : ℕ) : ¬ (m : ℤ) < 0 := by omega

/-- The quotient of the magnitudes, negated if the signs differ. -/
theorem tdiv_of_natAbs (a b : ℤ) :
    a.tdiv b =
      if (decide (a < 0) ^^ decide (b < 0)) then -((a.natAbs / b.natAbs : ℕ) : ℤ)
      else ((a.natAbs / b.natAbs : ℕ) : ℤ) := by
  obtain ⟨m, rfl | rfl⟩ := a.eq_nat_or_neg <;> obtain ⟨l, rfl | rfl⟩ := b.eq_nat_or_neg <;>
    rcases Nat.eq_zero_or_pos m with rfl | hm <;> rcases Nat.eq_zero_or_pos l with rfl | hl <;>
      simp [natCast_not_neg, *]

/-- The remainder of the magnitudes with the sign of the dividend. -/
theorem tmod_of_natAbs (a b : ℤ) :
    a.tmod b =
      if a < 0 then -((a.natAbs % b.natAbs : ℕ) : ℤ) else ((a.natAbs % b.natAbs : ℕ) : ℤ) := by
  obtain ⟨m, rfl | rfl⟩ := a.eq_nat_or_neg <;> obtain ⟨l, rfl | rfl⟩ := b.eq_nat_or_neg <;>
    rcases Nat.eq_zero_or_pos m with rfl | hm <;>
      simp [natCast_tmod, natCast_not_neg, *]

end LongDivision
