import AtomicSet.Text.ByteSize
import Mathlib.Algebra.Order.Ring.Nat
import Mathlib.Data.Nat.Log

/-!
# Rounding to the nearest

A rounded quotient is within half of its divisor, and a greater dividend is never rounded to less:
two dividends can only change places if they are halfway between the same two multiples, and then
they are equal. The same holds of numbers cut down to 53 binary digits, although the place at which
they are cut jumps at every power of two: the powers of two themselves are kept, so a number stays
on its side of each of them.

## Main results

* `roundDiv_near`, `roundDiv_mono` — a rounded quotient is near, and in order.
* `ByteSize.toDouble_mono` — so is a number of 53 digits.
* `ByteSize.toDouble_eq_self`, `ByteSize.toDouble_near` — how far it is off.
-/

namespace AtomicSet

variable {n m d k : Nat}

/-- **A rounded quotient is within half of the divisor.** -/
theorem roundDiv_near (n : Nat) (hd : 0 < d) :
    2 * (roundDiv n d * d) ≤ 2 * n + d ∧ 2 * n ≤ 2 * (roundDiv n d * d) + d := by
  have hsplit : n / d * d + n % d = n := Nat.div_add_mod' n d
  have hnext : (n / d + 1) * d = n / d * d + d := Nat.succ_mul _ _
  have hlt : n % d < d := Nat.mod_lt n hd
  rw [roundDiv]
  split
  · omega
  · split
    · omega
    · split <;> omega

/-- A multiple of the divisor is not rounded. -/
theorem roundDiv_mul (k : Nat) (hd : 0 < d) : roundDiv (k * d) d = k := by
  simp [roundDiv, Nat.mul_div_cancel k hd, hd]

/-- **Rounding keeps the order.** If the greater dividend were rounded to less, then both would be
halfway between the same two multiples of the divisor, and so they would be equal. -/
theorem roundDiv_mono (h : n ≤ m) (hd : 0 < d) : roundDiv n d ≤ roundDiv m d := by
  by_contra hlt
  have hstep : (roundDiv m d + 1) * d ≤ roundDiv n d * d :=
    Nat.mul_le_mul_right d (Nat.lt_of_not_le hlt)
  rw [Nat.succ_mul] at hstep
  have hn := (roundDiv_near n hd).1
  have hm := (roundDiv_near m hd).2
  have heq : n = m := by omega
  exact hlt (le_of_eq (congrArg (roundDiv · d) heq))

/-- What is at least a multiple of the divisor is not rounded below it. -/
theorem le_roundDiv (hd : 0 < d) (h : k * d ≤ n) : k ≤ roundDiv n d := by
  rw [← roundDiv_mul k hd]
  exact roundDiv_mono h hd

/-- What is at most a multiple of the divisor is not rounded above it. -/
theorem roundDiv_le (hd : 0 < d) (h : n ≤ k * d) : roundDiv n d ≤ k := by
  rw [← roundDiv_mul k hd]
  exact roundDiv_mono h hd

namespace ByteSize

/-! ### Numbers of 53 binary digits -/

/-- The number of binary digits by which `n` is too long. -/
def surplus (n : Nat) : Nat :=
  n.log2 + 1 - 53

/-- The rounding by the number of surplus digits. -/
theorem toDouble_eq (n : Nat) : toDouble n = roundDiv n (2 ^ surplus n) * 2 ^ surplus n :=
  rfl

/-- A larger number has no fewer binary digits. -/
theorem log2_mono (h : n ≤ m) : n.log2 ≤ m.log2 := by
  rw [Nat.log2_eq_log_two, Nat.log2_eq_log_two]
  exact Nat.log_mono_right h

/-- Of at most `k` binary digits, at most `k - 53` are too many. -/
theorem surplus_le (h : n < 2 ^ k) : surplus n ≤ k - 53 := by
  rcases Nat.eq_zero_or_pos n with rfl | hn
  · exact Nat.zero_le _
  · have hlog : n.log2 < k := (Nat.log2_lt (by omega)).mpr h
    unfold surplus
    omega

/-- No power of two that `n` reaches is given up. -/
theorem two_pow_le_toDouble (h : 2 ^ k ≤ n) : 2 ^ k ≤ toDouble n := by
  have hn : n ≠ 0 := by
    have := Nat.two_pow_pos k
    omega
  -- The power of two at or below `n` is a multiple of the place at which `n` is rounded.
  have hle : 2 ^ n.log2 = 2 ^ (n.log2 - surplus n) * 2 ^ surplus n := by
    rw [← Nat.pow_add, Nat.sub_add_cancel (by unfold surplus; omega)]
  calc 2 ^ k ≤ 2 ^ n.log2 := Nat.pow_le_pow_right (by decide) ((Nat.le_log2 hn).mpr h)
    _ = 2 ^ (n.log2 - surplus n) * 2 ^ surplus n := hle
    _ ≤ roundDiv n (2 ^ surplus n) * 2 ^ surplus n :=
      Nat.mul_le_mul_right _
        (le_roundDiv (Nat.two_pow_pos _) (hle ▸ Nat.log2_self_le hn))

/-- No power of two that `n` does not exceed is exceeded. -/
theorem toDouble_le_two_pow (h : n ≤ 2 ^ k) : toDouble n ≤ 2 ^ k := by
  have hlog : n.log2 ≤ k := Nat.log2_two_pow (n := k) ▸ log2_mono h
  have heq : 2 ^ k = 2 ^ (k - surplus n) * 2 ^ surplus n := by
    rw [← Nat.pow_add, Nat.sub_add_cancel (by unfold surplus; omega)]
  calc toDouble n = roundDiv n (2 ^ surplus n) * 2 ^ surplus n := rfl
    _ ≤ 2 ^ (k - surplus n) * 2 ^ surplus n :=
      Nat.mul_le_mul_right _ (roundDiv_le (Nat.two_pow_pos _) (heq ▸ h))
    _ = 2 ^ k := heq.symm

/-- **A greater number is not cut down to less.** Numbers of one length are rounded at the same
place; between numbers of two lengths there is a power of two. -/
theorem toDouble_mono (h : n ≤ m) : toDouble n ≤ toDouble m := by
  by_cases hlog : n.log2 = m.log2
  · have hsurplus : surplus n = surplus m := congrArg (· + 1 - 53) hlog
    rw [toDouble_eq, toDouble_eq, hsurplus]
    exact Nat.mul_le_mul_right _ (roundDiv_mono h (Nat.two_pow_pos _))
  · have hlt : n.log2 < m.log2 := lt_of_le_of_ne (log2_mono h) hlog
    have hm : m ≠ 0 := by
      rintro rfl
      exact absurd hlt (Nat.not_lt_zero _)
    calc toDouble n ≤ 2 ^ (n.log2 + 1) := toDouble_le_two_pow (Nat.le_of_lt Nat.lt_log2_self)
      _ ≤ 2 ^ m.log2 := Nat.pow_le_pow_right (by decide) hlt
      _ ≤ toDouble m := two_pow_le_toDouble (Nat.log2_self_le hm)

/-- The first number of more than 53 digits is kept as well as all that have no more. -/
theorem toDouble_eq_self (h : n ≤ 2 ^ 53) : toDouble n = n := by
  rcases Nat.lt_or_eq_of_le h with hlt | rfl
  · have hsurplus : surplus n = 0 := Nat.le_zero.mp (surplus_le hlt)
    rw [toDouble_eq, hsurplus, Nat.pow_zero, Nat.mul_one]
    simpa using roundDiv_mul n Nat.one_pos
  · exact le_antisymm (toDouble_le_two_pow (le_refl _)) (two_pow_le_toDouble (le_refl _))

/-- Of a number of 64 digits at most half of the last eleven is lost. -/
theorem toDouble_near (h : n < 2 ^ 64) : toDouble n ≤ n + 1024 ∧ n ≤ toDouble n + 1024 := by
  have hscale : 2 ^ surplus n ≤ 2 ^ 11 := Nat.pow_le_pow_right (by decide) (surplus_le h)
  have hnear := roundDiv_near n (Nat.two_pow_pos (surplus n))
  rw [toDouble_eq]
  omega

end ByteSize

end AtomicSet
