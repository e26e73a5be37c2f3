import Mathlib.Tactic.Linarith
import Mathlib.Tactic.Ring

/-!
# Non-restoring division

Each step doubles the remainder and takes the divisor away, or adds it if the remainder was negative. The remainder is
never restored: a negative one stands for a quotient bit of 0, and the next step makes up for it.
-/

namespace Aranym.Lib

def nonRestore (m t : ℤ) : ℤ := if 0 ≤ t then 2 * t - m else 2 * t + m

def quotientBit (t q : ℤ) : ℤ := if 0 ≤ t then 2 * q + 1 else 2 * q

/-- After `k` steps of the division of `d` by `m` the remainder is `t` and the quotient bits before that
of `t` are `q`. -/
structure Divided (m d : ℤ) (k : ℕ) (t q : ℤ) : Prop where
  remainder : t = 2 ^ k * d - m * (2 * q + 1)
  lower : -m ≤ t
  upper : t < m

variable {m d t q : ℤ} {k : ℕ}

theorem Divided.first (hd : 0 ≤ d) (hdm : d < m) : Divided m d 1 (nonRestore m d) 0 := by
  rw [nonRestore, if_pos hd]
  exact ⟨by ring, by linarith, by linarith⟩

theorem Divided.step (h : Divided m d k t q) : Divided m d (k + 1) (nonRestore m t) (quotientBit t q) := by
  have hlower := h.lower
  have hupper := h.upper
  unfold nonRestore quotientBit
  split <;> (refine ⟨?_, by linarith, by linarith⟩; rw [h.remainder]; ring)

theorem Divided.quotient (h : Divided m d k t q) : q = 2 ^ k * d / (2 * m) := by
  have hlower := h.lower
  have hupper := h.upper
  have hm : 0 < 2 * m := by linarith
  have hsplit : 2 ^ k * d = (t + m) + 2 * m * q := by rw [h.remainder]; ring
  rw [hsplit, Int.add_mul_ediv_left _ _ hm.ne', Int.ediv_eq_zero_of_lt (by linarith) (by linarith),
    Int.zero_add]

theorem dvd_nonRestore {n} (ht : (2 : ℤ) ^ n ∣ t) (hm : (2 : ℤ) ^ (n + 1) ∣ m) :
    (2 : ℤ) ^ (n + 1) ∣ nonRestore m t := by
  have h2 : (2 : ℤ) ^ (n + 1) ∣ 2 * t := by rw [pow_succ, mul_comm]; exact mul_dvd_mul_left 2 ht
  unfold nonRestore
  split
  · exact Int.dvd_sub h2 hm
  · exact Int.dvd_add h2 hm

theorem add_nonneg_iff_of_dvd {n} (ht : (2 : ℤ) ^ n ∣ t) (hq : 0 ≤ q) (hq' : q < 2 ^ n) :
    0 ≤ t + q ↔ 0 ≤ t := by
  obtain ⟨c, rfl⟩ := ht
  constructor
  · intro h
    by_contra hneg
    have hc : c ≤ -1 := by by_contra hc; exact hneg (mul_nonneg (by positivity) (by linarith))
    have : (2 : ℤ) ^ n * c ≤ 2 ^ n * -1 := mul_le_mul_of_nonneg_left hc (by positivity)
    linarith
  · intro h; linarith

theorem nonRestore_add (h : 0 ≤ t + q ↔ 0 ≤ t) : nonRestore m (t + q) = nonRestore m t + 2 * q := by
  by_cases ht : 0 ≤ t
  · rw [nonRestore, nonRestore, if_pos (h.mpr ht), if_pos ht]; ring
  · rw [nonRestore, nonRestore, if_neg (mt h.mp ht), if_neg ht]; ring

theorem quotientBit_eq : quotientBit t q = 2 * q + (decide (0 ≤ t)).toNat := by
  by_cases ht : 0 ≤ t <;> simp [quotientBit, ht]

theorem quotientBit_bounds {n} (hq : 0 ≤ q) (hq' : q < 2 ^ n) :
    0 ≤ quotientBit t q ∧ quotientBit t q < 2 ^ (n + 1) := by
  rw [pow_succ]
  unfold quotientBit
  split <;> constructor <;> linarith

end Aranym.Lib
