import Mathlib.Data.Nat.ModEq
import Mathlib.Tactic.Ring

/-!
# Bits

Masks of one bit are tested as `x &&& mask = 0`; the first lemma turns such a test into the bit.
-/

namespace Aranym.Lib

open BitVec Nat

variable {w : Nat}

variable (x : BitVec w) (k : Nat)

theorem and_twoPow_eq_zero_iff {i} (hi : i < w) : x &&& BitVec.twoPow w i = 0 ↔ x.getLsbD i = false := by
  rw [and_twoPow]
  cases h : x.getLsbD i with
  | false => simp
  | true =>
    simp only [↓reduceIte, reduceCtorEq, iff_false]
    intro h0
    have hbit := congrArg (fun y => BitVec.getLsbD y i) h0; simp [hi] at hbit

theorem or_and_twoPow {x y i} (h : y.getLsbD i = false ∨ x.getLsbD i = true) :
    x ||| (y &&& BitVec.twoPow w i) = x := by
  ext j hj
  rw [getElem_or, getElem_and, getElem_twoPow]
  by_cases hji : j = i
  · subst hji; rcases h with h | h <;> simp [← getLsbD_eq_getElem, h]
  · simp [hji]

theorem and_not_or_self (y : BitVec w) : x &&& ~~~(x ||| y) = 0 := by
  ext i hi
  simp only [getElem_and, getElem_not, getElem_or, ofNat_eq_ofNat, getElem_zero]
  cases x[i] <;> rfl

/-! ## Clearing the low end -/

theorem and_two_pow_mul (x k m : Nat) : x &&& 2 ^ k * m = 2 ^ k * (x / 2 ^ k &&& m) := by
  refine eq_of_testBit_eq fun i => ?_
  rw [testBit_and, testBit_two_pow_mul, testBit_two_pow_mul, testBit_and,
    testBit_div_two_pow]
  by_cases h : k ≤ i <;> simp [h]

theorem toNat_and_high (n : Nat) : (x &&& BitVec.allOnes w <<< n).toNat = x.toNat - x.toNat % 2 ^ n := by
  rcases Nat.lt_or_ge n w with hn | hn
  · have hpow : 2 ^ w = 2 ^ n * 2 ^ (w - n) := by rw [← Nat.pow_add, Nat.add_sub_cancel' hn.le]
    have hpos := Nat.two_pow_pos (w - n)
    have hmask : (BitVec.allOnes w <<< n).toNat = 2 ^ n * (2 ^ (w - n) - 1) := by
      have hsplit : (2 ^ w - 1) * 2 ^ n = 2 ^ n * (2 ^ (w - n) - 1) + 2 ^ w * (2 ^ n - 1) := by
        obtain ⟨a, ha⟩ := exists_eq_succ_of_ne_zero (Nat.two_pow_pos n).ne'
        obtain ⟨b, hb⟩ := exists_eq_succ_of_ne_zero hpos.ne'
        rw [hpow, ha, hb, show a.succ * b.succ = a * b + a + b + 1 by simp only [succ_eq_add_one]; ring]
        simp only [Nat.add_sub_cancel, succ_eq_add_one]
        ring
      rw [toNat_shiftLeft, toNat_allOnes, Nat.shiftLeft_eq, hsplit, add_mul_mod_self_left,
        mod_eq_of_lt]
      rw [hpow]; exact Nat.mul_lt_mul_of_pos_left (by omega) (Nat.two_pow_pos n)
    have hdiv : x.toNat / 2 ^ n < 2 ^ (w - n) := Nat.div_lt_of_lt_mul (hpow ▸ x.isLt)
    have hsplit := mod_add_div x.toNat (2 ^ n)
    rw [toNat_and, hmask, and_two_pow_mul, and_two_pow_sub_one_eq_mod, mod_eq_of_lt hdiv]
    omega
  · have hlt : x.toNat < 2 ^ n := x.isLt.trans_le (Nat.pow_le_pow_right (by decide) hn)
    rw [shiftLeft_eq_zero hn, BitVec.and_zero, mod_eq_of_lt hlt, Nat.sub_self]; rfl

theorem and_high_eq_zero_iff (n : Nat) : x &&& BitVec.allOnes w <<< n = 0 ↔ x.toNat < 2 ^ n := by
  have hmod := mod_lt x.toNat (Nat.two_pow_pos n)
  rw [← toNat_inj, toNat_and_high, ofNat_eq_ofNat, toNat_ofNat, zero_mod]
  constructor
  · intro h; omega
  · intro h; rw [mod_eq_of_lt h, Nat.sub_self]

theorem and_high_eq_self_iff {n} (hn : n ≤ w) :
    x &&& BitVec.allOnes w <<< n = BitVec.allOnes w <<< n ↔ 2 ^ w - 2 ^ n ≤ x.toNat := by
  have hflip : x &&& BitVec.allOnes w <<< n = BitVec.allOnes w <<< n ↔ ~~~x &&& BitVec.allOnes w <<< n = 0 := by
    constructor
    · intro h; rw [← h, BitVec.and_comm x, ← BitVec.and_assoc, BitVec.and_comm (~~~x), BitVec.and_assoc]; simp
    · intro h
      have hor : (x ||| ~~~x) &&& BitVec.allOnes w <<< n = BitVec.allOnes w <<< n := by simp
      rw [BitVec.and_or_distrib_right, h] at hor; simpa using hor
  have hle : 2 ^ n ≤ 2 ^ w := Nat.pow_le_pow_right (by decide) hn
  have hlt := x.isLt
  rw [hflip, and_high_eq_zero_iff, toNat_not]
  omega

/-! ## Rotations -/

theorem getLsbD_rotateLeft_mod {i} (hi : i < w) :
    (x.rotateLeft k).getLsbD i = x.getLsbD ((i + (w - k % w)) % w) := by
  have hk := mod_lt k (zero_lt_of_lt hi)
  rw [getLsbD_rotateLeft, Bool.cond_decide, decide_eq_true hi, Bool.true_and]
  generalize k % w = r at hk ⊢
  split
  · rw [mod_eq_of_lt (by omega), Nat.add_comm]
  · rw [show i + (w - r) = i - r + w by omega, add_mod_right, mod_eq_of_lt (by omega)]

theorem getLsbD_rotateRight_mod {i} (hi : i < w) : (x.rotateRight k).getLsbD i = x.getLsbD ((i + k) % w) := by
  have hk := mod_lt k (zero_lt_of_lt hi)
  rw [getLsbD_rotateRight, Bool.cond_decide, decide_eq_true hi, Bool.true_and, ← add_mod_mod]
  generalize k % w = r at hk ⊢
  split
  · rw [mod_eq_of_lt (by omega), Nat.add_comm]
  · rw [show i + r = i - (w - r) + w by omega, add_mod_right, mod_eq_of_lt (by omega)]

theorem rotateRight_eq_rotateLeft {k} (hk : k ≤ w) : x.rotateRight k = x.rotateLeft (w - k) := by
  refine eq_of_getLsbD_eq fun i hi => ?_
  rw [getLsbD_rotateRight_mod _ _ hi, getLsbD_rotateLeft_mod _ _ hi]
  rcases Nat.eq_zero_or_pos k with rfl | hpos
  · rw [Nat.sub_zero, mod_self, Nat.sub_zero, add_mod_right, Nat.add_zero]
  · rw [mod_eq_of_lt (show w - k < w by omega), Nat.sub_sub_self hk]

theorem rotateLeft_zero : x.rotateLeft 0 = x := by
  refine eq_of_getLsbD_eq fun i hi => ?_
  rw [getLsbD_rotateLeft_mod _ _ hi, zero_mod, Nat.sub_zero, add_mod_right, mod_eq_of_lt hi]

theorem rotateRight_zero : x.rotateRight 0 = x := by
  refine eq_of_getLsbD_eq fun i hi => ?_
  rw [getLsbD_rotateRight_mod _ _ hi, Nat.add_zero, mod_eq_of_lt hi]

theorem rotateLeft_rotateLeft_one : (x.rotateLeft k).rotateLeft 1 = x.rotateLeft (k + 1) := by
  refine eq_of_getLsbD_eq fun i hi => ?_
  have hw := zero_lt_of_lt hi
  rw [getLsbD_rotateLeft_mod _ _ hi, getLsbD_rotateLeft_mod _ _ (mod_lt _ hw), getLsbD_rotateLeft_mod _ _ hi,
    mod_add_mod]
  have hback (j : Nat) : w - j % w + j ≡ 0 [MOD w] := by
    have : w - j % w + j = w * (1 + j / w) := by
      have := div_add_mod j w
      have := mod_lt j hw
      rw [Nat.mul_add]; omega
    rw [this]; exact modEq_zero_iff_dvd.mpr (Nat.dvd_mul_right ..)
  have hsum : i + (w - 1 % w) + (w - k % w) ≡ i + (w - (k + 1) % w) [MOD w] := by
    refine Nat.ModEq.add_right_cancel' (k + 1) ?_
    calc i + (w - 1 % w) + (w - k % w) + (k + 1) = i + (w - 1 % w + 1) + (w - k % w + k) := by omega
      _ ≡ i + 0 + 0 [MOD w] := ((Nat.ModEq.refl i).add (hback 1)).add (hback k)
      _ ≡ i + (w - (k + 1) % w + (k + 1)) [MOD w] := (Nat.ModEq.refl i).add (hback (k + 1)).symm
      _ = i + (w - (k + 1) % w) + (k + 1) := by omega
  rw [hsum]

theorem rotateRight_rotateRight_one : (x.rotateRight k).rotateRight 1 = x.rotateRight (k + 1) := by
  refine eq_of_getLsbD_eq fun i hi => ?_
  have hw := zero_lt_of_lt hi
  rw [getLsbD_rotateRight_mod _ _ hi, getLsbD_rotateRight_mod _ _ (mod_lt _ hw), getLsbD_rotateRight_mod _ _ hi,
    mod_add_mod, Nat.add_assoc, Nat.add_comm 1]

theorem setWidth_append {a b} (w : Nat) (x : BitVec a) (y : BitVec b) :
    (x ++ y).setWidth w = (x.setWidth w <<< b) ||| y.setWidth w := by
  apply eq_of_getLsbD_eq
  intro i hi
  simp only [getLsbD_setWidth, getLsbD_append, getLsbD_or, getLsbD_shiftLeft, hi,
    decide_true, Bool.true_and]
  by_cases hb : i < b
  · simp [hb]
  · simp [hb, getLsbD_of_ge y i (Nat.le_of_not_lt hb), show i - b < w by omega]

end Aranym.Lib
