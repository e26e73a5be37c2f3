import Aranym.Dsp.Lemmas.Arith
import Aranym.Lib.Bits
import Aranym.Lib.Rounding

/-!
# Rounding an accumulator

Half a unit of the scaling mode is added.
-/

namespace Aranym.Dsp

open Aranym.Lib BitVec Nat

/-! ## Clearing bits -/

theorem toNat_and_clear {x n k} (hk : k ≤ n) (hn : n < 32) (hx : x.toNat < 2 ^ n) :
    (x &&& (bitmask n - bitmask k)).toNat = x.toNat - x.toNat % 2 ^ k := by
  have hpow : 2 ^ n = 2 ^ k * 2 ^ (n - k) := by rw [← Nat.pow_add, Nat.add_sub_cancel' hk]
  have hlt : 2 ^ n < 2 ^ 32 := Nat.pow_lt_pow_right (by decide) hn
  have hle : 2 ^ k ≤ 2 ^ n := Nat.pow_le_pow_right (by decide) hk
  have hmask : (bitmask n - bitmask k).toNat = 2 ^ k * (2 ^ (n - k) - 1) := by
    have hpos := Nat.two_pow_pos k
    rw [toNat_sub, toNat_bitmask hn, toNat_bitmask (by omega), Nat.mul_sub, ← hpow]; omega
  have hdiv : x.toNat / 2 ^ k < 2 ^ (n - k) := Nat.div_lt_of_lt_mul (hpow ▸ hx)
  have hsplit := mod_add_div x.toNat (2 ^ k)
  rw [toNat_and, hmask, and_two_pow_mul, and_two_pow_sub_one_eq_mod, mod_eq_of_lt hdiv]
  omega

variable {d : Acc}

/-! ## The modes -/

theorem ofInt_convergent (hd : d.InRange) {h} (hh : 4 * h ∣ 2 ^ 56) :
    BitVec.ofInt 56 (convergent h d.val.toInt) = BitVec.ofInt 56 (convergent h d.toNat) := by
  have hmod : d.val.toInt % 2 ^ 56 = (d.toNat : Int) := by
    have hlt := hd.toNat_lt
    rw [hd.toInt_val]
    split <;> omega
  apply eq_of_toNat_eq
  rw [toNat_ofInt, toNat_ofInt, ← hmod]
  exact congrArg Int.toNat (convergent_emod hh).symm

theorem eq_zero_iff_toNat {x : BitVec 32} : x = 0 ↔ x.toNat = 0 := by
  rw [← toNat_inj]
  rfl

/-- The unit of rounding, which the scaling mode moves. -/
def roundingUnit (sr : BitVec 32) : Int :=
  if sr.getLsbD srS0 then 2 ^ 25 else if sr.getLsbD srS1 then 2 ^ 23 else 2 ^ 24

theorem convergent_mod {x r h : Nat} (hh : 4 * h ∣ 2 ^ 56) (hr : r = (x + h) % 2 ^ 56) :
    convergent h x % 2 ^ 56 = (if r % (2 * h) = 0 then r - r % (4 * h) else r - r % (2 * h) : Nat) := by
  have h4 : r % (4 * h) = (x + h) % (4 * h) := by rw [hr, mod_mod_of_dvd _ hh]
  have h2 : r % (2 * h) = (x + h) % (2 * h) := by
    rw [hr, mod_mod_of_dvd _ (Dvd.dvd.trans ⟨2, by ring⟩ hh)]
  have hle4 := mod_le r (4 * h)
  have hle2 := mod_le r (2 * h)
  have hclear : ∀ c : Nat, c ≤ r → ((x + h : Nat) - c : Int) % 2 ^ 56 = (r - c : Nat) := by intro c hc; omega
  unfold convergent
  have hcond : ((x : Int) + h) % (2 * h) = 0 ↔ r % (2 * h) = 0 := by rw [h2]; norm_cast
  by_cases htie : r % (2 * h) = 0
  · rw [if_pos (hcond.mpr htie), if_pos htie, ← hclear _ hle4, h4]; push_cast; rfl
  · rw [if_neg (mt hcond.mp htie), if_neg htie, ← hclear _ hle2, h2]; push_cast; rfl

def Cleared (h : Nat) (r y : Acc) : Prop := y.InRange ∧
  y.toNat = if r.toNat % (2 * h) = 0 then r.toNat - r.toNat % (4 * h) else r.toNat - r.toNat % (2 * h)

section

variable {r : Acc}

theorem toNat_clear_one {x : BitVec 32} (hx : x.toNat < 2 ^ 24) : (x &&& 0xfffffe).toNat = x.toNat - x.toNat % 2 :=
  toNat_and_clear (n := 24) (k := 1) (by decide) (by decide) hx

theorem toNat_clear_two {x : BitVec 32} (hx : x.toNat < 2 ^ 24) :
    (x &&& (0xffffff - 0x3)).toNat = x.toNat - x.toNat % 4 :=
  toNat_and_clear (n := 24) (k := 2) (by decide) (by decide) hx

theorem cleared_down (hr : r.InRange) : Cleared (2 ^ 24) r
    ⟨r.w0, (if r.w2 = 0 ∧ r.w1 &&& 1 = 0 then r.w1 &&& (0xffffff - 0x3) else r.w1) &&& 0xfffffe, 0⟩ := by
  have h1 := hr.w1
  have h2 := hr.w2
  have hone := toNat_and_one r.w1
  have htwo := toNat_clear_two h1
  have hzero : (0 : BitVec 32).toNat = 0 := rfl
  have htie : (r.w2 = 0 ∧ r.w1 &&& 1 = 0) ↔ r.toNat % (2 * 2 ^ 24) = 0 := by
    rw [eq_zero_iff_toNat, eq_zero_iff_toNat, hone, Acc.toNat]; omega
  by_cases h : r.toNat % (2 * 2 ^ 24) = 0
  · have hw := toNat_clear_one (htwo.trans_lt (show _ < 2 ^ 24 by omega))
    rw [Cleared, if_pos (htie.mpr h), if_pos h]
    refine ⟨⟨hr.w0, hw.trans_lt (by omega), Nat.two_pow_pos 24⟩, ?_⟩
    simp only [Acc.toNat, hw, htwo, hzero] at h ⊢; omega
  · have hw := toNat_clear_one h1
    rw [Cleared, if_neg (mt htie.mp h), if_neg h]
    refine ⟨⟨hr.w0, hw.trans_lt (by omega), Nat.two_pow_pos 24⟩, ?_⟩
    simp only [Acc.toNat, hw, hzero] at h ⊢; omega

theorem cleared_up (hr : r.InRange) : Cleared (2 ^ 22) r
    ⟨r.w0, r.w1, (if r.w2 &&& 0x7fffff = 0 then 0 else r.w2) &&& 0x800000⟩ := by
  have h2 := hr.w2
  have hlow : (r.w2 &&& 0x7fffff).toNat = r.w2.toNat % 2 ^ 23 := toNat_and_bitmask (n := 23) _ (by decide)
  have hhigh : (r.w2 &&& 0x800000).toNat = r.w2.toNat - r.w2.toNat % 2 ^ 23 :=
    toNat_and_clear (n := 24) (k := 23) (by decide) (by decide) h2
  have hzero : ((0 : BitVec 32) &&& 0x800000).toNat = 0 := rfl
  have htie : r.w2 &&& 0x7fffff = 0 ↔ r.toNat % (2 * 2 ^ 22) = 0 := by
    rw [eq_zero_iff_toNat, hlow, Acc.toNat]; omega
  by_cases h : r.toNat % (2 * 2 ^ 22) = 0
  · rw [Cleared, if_pos (htie.mpr h), if_pos h]
    refine ⟨⟨hr.w0, hr.w1, Nat.two_pow_pos 24⟩, ?_⟩
    simp only [Acc.toNat, hzero] at h ⊢; omega
  · rw [Cleared, if_neg (mt htie.mp h), if_neg h]
    refine ⟨⟨hr.w0, hr.w1, hhigh.trans_lt (by omega)⟩, ?_⟩
    simp only [Acc.toNat, hhigh] at h ⊢; omega

theorem cleared_none (hr : r.InRange) : Cleared (2 ^ 23) r
    ⟨r.w0, if r.w2 = 0 then r.w1 &&& 0xfffffe else r.w1, 0⟩ := by
  have h1 := hr.w1
  have h2 := hr.w2
  have hw := toNat_clear_one h1
  have hzero : (0 : BitVec 32).toNat = 0 := rfl
  have htie : r.w2 = 0 ↔ r.toNat % (2 * 2 ^ 23) = 0 := by rw [eq_zero_iff_toNat, Acc.toNat]; omega
  by_cases h : r.toNat % (2 * 2 ^ 23) = 0
  · rw [Cleared, if_pos (htie.mpr h), if_pos h]
    refine ⟨⟨hr.w0, hw.trans_lt (by omega), Nat.two_pow_pos 24⟩, ?_⟩
    simp only [Acc.toNat, hw, hzero] at h ⊢; omega
  · rw [Cleared, if_neg (mt htie.mp h), if_neg h]
    refine ⟨⟨hr.w0, h1, Nat.two_pow_pos 24⟩, ?_⟩
    simp only [Acc.toNat, hzero] at h ⊢; omega

end

theorem Cleared.val {c y : Acc} {h : Nat} (hy : Cleared h (add56 c d).2 y) (hd : d.InRange) (hc : c.InRange)
    (hch : c.toNat = h) (hh : 4 * h ∣ 2 ^ 56) :
    y.InRange ∧ y.val = BitVec.ofInt 56 (convergent h d.val.toInt) := by
  refine ⟨hy.1, ?_⟩
  rw [ofInt_convergent hd (by exact_mod_cast hh)]
  apply eq_of_toNat_eq
  rw [hy.1.toNat_val, toNat_ofInt]
  have hsum := (add56_toNat hc hd).2
  rw [hch] at hsum
  have := convergent_mod hh hsum
  rw [← hy.2] at this
  exact (congrArg Int.toNat this).symm

theorem rnd56_val (sr : BitVec 32) (hd : d.InRange) : (rnd56 sr d).InRange ∧
    (rnd56 sr d).val = BitVec.ofInt 56 (convergent (roundingUnit sr / 2) d.val.toInt) := by
  unfold rnd56 roundingUnit
  split
  · have hc : Acc.InRange ⟨0, 1, 0⟩ := ⟨by decide, by decide, by decide⟩
    exact (cleared_down (add56_toNat hc hd).1).val hd hc rfl ⟨2 ^ 30, by norm_num⟩
  · split
    · have hc : Acc.InRange ⟨0, 0, 1#32 <<< 22⟩ := ⟨by decide, by decide, by decide⟩
      exact (cleared_up (add56_toNat hc hd).1).val hd hc rfl ⟨2 ^ 32, by norm_num⟩
    · have hc : Acc.InRange ⟨0, 0, 1#32 <<< 23⟩ := ⟨by decide, by decide, by decide⟩
      exact (cleared_none (add56_toNat hc hd).1).val hd hc rfl ⟨2 ^ 31, by norm_num⟩

theorem roundingUnit_halves (sr : BitVec 32) : 2 * (roundingUnit sr / 2) = roundingUnit sr ∧
    0 < roundingUnit sr / 2 := by
  unfold roundingUnit
  split
  · decide
  · split <;> decide

end Aranym.Dsp
