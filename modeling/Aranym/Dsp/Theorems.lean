import Aranym.Dsp.Lemmas.Alu
import Aranym.Dsp.Lemmas.Rounding

/-!
# Theorems about the arithmetic of the DSP
-/

namespace Aranym.Dsp

open Aranym.Lib

variable (curInst : BitVec 32) (r : Registers)

/-! ## Operations on accumulators -/

/-- The operations on three words give the exact result modulo `2 ^ 56`, again in range. `V` tells that it
does not fit, and `C` is what was carried, borrowed or shifted out. -/
theorem arith56_exact (s d : Acc) (hs : s.InRange) (hd : d.InRange) :
    Computes (add56 s d) (d.val.toInt + s.val.toInt) (decide (2 ^ 56 ≤ d.val.toNat + s.val.toNat)) ∧
      Computes (sub56 s d) (d.val.toInt - s.val.toInt) (decide (d.val.toNat < s.val.toNat)) ∧
      Computes (asl56 d) (2 * d.val.toInt) (d.val.getLsbD 55) ∧
      Computes (asr56 d) (d.val.toInt / 2) (d.val.getLsbD 0) ∧
      (abs56 d).2.InRange ∧ (abs56 d).2.val = BitVec.ofInt 56 |d.val.toInt| :=
  ⟨add56_computes hs hd, sub56_computes hs hd, asl56_computes hd, asr56_computes hd, abs56_val hd⟩

theorem add56_one_to_max : Computes (add56 ⟨0, 0, 1⟩ ⟨0x7f, 0xffffff, 0xffffff⟩) (2 ^ 55) false :=
  (arith56_exact ⟨0, 0, 1⟩ ⟨0x7f, 0xffffff, 0xffffff⟩ ⟨by decide, by decide, by decide⟩
    ⟨by decide, by decide, by decide⟩).1

/-- The product of two words is twice the product of the numbers, also of the smallest ones. -/
theorem mul56_exact (x y : BitVec 24) : (mul56 (x.setWidth 32) (y.setWidth 32)).InRange ∧
    (mul56 (x.setWidth 32) (y.setWidth 32)).val = BitVec.ofInt 56 (2 * x.toInt * y.toInt) := by
  obtain ⟨hmx, hx⟩ := toInt_magnitude x
  obtain ⟨hmy, hy⟩ := toInt_magnitude y
  obtain ⟨hr, hparts⟩ := mulParts_toNat hmx hmy
  have ha := asl56_computes hr
  have hpos : (mulParts (magnitude (x.setWidth 32)) (magnitude (y.setWidth 32))).val.toInt
      = (magnitude (x.setWidth 32)).toNat * (magnitude (y.setWidth 32)).toNat := by
    have hle := Nat.mul_le_mul hmx hmy
    rw [hr.toInt_val, hparts, if_neg (by omega), Nat.cast_mul]
  have hrange := ha.inRange
  have hval := ha.val
  rw [hpos] at hval
  obtain ⟨hrange', hneg⟩ := negate_val hrange
  rw [hval, ← BitVec.ofInt_neg] at hneg
  unfold mul56
  rw [hx, hy]
  cases (x.setWidth 32).getLsbD 23 <;> cases (y.setWidth 32).getLsbD 23
  · exact ⟨hrange, hval.trans (congrArg _ (by simp [mul_assoc]))⟩
  · exact ⟨hrange', hneg.trans (congrArg _ (by simp [mul_assoc]))⟩
  · exact ⟨hrange', hneg.trans (congrArg _ (by simp [mul_assoc]))⟩
  · exact ⟨hrange, hval.trans (congrArg _ (by simp [mul_assoc]))⟩

/-- Rounding goes to the nearest multiple of the unit of the scaling mode, and at a tie to the even one. -/
theorem rnd56_nearest (sr : BitVec 32) (d : Acc) (hd : d.InRange) : (rnd56 sr d).InRange ∧
    ∃ y, RoundsTo (roundingUnit sr) d.val.toInt y ∧ (rnd56 sr d).val = BitVec.ofInt 56 y := by
  obtain ⟨hr, hval⟩ := rnd56_val sr hd
  obtain ⟨hunit, hpos⟩ := roundingUnit_halves sr
  have hround := roundsTo_convergent hpos d.val.toInt
  rw [hunit] at hround
  exact ⟨hr, _, hround, hval⟩

theorem rnd56_tie : (rnd56 0 ⟨0, 0, 0x800000⟩).InRange ∧ ∃ y, RoundsTo (2 ^ 24) (2 ^ 23) y ∧
    (rnd56 0 ⟨0, 0, 0x800000⟩).val = BitVec.ofInt 56 y :=
  rnd56_nearest 0 ⟨0, 0, 0x800000⟩ ⟨by decide, by decide, by decide⟩

/-! ## Instructions -/

/-- 24 steps of a division by a positive number leave the quotient in the third word. -/
theorem div_quotient
    (hS : (r (divSource curInst)).toNat < 2 ^ 23) (hd : (r.readAcc (destreg curInst)).InRange)
    (hnonneg : 0 ≤ (r.readAcc (destreg curInst)).val.toInt)
    (hlt : (r.readAcc (destreg curInst)).val.toInt < (r (divSource curInst)).toNat * 2 ^ 24)
    (hc : (r regSr).getLsbD srC = false) : ((((div curInst)^[24] r).readAcc (destreg curInst)).w2.toNat : Int)
      = (r.readAcc (destreg curInst)).val.toInt / (2 * (r (divSource curInst)).toNat) := by
  have h := (dividedRun_iterate (k := 23) hS rfl hnonneg hlt ⟨rfl, hd, rfl, hc⟩ (by decide)).quotient
  rw [h, show 2 * (((r (divSource curInst)).toNat : Int) * 2 ^ 24)
    = 2 ^ 24 * (2 * (r (divSource curInst)).toNat) by ring]
  exact Int.mul_ediv_mul_of_pos _ _ (by decide)

def sampleRegisters (a : Acc) (x1 x0 : BitVec 32) (c : Bool) : Registers := fun k =>
  if k = regA2 then a.w0 else if k = regA1 then a.w1 else if k = regA0 then a.w2
  else if k = regX1 then x1 else if k = regX0 then x0
  else if k = regSr then (BitVec.ofBool c).setWidth 32 else 0

theorem div_quotient_hundred :
    ((((div 0x018040)^[24] (sampleRegisters ⟨0, 0, 100⟩ 0 7 false)).readAcc 0).w2.toNat : Int) = 100 / (2 * 7) :=
  div_quotient 0x018040 (sampleRegisters ⟨0, 0, 100⟩ 0 7 false) (by decide) ⟨by decide, by decide, by decide⟩
    (by decide) (by decide) rfl

/-- The flags after `ADC` are those of destination plus source plus carry. -/
def AdcExact : Prop :=
  let D := (r.readAcc (destreg curInst)).val
  let S := (r.readLong (curInst.getLsbD 4)).val
  let c := (r regSr).getLsbD srC
  FlagsOf (adc curInst r) (D.toInt + S.toInt + c.toNat) (decide (2 ^ 56 ≤ D.toNat + S.toNat + c.toNat))

/-- The flags after `SBC` are those of destination minus source minus carry. -/
def SbcExact : Prop :=
  let D := (r.readAcc (destreg curInst)).val
  let S := (r.readLong (curInst.getLsbD 4)).val
  let c := (r regSr).getLsbD srC
  FlagsOf (sbc curInst r) (D.toInt - S.toInt - c.toNat) (decide (D.toNat < S.toNat + c.toNat))

/-- The flags are exact unless the carry brings a result back into range that the first step left just
outside of it. -/
theorem withCarry_exact_iff
    (hs : (r.readLong (curInst.getLsbD 4)).InRange) (hd : (r.readAcc (destreg curInst)).InRange) :
    (AdcExact curInst r ↔ ¬ ((r regSr).getLsbD srC = true ∧ (r.readAcc (destreg curInst)).val.toInt
        + (r.readLong (curInst.getLsbD 4)).val.toInt = -2 ^ 55 - 1)) ∧
      (SbcExact curInst r ↔ ¬ ((r regSr).getLsbD srC = true ∧ (r.readAcc (destreg curInst)).val.toInt
        - (r.readLong (curInst.getLsbD 4)).val.toInt = 2 ^ 55)) :=
  ⟨adc_flags_iff hs hd rfl rfl rfl, sbc_flags_iff hs hd rfl rfl rfl⟩

theorem withCarry_exact_small : AdcExact 0x21 (sampleRegisters ⟨0, 0, 5⟩ 0 7 true) ∧
    SbcExact 0x25 (sampleRegisters ⟨0, 0, 5⟩ 0 7 true) :=
  ⟨(withCarry_exact_iff 0x21 (sampleRegisters ⟨0, 0, 5⟩ 0 7 true) ⟨by decide, by decide, by decide⟩
      ⟨by decide, by decide, by decide⟩).1.mpr (by decide),
    (withCarry_exact_iff 0x25 (sampleRegisters ⟨0, 0, 5⟩ 0 7 true) ⟨by decide, by decide, by decide⟩
      ⟨by decide, by decide, by decide⟩).2.mpr (by decide)⟩

/-- `ADC X,A` of the smallest number, -1 and the carry has the smallest number as its exact result, and
`SBC X,A` of the largest number, -1 and the carry the largest; `V` is set after both. -/
theorem withCarry_overflows_twice : ¬ AdcExact 0x21 (sampleRegisters ⟨0x80, 0, 0⟩ 0xffffff 0xffffff true) ∧
      ¬ SbcExact 0x25 (sampleRegisters ⟨0x7f, 0xffffff, 0xffffff⟩ 0xffffff 0xffffff true) := by
  refine ⟨fun h => ?_, fun h => ?_⟩ <;> exact absurd (h.overflow.mp (by decide)) (by decide)

end Aranym.Dsp
