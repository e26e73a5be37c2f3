import Aranym.Dsp.Address
import Aranym.Lib.Bits
import Mathlib.Algebra.Order.Group.Abs
import Mathlib.Data.Int.ModEq
import Mathlib.Data.Nat.Log

/-!
# Modulo addressing

A buffer of `m + 1` words starts at a multiple of the smallest power of two that it fits in.
-/

namespace Aranym.Dsp

open Aranym.Lib Nat Function

variable {r : Registers} {numreg : BitVec 3} {m : Nat}

def Registers.rn (r : Registers) (numreg : BitVec 3) : Nat := (r (regR numreg)).toNat

def bufferSize (m : Nat) : Nat := 2 ^ Nat.clog 2 (m + 1)

/-- The start of the circular buffer that holds the address. -/
def bufferBase (m rn : Nat) : Nat := rn / bufferSize m * bufferSize m

/-- The update by `offset` stays in the buffer, wraps around in it, and is undone by the opposite one. -/
def WrapsAround (m : Nat) (numreg : BitVec 3) (offset : BitVec 16) (r : Registers) : Prop :=
  let r' := updateRn numreg offset r
  bufferBase m (r.rn numreg) ≤ r'.rn numreg ∧ r'.rn numreg ≤ bufferBase m (r.rn numreg) + m ∧
    r'.rn numreg ≡ r.rn numreg + offset.toInt [ZMOD m + 1] ∧
    (updateRn numreg (-offset) r').rn numreg = r.rn numreg

/-- No sum that is compared with the bounds of the buffer reaches the sign bit. A buffer of half the address
space is the exception, as subtracting its size is then the same as adding it. -/
def StaysSigned (m rn : Nat) (offset : Int) : Prop :=
  (m = 32767 ∧ (rn < 2 ^ 15 ∨ rn + offset < bufferBase m rn ∨ bufferBase m rn + m < rn + offset)) ∨
    (rn < 2 ^ 15 ∧ rn + offset < 2 ^ 15 ∧ (bufferBase m rn ≤ rn + offset ∨ rn + m + 1 < 2 ^ 15))

/-! ## The buffer -/

theorem clog_le (hm : m ≤ 32767) : Nat.clog 2 (m + 1) ≤ 15 := clog_le_of_le_pow (show m + 1 ≤ 2 ^ 15 by omega)

theorem lt_bufferSize (m : Nat) : m + 1 ≤ bufferSize m := le_pow_clog (by decide) _

theorem bufferSize_dvd (hm : m ≤ 32767) : bufferSize m ∣ 2 ^ 15 := Nat.pow_dvd_pow 2 (clog_le hm)

theorem bufferBase_bounds (hm : m ≤ 32767) {rn} (hrn : rn < 2 ^ 16) :
    bufferBase m rn ≤ rn ∧ rn < bufferBase m rn + bufferSize m ∧
      (rn < 2 ^ 15 → bufferBase m rn + bufferSize m ≤ 2 ^ 15) ∧
      (2 ^ 15 ≤ rn → 2 ^ 15 ≤ bufferBase m rn) ∧ bufferBase m rn + bufferSize m ≤ 2 ^ 16 := by
  obtain ⟨c, hc⟩ := bufferSize_dvd hm
  have hpos : 0 < bufferSize m := Nat.two_pow_pos _
  have hmod := mod_lt rn hpos
  have hdiv := div_add_mod rn (bufferSize m)
  rw [bufferBase, Nat.mul_comm (rn / bufferSize m)]
  generalize rn / bufferSize m = q at hdiv ⊢
  have hbelow : ∀ {d : Nat}, rn < bufferSize m * d → bufferSize m * q + bufferSize m ≤ bufferSize m * d := by
    intro d hd
    have hq : q < d := Nat.lt_of_mul_lt_mul_left (a := bufferSize m) (by omega)
    calc bufferSize m * q + bufferSize m = bufferSize m * (q + 1) := by ring
      _ ≤ bufferSize m * d := Nat.mul_le_mul_left _ hq
  refine ⟨by omega, by omega, fun h => ?_, fun h => ?_, ?_⟩
  · rw [hc] at h ⊢; exact hbelow h
  · have hcq : c ≤ q := by
      by_contra hlt
      have hle := Nat.mul_le_mul_left (bufferSize m) (show q + 1 ≤ c by omega)
      rw [← hc, Nat.mul_add] at hle; omega
    rw [hc]; exact Nat.mul_le_mul_left _ hcq
  · have htwo : 2 ^ 16 = bufferSize m * (2 * c) := by rw [Nat.mul_left_comm, ← hc, ← Nat.pow_succ']
    rw [htwo] at hrn ⊢; exact hbelow hrn

theorem bufferBase_eq {rn rn'} (hle : bufferBase m rn ≤ rn') (hlt : rn' < bufferBase m rn + bufferSize m) :
    bufferBase m rn' = bufferBase m rn := by
  have hdiv : rn' / bufferSize m = rn / bufferSize m := by
    refine Nat.div_eq_of_lt_le hle ?_
    rw [Nat.add_mul, Nat.one_mul]; exact hlt
  rw [bufferBase, hdiv, bufferBase]

/-! ## The loops -/

theorem toNat_one_shiftLeft {i} (hi : i ≤ 15) : (1#16 <<< i).toNat = 2 ^ i := by
  rw [BitVec.toNat_shiftLeft, shiftLeft_eq, show (1#16).toNat = 1 from rfl, Nat.one_mul,
    mod_eq_of_lt (Nat.pow_lt_pow_right (by decide) (by omega))]

theorem bufferLoop_eq {modulo} (hmod : modulo.toNat = m + 1) (hm : m ≤ 32767) (fuel : Nat) {i}
    (hi : i ≤ Nat.clog 2 (m + 1)) (hfuel : Nat.clog 2 (m + 1) < fuel + i) :
    bufferLoop modulo fuel (1#16 <<< i, BitVec.allOnes 16 <<< i) =
      (1#16 <<< Nat.clog 2 (m + 1), BitVec.allOnes 16 <<< Nat.clog 2 (m + 1)) := by
  have hle := clog_le hm
  induction fuel generalizing i with
  | zero => omega
  | succ fuel ih =>
    have htest : 1#16 <<< i < modulo ↔ i < Nat.clog 2 (m + 1) := by
      rw [BitVec.lt_def, toNat_one_shiftLeft (by omega), hmod, lt_clog_iff_pow_lt (by decide)]
    rw [bufferLoop]
    by_cases hlt : i < Nat.clog 2 (m + 1)
    · rw [if_pos (htest.mpr hlt), ← BitVec.shiftLeft_add, ← BitVec.shiftLeft_add]
      exact ih (by omega) (by omega)
    · rw [if_neg (htest.not.mpr hlt), show i = Nat.clog 2 (m + 1) by omega]

/-! ## The update -/

def signedSum (x : Int) : Int := (x + 2 ^ 15) % 2 ^ 16 - 2 ^ 15

def wrapSum (m base : Nat) (x : Int) : Int :=
  if (base + m : Int) < signedSum x then signedSum x - (m + 1)
  else if signedSum x < base then signedSum x + (m + 1)
  else signedSum x

theorem wrapSum_cases (m base : Nat) (x : Int) :
    (base + m < signedSum x ∧ wrapSum m base x = signedSum x - (m + 1)) ∨
      (signedSum x ≤ base + m ∧ signedSum x < base ∧ wrapSum m base x = signedSum x + (m + 1)) ∨
      (signedSum x ≤ base + m ∧ base ≤ signedSum x ∧ wrapSum m base x = signedSum x) := by
  rw [wrapSum]
  split
  · exact .inl ⟨by assumption, rfl⟩
  · split
    · exact .inr (.inl ⟨by omega, by assumption, rfl⟩)
    · exact .inr (.inr ⟨by omega, by omega, rfl⟩)

theorem toInt_eq_signedSum (x : BitVec 16) : x.toInt = signedSum x.toNat := by
  have hlt := x.isLt
  rw [BitVec.toInt_eq_toNat_cond, signedSum]
  split <;> omega

theorem toInt_add_signed (x y : BitVec 16) : (x + y).toInt = signedSum (x.toNat + y.toInt) := by
  rw [toInt_eq_signedSum, toInt_eq_signedSum y, BitVec.toNat_add]
  simp only [signedSum]
  omega

theorem toNat_of_toInt (x : BitVec 16) : (x.toNat : Int) = x.toInt % 2 ^ 16 := by
  have hlt := x.isLt
  rw [toInt_eq_signedSum, signedSum]
  omega

theorem toInt_neg_signed {x : BitVec 16} (hx : |x.toInt| ≤ 32767) : (-x).toInt = -x.toInt := by
  have habs := abs_le.mp hx
  rw [BitVec.toInt_neg, Int.bmod_eq_of_le (by omega) (by omega)]

section Update

variable (hm : (r (regM numreg)).toNat = m) (hlo : 1 ≤ m) (hhi : m ≤ 32767) (hr : r.rn numreg < 2 ^ 16)
include hm hlo hhi

theorem updateRn_modulo (offset : BitVec 16) : updateRn numreg offset r = updateRnModulo numreg offset r := by
  have hmod : ((r (regM numreg)).setWidth 16).toNat = m := by
    rw [BitVec.toNat_setWidth, hm, mod_eq_of_lt (by omega)]
  have hne : (r (regM numreg)).setWidth 16 ≠ 0 := by
    intro h
    rw [h] at hmod; exact absurd hmod.symm (show m ≠ 0 by omega)
  rw [updateRn]
  refine (if_neg hne).trans (if_pos ⟨?_, ?_⟩)
  · rw [BitVec.le_def, hmod]; exact hlo
  · rw [BitVec.le_def, hmod]; exact hhi

include hr

theorem rn_updateRn {offset : BitVec 16} (hle : |offset.toInt| ≤ m) :
    ((updateRn numreg offset r).rn numreg : Int)
      = wrapSum m (bufferBase m (r.rn numreg)) (r.rn numreg + offset.toInt) % 2 ^ 16 := by
  obtain ⟨hb1, hb2, -, -, hb5⟩ := bufferBase_bounds hhi hr
  have hsize := lt_bufferSize m
  have habs := abs_le.mp hle
  generalize hmodulo : (r (regM numreg) + 1).setWidth 16 = modulo
  generalize hreg : (r (regR numreg)).setWidth 16 = rReg
  have hmod : modulo.toNat = m + 1 := by
    rw [← hmodulo, BitVec.toNat_setWidth, BitVec.toNat_add, hm]
    change (m + 1) % 2 ^ 32 % 2 ^ 16 = m + 1; omega
  have hrn : rReg.toNat = r.rn numreg := by rw [← hreg, BitVec.toNat_setWidth]; exact mod_eq_of_lt hr
  have hloop := bufferLoop_eq hmod hhi 16 (Nat.zero_le _) (by have := clog_le hhi; omega)
  generalize hlobound : rReg &&& BitVec.allOnes 16 <<< Nat.clog 2 (m + 1) = lobound
  have hlob : lobound.toNat = bufferBase m (r.rn numreg) := by
    have hdiv := div_add_mod (r.rn numreg) (bufferSize m)
    rw [← hlobound, toNat_and_high, hrn, bufferBase, Nat.mul_comm]
    change r.rn numreg - r.rn numreg % bufferSize m = _; omega
  have hhib : (lobound + modulo - 1).toNat = bufferBase m (r.rn numreg) + m := by
    rw [BitVec.toNat_sub, BitVec.toNat_add, hlob, hmod]
    change (2 ^ 16 - 1 + (bufferBase m (r.rn numreg) + (m + 1)) % 2 ^ 16) % 2 ^ 16 = _; omega
  have hsum := toInt_add_signed rReg offset
  rw [hrn] at hsum
  have hupdate : (updateRn numreg offset r).rn numreg
      = (if ((lobound + modulo - 1).toNat : Int) < (rReg + offset).toInt then rReg + offset - modulo
          else if (rReg + offset).toInt < lobound.toNat then rReg + offset + modulo else rReg + offset).toNat := by
    have hnot : ¬ (modulo.toNat : Int) < offset.toInt := by omega
    have hne : offset.toInt ≠ modulo.toNat := by omega
    rw [updateRn_modulo hm hlo hhi, Registers.rn, updateRnModulo]
    rw [Function.update_self, BitVec.toNat_setWidth_of_le (by decide), hmodulo, hreg]
    change (if _ then _ else _ : BitVec 16).toNat = _
    rw [if_pos hne, if_neg hnot]
    rw [show bufferLoop modulo 16 (1, 0xffff) = _ from hloop]
    rw [hlobound]
  rw [hupdate, wrapSum, hhib, hlob, hsum, cast_add]
  split
  · rw [BitVec.toNat_sub, hmod]; have := toNat_of_toInt (rReg + offset); omega
  · split
    · rw [BitVec.toNat_add _ modulo, hmod]; have := toNat_of_toInt (rReg + offset); omega
    · rw [toNat_of_toInt, hsum]

omit hr in
theorem updateRn_regM (offset : BitVec 16) : updateRn numreg offset r (regM numreg) = r (regM numreg) := by
  rw [updateRn_modulo hm hlo hhi, updateRnModulo]
  exact Function.update_of_ne (regM_ne_regR numreg) _ _

/-- A modulo update of any offset that is no larger than the buffer is right exactly if no sum is taken for a
negative number. -/
theorem wrapsAround_iff {offset : BitVec 16} (hin : r.rn numreg ≤ bufferBase m (r.rn numreg) + m)
    (hle : |offset.toInt| ≤ m) : WrapsAround m numreg offset r ↔ StaysSigned m (r.rn numreg) offset.toInt := by
  obtain ⟨hb1, hb2, hb3, hb4, hb5⟩ := bufferBase_bounds hhi hr
  have hsize := lt_bufferSize m
  have habs := abs_le.mp hle
  have hstep := rn_updateRn hm hlo hhi hr hle
  have hneg := toInt_neg_signed (hle.trans (by omega))
  -- the buffer is the same for the update back
  have hback : bufferBase m (r.rn numreg) ≤ (updateRn numreg offset r).rn numreg →
      (updateRn numreg offset r).rn numreg ≤ bufferBase m (r.rn numreg) + m →
      ((updateRn numreg (-offset) (updateRn numreg offset r)).rn numreg : Int)
        = wrapSum m (bufferBase m (r.rn numreg)) ((updateRn numreg offset r).rn numreg - offset.toInt) % 2 ^ 16 := by
    intro h1 h2
    rw [rn_updateRn ((congrArg BitVec.toNat (updateRn_regM hm hlo hhi offset)).trans hm) hlo hhi (by omega)
      (by rw [hneg, abs_neg]; exact hle), bufferBase_eq h1 (by omega), hneg, ← sub_eq_add_neg]
  rw [WrapsAround, StaysSigned]
  generalize (updateRn numreg (-offset) (updateRn numreg offset r)).rn numreg = rn'' at hback ⊢
  generalize (updateRn numreg offset r).rn numreg = rn' at hback hstep ⊢
  generalize r.rn numreg = rn at *
  generalize bufferBase m rn = base at *
  generalize bufferSize m = size at *
  generalize offset.toInt = n at *
  clear hneg hle
  constructor
  · rintro ⟨h1, h2, -, h4⟩
    have hrn'' := hback h1 h2
    clear hback
    have hs := wrapSum_cases m base (rn + n)
    have hs' := wrapSum_cases m base (rn' - n)
    rw [signedSum] at hs hs'; omega
  · intro h
    have hs := wrapSum_cases m base (rn + n)
    rw [signedSum] at hs
    have hsum : (rn' : Int) = rn + n ∨ (rn' : Int) = rn + n + (m + 1) ∨ (rn' : Int) = rn + n - (m + 1) := by
      omega
    have h1 : base ≤ rn' := by omega
    have h2 : rn' ≤ base + m := by omega
    have hrn'' := hback h1 h2
    have hs' := wrapSum_cases m base (rn' - n)
    rw [signedSum] at hs'
    refine ⟨h1, h2, ?_, by omega⟩
    rcases hsum with hsum | hsum | hsum
    · rw [hsum]
    · rw [hsum]; exact Int.add_modEq_right
    · rw [hsum]; exact Int.sub_modulus_modEq_iff.mpr rfl

end Update

def bufferRegisters (rn m : BitVec 32) : Registers :=
  update (update (fun _ => 0) (regR 0) rn) (regM 0) m

theorem wrapsAround_four : WrapsAround 3 0 1 (bufferRegisters 0x103 3) :=
  (wrapsAround_iff (r := bufferRegisters 0x103 3) (m := 3) (by decide) (by decide) (by decide) (by decide)
    (by decide +kernel) (by decide)).mpr (.inr (by decide +kernel))

/-- A buffer in the upper half of the address space is left at the first step. -/
theorem leaves_buffer : bufferBase 3 ((bufferRegisters 0x8000 3).rn 0) = 0x8000 ∧
    (updateRn 0 1 (bufferRegisters 0x8000 3)).rn 0 = 0x8005 ∧ ¬ WrapsAround 3 0 1 (bufferRegisters 0x8000 3) := by
  have hrn : (updateRn 0 1 (bufferRegisters 0x8000 3)).rn 0 = 0x8005 := by decide
  refine ⟨by decide +kernel, hrn, fun h => ?_⟩
  have hle := h.2.1
  rw [hrn] at hle
  exact absurd hle (by decide +kernel)

end Aranym.Dsp
