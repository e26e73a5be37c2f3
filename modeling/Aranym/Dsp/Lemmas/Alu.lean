import Aranym.Dsp.Alu
import Aranym.Dsp.Lemmas.Arith
import Aranym.Lib.NonRestoring

/-!
# What the instructions of the ALU leave behind
-/

namespace Aranym.Dsp

open Aranym.Lib BitVec Function Nat

variable {r : Registers} {curInst : BitVec 32} {s d : Acc} {n : RegNum}

variable (x y : BitVec 56)

/-! ## Registers -/

theorem bit_cases (x : BitVec 32) : (x &&& 1).setWidth 6 = 0#6 ∨ (x &&& 1).setWidth 6 = 1#6 := by
  have h : (x &&& 1).toNat = 0 ∨ (x &&& 1).toNat = 1 := by rw [toNat_and_one]; omega
  rcases h with h | h
  · exact .inl (eq_of_toNat_eq (by rw [toNat_setWidth, h]; rfl))
  · exact .inr (eq_of_toNat_eq (by rw [toNat_setWidth, h]; rfl))

theorem destreg_cases (curInst : BitVec 32) : destreg curInst = 0 ∨ destreg curInst = 1 := bit_cases _

theorem readAcc_writeAcc (hn : n = 0 ∨ n = 1) : (r.writeAcc n d).readAcc n = d := by
  rcases hn with rfl | rfl <;> rfl

theorem readAcc_setSr (hn : n = 0 ∨ n = 1) (bits : BitVec 32) : (r.setSr bits).readAcc n = r.readAcc n := by
  rcases hn with rfl | rfl <;> rfl

theorem readAcc_clearSr (hn : n = 0 ∨ n = 1) (mask : BitVec 32) :
    (r.clearSr mask).readAcc n = r.readAcc n := by rcases hn with rfl | rfl <;> rfl

@[simp] theorem setSr_sr (bits : BitVec 32) (i : Nat) :
    ((r.setSr bits) regSr).getLsbD i = ((r regSr).getLsbD i || bits.getLsbD i) := by
  rw [Registers.setSr, update_self, getLsbD_or]

@[simp] theorem clearSr_sr (mask : BitVec 32) (i : Nat) :
    ((r.clearSr mask) regSr).getLsbD i = ((r regSr).getLsbD i && (bitmask 16 - mask).getLsbD i) := by
  rw [Registers.clearSr, update_self, getLsbD_and]

/-! ## Additions with carry -/

structure FlagsOf (r : Registers) (z : Int) (carry : Bool) : Prop where
  overflow : (r regSr).getLsbD srV = true ↔ ¬ Fits56 z
  carry : (r regSr).getLsbD srC = carry

theorem withCarry_flag (op : Acc → Acc → BitVec 16 × Acc) {i} (hi : i = srV ∨ i = srC) {first second}
    (h1 : first = op (r.readLong (curInst.getLsbD 4)) (r.readAcc (destreg curInst)))
    (h2 : second = if (r regSr).getLsbD srC then op ⟨0, 0, 1⟩ first.2 else (0, first.2)) :
    ((withCarry op curInst r) regSr).getLsbD i = (first.1.getLsbD i || second.1.getLsbD i) := by
  have hclear : (bitmask 16 - (1#32 <<< srV ||| 1#32 <<< srC)).getLsbD i = false := by
    rcases hi with rfl | rfl <;> rfl
  have hlt : i < 32 := by rcases hi with rfl | rfl <;> decide
  unfold withCarry
  simp only [← h1, ← h2]
  rw [setSr_sr, clearSr_sr, hclear, Bool.and_false, Bool.false_or, getLsbD_setWidth,
    getLsbD_or, decide_eq_true hlt, Bool.true_and]

theorem one_inRange : Acc.InRange ⟨0, 0, 1⟩ := ⟨by decide, by decide, by decide⟩

theorem one_val : Acc.val ⟨0, 0, 1⟩ = 1 := rfl

theorem toInt_add_cases : ((x + y).toInt = x.toInt + y.toInt ∧ Fits56 (x.toInt + y.toInt))
    ∨ ((x + y).toInt = x.toInt + y.toInt + 2 ^ 56 ∧ x.toInt + y.toInt < -2 ^ 55)
    ∨ ((x + y).toInt = x.toInt + y.toInt - 2 ^ 56 ∧ 2 ^ 55 ≤ x.toInt + y.toInt) := by
  have hx := x.toInt_lt
  have hx' := x.le_toInt
  have hy := y.toInt_lt
  have hy' := y.le_toInt
  rw [toInt_add, Int.bmod_def, Fits56]
  split <;> omega

theorem toInt_sub_cases : ((x - y).toInt = x.toInt - y.toInt ∧ Fits56 (x.toInt - y.toInt))
    ∨ ((x - y).toInt = x.toInt - y.toInt + 2 ^ 56 ∧ x.toInt - y.toInt < -2 ^ 55)
    ∨ ((x - y).toInt = x.toInt - y.toInt - 2 ^ 56 ∧ 2 ^ 55 ≤ x.toInt - y.toInt) := by
  have hx := x.toInt_lt
  have hx' := x.le_toInt
  have hy := y.toInt_lt
  have hy' := y.le_toInt
  rw [toInt_sub, Int.bmod_def, Fits56]
  split <;> omega

theorem overflow_add_one :
    ((¬ Fits56 (x.toInt + y.toInt) ∨ ¬ Fits56 ((x + y).toInt + 1)) ↔ ¬ Fits56 (x.toInt + y.toInt + 1))
      ↔ x.toInt + y.toInt ≠ -2 ^ 55 - 1 := by
  have h := toInt_add_cases x y
  unfold Fits56 at h ⊢
  omega

theorem overflow_sub_one :
    ((¬ Fits56 (x.toInt - y.toInt) ∨ ¬ Fits56 ((x - y).toInt - 1)) ↔ ¬ Fits56 (x.toInt - y.toInt - 1))
      ↔ x.toInt - y.toInt ≠ 2 ^ 55 := by
  have h := toInt_sub_cases x y
  unfold Fits56 at h ⊢
  omega

theorem carry_add_one : (decide (2 ^ 56 ≤ x.toNat + y.toNat) || decide (2 ^ 56 ≤ (x + y).toNat + 1))
      = decide (2 ^ 56 ≤ x.toNat + y.toNat + 1) := by
  rw [← Bool.decide_or, decide_eq_decide, toNat_add]
  omega

theorem carry_sub_one :
    (decide (x.toNat < y.toNat) || decide ((x - y).toNat < 1)) = decide (x.toNat < y.toNat + 1) := by
  rw [← Bool.decide_or, decide_eq_decide, toNat_sub]
  omega

theorem withCarry_flags {op z₁ z₂ c₁ c₂ c} (hc : c = (r regSr).getLsbD srC)
    (h₁ : Computes (op (r.readLong (curInst.getLsbD 4)) (r.readAcc (destreg curInst))) z₁ c₁)
    (h₂ : Computes (op ⟨0, 0, 1⟩ (op (r.readLong (curInst.getLsbD 4)) (r.readAcc (destreg curInst))).2) z₂ c₂) :
    (((withCarry op curInst r) regSr).getLsbD srV = true ↔ ¬ Fits56 z₁ ∨ (c = true ∧ ¬ Fits56 z₂)) ∧
      ((withCarry op curInst r) regSr).getLsbD srC = (c₁ || (c && c₂)) := by
  rw [withCarry_flag op (.inl rfl) rfl rfl, withCarry_flag op (.inr rfl) rfl rfl, ← hc, Bool.or_eq_true,
    h₁.overflow, h₁.carry]
  cases c with
  | false => simp
  | true => rw [if_pos rfl, h₂.overflow, h₂.carry, eq_self, true_and, Bool.true_and]; exact ⟨Iff.rfl, rfl⟩

section

variable {S D : BitVec 56} {c : Bool} (hs : (r.readLong (curInst.getLsbD 4)).InRange)
  (hd : (r.readAcc (destreg curInst)).InRange) (hS : S = (r.readLong (curInst.getLsbD 4)).val)
  (hD : D = (r.readAcc (destreg curInst)).val) (hc : c = (r regSr).getLsbD srC)

include hs hd hS hD hc

theorem adc_flags_iff :
    FlagsOf (adc curInst r) (D.toInt + S.toInt + c.toNat) (decide (2 ^ 56 ≤ D.toNat + S.toNat + c.toNat))
      ↔ ¬ (c = true ∧ D.toInt + S.toInt = -2 ^ 55 - 1) := by
  have h₁ := add56_computes hs hd
  have h₂ := add56_computes one_inRange h₁.inRange
  rw [add56_val hs hd, one_val, ← hS, ← hD] at h₂
  rw [← hS, ← hD] at h₁
  obtain ⟨hv, hcarry⟩ := withCarry_flags hc h₁ h₂
  cases c with
  | false =>
    refine iff_of_true ⟨?_, ?_⟩ (by simp)
    · simpa [adc] using hv
    · simpa [adc] using hcarry
  | true =>
    have hone : (1 : BitVec 56).toInt = 1 := rfl
    have hone' : (1 : BitVec 56).toNat = 1 := rfl
    simp only [true_and, Bool.true_and, hone, hone', carry_add_one] at hv hcarry
    have h := overflow_add_one D S
    rw [← hv] at h
    refine Iff.trans ⟨fun hf => h.mp hf.overflow, fun hne => ⟨h.mpr hne, hcarry⟩⟩ ?_
    simp

theorem sbc_flags_iff :
    FlagsOf (sbc curInst r) (D.toInt - S.toInt - c.toNat) (decide (D.toNat < S.toNat + c.toNat))
      ↔ ¬ (c = true ∧ D.toInt - S.toInt = 2 ^ 55) := by
  have h₁ := sub56_computes hs hd
  have h₂ := sub56_computes one_inRange h₁.inRange
  rw [sub56_val hs hd, one_val, ← hS, ← hD] at h₂
  rw [← hS, ← hD] at h₁
  obtain ⟨hv, hcarry⟩ := withCarry_flags hc h₁ h₂
  cases c with
  | false =>
    refine iff_of_true ⟨?_, ?_⟩ (by simp)
    · simpa [sbc] using hv
    · simpa [sbc] using hcarry
  | true =>
    have hone : (1 : BitVec 56).toInt = 1 := rfl
    have hone' : (1 : BitVec 56).toNat = 1 := rfl
    simp only [true_and, Bool.true_and, hone, hone', carry_sub_one] at hv hcarry
    have h := overflow_sub_one D S
    rw [← hv] at h
    refine Iff.trans ⟨fun hf => h.mp hf.overflow, fun hne => ⟨h.mpr hne, hcarry⟩⟩ ?_
    simp

end

/-! ## Division -/

structure Dividing (curInst S : BitVec 32) (p : Int) (c : Bool) (r : Registers) : Prop where
  source : r (divSource curInst) = S
  inRange : (r.readAcc (destreg curInst)).InRange
  value : (r.readAcc (destreg curInst)).val.toInt = p
  carry : (r regSr).getLsbD srC = c

theorem divSource_cases (curInst : BitVec 32) : divSource curInst = regX0 ∨ divSource curInst = regY0
    ∨ divSource curInst = regX1 ∨ divSource curInst = regY1 := by
  simp only [divSource]
  split_ifs <;> simp

theorem signExtend24_val {S} (hS : S.toNat < 2 ^ 23) : (signExtend24 S 0).InRange ∧
    (signExtend24 S 0).val.toInt = S.toNat * 2 ^ 24 ∧ S.getLsbD 23 = false := by
  have hsign : S.getLsbD 23 = false := by rw [getLsbD_eq_decide, decide_eq_false_iff_not]; omega
  have heq : signExtend24 S 0 = ⟨0, S, 0⟩ := by rw [signExtend24, if_neg (by rw [hsign]; decide)]
  have hr : Acc.InRange ⟨0, S, 0⟩ := ⟨Nat.two_pow_pos 8, hS.trans (by decide), Nat.two_pow_pos 24⟩
  have hnat : Acc.toNat ⟨0, S, 0⟩ = S.toNat * 2 ^ 24 := by simp [Acc.toNat]
  rw [heq]
  refine ⟨hr, ?_, hsign⟩
  rw [hr.toInt_val, hnat, if_neg (by omega)]
  norm_num

theorem toInt_ofInt_of_fits {z} (h : Fits56 z) : (BitVec.ofInt 56 z).toInt = z := by
  unfold Fits56 at h
  rw [toInt_ofInt, Int.bmod_eq_of_le (by omega) (by omega)]

theorem nonRestore_val {e} (hs : s.InRange) (hd : d.InRange) (hsign : s.w1.getLsbD 23 = false)
    (hfit : Fits56 (nonRestore s.val.toInt d.val.toInt))
    (he : e = if d.w0.getLsbD 7 ^^ s.w1.getLsbD 23 then (add56 s (asl56 d).2).2 else (sub56 s (asl56 d).2).2) :
    e.InRange ∧ e.val.toInt = nonRestore s.val.toInt d.val.toInt := by
  have ha := asl56_computes hd
  have hint := hd.toInt_val
  have hlt := hd.toNat_lt
  rw [hsign, Bool.xor_false, hd.sign] at he
  by_cases hneg : 2 ^ 55 ≤ d.toNat
  · rw [decide_eq_true hneg, if_pos rfl] at he
    rw [if_pos hneg] at hint
    rw [nonRestore, if_neg (by omega)] at hfit ⊢
    refine he ▸ ⟨(add56_toNat hs ha.inRange).1, ?_⟩
    rw [add56_val hs ha.inRange, ha.val, ← ofInt_toInt (x := s.val), ← ofInt_add,
      toInt_ofInt_of_fits hfit, ofInt_toInt]
  · rw [decide_eq_false hneg, if_neg (by decide)] at he
    rw [if_neg hneg] at hint
    rw [nonRestore, if_pos (by omega)] at hfit ⊢
    refine he ▸ ⟨(sub56_toNat hs ha.inRange).1, ?_⟩
    rw [sub56_val hs ha.inRange, ha.val, BitVec.sub_eq_add_neg, ← ofInt_toInt (x := s.val),
      ← ofInt_neg, ← ofInt_add, ← Int.sub_eq_add_neg, toInt_ofInt_of_fits hfit,
      ofInt_toInt]

theorem lowBit_val {b e} (hd : d.InRange) (heven : 2 ∣ d.val.toInt) (hb : b.toNat ≤ 1)
    (he : e = { d with w2 := d.w2 ||| b }) : e.InRange ∧ e.val.toInt = d.val.toInt + b.toNat := by
  have h2 := hd.w2
  have hlt := hd.toNat_lt
  have hint := hd.toInt_val
  have hfree : d.w2.toNat % 2 = 0 := by
    have hnat : d.toNat % 2 = 0 := by
      split at hint <;> omega
    unfold Acc.toNat at hnat
    omega
  have hor : (d.w2 ||| b).toNat = d.w2.toNat + b.toNat := by
    have h := two_pow_add_eq_or_of_lt (show b.toNat < 2 ^ 1 by omega) (d.w2.toNat / 2)
    rw [toNat_or]
    rw [show 2 ^ 1 * (d.w2.toNat / 2) = d.w2.toNat by omega] at h; exact h.symm
  have hr : e.InRange := by rw [he]; exact ⟨hd.w0, hd.w1, hor.trans_lt (by omega)⟩
  have hnat : e.toNat = d.toNat + b.toNat := by rw [he]; simp only [Acc.toNat, hor]; omega
  refine ⟨hr, ?_⟩
  rw [hr.toInt_val, hint, hnat]
  split <;> split <;> omega

structure Stepped (curInst : BitVec 32) (r : Registers) (d : Acc) (r' : Registers) : Prop where
  source : r' (divSource curInst) = r (divSource curInst)
  acc : r'.readAcc (destreg curInst) = d
  carry : (r' regSr).getLsbD srC = !d.w0.getLsbD 7

variable (curInst r) in
theorem div_stepped {e} (he : e = if (r.readAcc (destreg curInst)).w0.getLsbD 7
        ^^ (signExtend24 (r (divSource curInst)) 0).w1.getLsbD 23
      then (add56 (signExtend24 (r (divSource curInst)) 0) (asl56 (r.readAcc (destreg curInst))).2).2
      else (sub56 (signExtend24 (r (divSource curInst)) 0) (asl56 (r.readAcc (destreg curInst))).2).2)
    (hd : d = { e with w2 := e.w2 ||| (r regSr >>> srC &&& 1) }) : Stepped curInst r d (div curInst r) := by
  have hn := destreg_cases curInst
  simp only [div, ← he, ← hd]
  refine ⟨?_, ?_, ?_⟩
  · rcases divSource_cases curInst with h | h | h | h <;> rcases hn with hn | hn <;> rw [h, hn] <;> rfl
  · rw [readAcc_setSr hn, readAcc_setSr hn, readAcc_setSr hn, readAcc_clearSr hn, readAcc_writeAcc hn]
  · have hbit : ((1#32 - (e.w0 >>> 7 &&& 1)) <<< srC).getLsbD srC = !e.w0.getLsbD 7 := by
      have h := getLsbD_eq_decide e.w0 7
      have hone := toNat_and_one (e.w0 >>> 7)
      rw [toNat_ushiftRight, shiftRight_eq_div_pow] at hone
      rw [getLsbD_eq_decide, h, ← decide_not, decide_eq_decide, srC, BitVec.shiftLeft_zero, toNat_sub,
        toNat_ofNat, hone]
      omega
    have hcleared : (bitmask 16 - (1#32 <<< srC ||| 1#32 <<< srV)).getLsbD srC = false := rfl
    have hL : (1#32 <<< srL).getLsbD srC = false := rfl
    have hV : (1#32 <<< srV).getLsbD srC = false := rfl
    rw [setSr_sr, setSr_sr, setSr_sr, clearSr_sr, hbit, hcleared, getLsbD_and, getLsbD_and, hL, hV,
      hd]
    simp only [Bool.and_false, Bool.false_or, Bool.or_false]

theorem div_step {S} {p m : Int} {c : Bool} (hS : S.toNat < 2 ^ 23) (hm : m = S.toNat * 2 ^ 24)
    (h : Dividing curInst S p c r) (hfit : Fits56 (nonRestore m p)) :
    Dividing curInst S (nonRestore m p + c.toNat) (decide (0 ≤ nonRestore m p + c.toNat)) (div curInst r) := by
  obtain ⟨hsource, hsval, hsign⟩ := signExtend24_val hS
  rw [← hm] at hsval
  have hcarry : (r regSr >>> srC &&& 1).toNat = c.toNat := by
    rw [← h.carry, getLsbD_eq_decide, toNat_and_one, toNat_ushiftRight, shiftRight_eq_div_pow]
    rcases mod_two_eq_zero_or_one ((r regSr).toNat / 2 ^ srC) with hb | hb <;> simp [hb]
  have hstep := div_stepped r curInst rfl rfl
  rw [h.source] at hstep
  obtain ⟨hr, hval⟩ := nonRestore_val hsource h.inRange hsign (by rwa [hsval, h.value]) rfl
  rw [hsval, h.value] at hval
  have heven : 2 ∣ nonRestore m p := by
    have hm2 : (2 : Int) ∣ m := by rw [hm]; exact Dvd.dvd.mul_left (by decide) _
    exact dvd_nonRestore (n := 0) (one_dvd p) hm2
  obtain ⟨hr', hval'⟩ := lowBit_val hr (hval ▸ heven) (hcarry.trans_le (Bool.toNat_le c)) rfl
  rw [hval, hcarry] at hval'
  refine ⟨hstep.source.trans h.source, ?_, ?_, ?_⟩
  · rw [hstep.acc]; exact hr'
  · rw [hstep.acc]; exact hval'
  · rw [hstep.carry, ← hval', Bool.eq_iff_iff, Bool.not_eq_true', decide_eq_true_iff]
    exact hr'.nonneg_iff.symm

/-- After `k` steps the accumulator holds a remainder with the quotient in its free end, and the carry the
next bit of the quotient. -/
structure DividedRun (curInst S : BitVec 32) (m d : Int) (k : Nat) (r : Registers) : Prop where
  exists_parts : ∃ t q, Divided m d k t q ∧ (2 : Int) ^ k ∣ t ∧ 0 ≤ q ∧ q < 2 ^ k ∧
    Dividing curInst S (t + q) (decide (0 ≤ t)) r

section

variable {S : BitVec 32} {m p : Int} {k : Nat}

theorem fits56_of_abs_le {t} (hS : S.toNat < 2 ^ 23) (hm : m = S.toNat * 2 ^ 24) (hlower : -m ≤ t)
    (hupper : t < m) : Fits56 t := by
  unfold Fits56
  omega

theorem dividedRun_first (hS : S.toNat < 2 ^ 23) (hm : m = S.toNat * 2 ^ 24) (hp : 0 ≤ p) (hpm : p < m)
    (h : Dividing curInst S p false r) : DividedRun curInst S m p 1 (div curInst r) := by
  have hdiv := Divided.first hp hpm
  have hstep := div_step hS hm h (fits56_of_abs_le hS hm hdiv.lower hdiv.upper)
  have hdvd : (2 : Int) ^ 1 ∣ nonRestore m p := by
    refine dvd_nonRestore (n := 0) (one_dvd p) ?_
    rw [hm]; exact Dvd.dvd.mul_left (by decide) _
  refine ⟨nonRestore m p, 0, hdiv, hdvd, le_rfl, by norm_num, ?_⟩
  simpa using hstep

theorem DividedRun.step (hS : S.toNat < 2 ^ 23) (hm : m = S.toNat * 2 ^ 24) (hk : k < 24)
    (h : DividedRun curInst S m p k r) : DividedRun curInst S m p (k + 1) (div curInst r) := by
  obtain ⟨t, q, hdiv, hdvd, hq, hqk, hd⟩ := h.exists_parts
  have hnext := hdiv.step
  have hlower := hnext.lower
  have hupper := hnext.upper
  have hpow : (2 : Int) ^ k < 2 ^ 24 := pow_lt_pow_right₀ (by decide) hk
  have hadd := nonRestore_add (m := m) (add_nonneg_iff_of_dvd hdvd hq hqk)
  have hfit : Fits56 (nonRestore m (t + q)) := by rw [hadd, Fits56]; omega
  have hstep := div_step hS hm hd hfit
  rw [hadd, add_assoc, ← quotientBit_eq] at hstep
  obtain ⟨hb, hb'⟩ := quotientBit_bounds (t := t) hq hqk
  have hdvd' : (2 : Int) ^ (k + 1) ∣ nonRestore m t := by
    refine dvd_nonRestore hdvd ?_
    rw [hm]; exact Dvd.dvd.mul_left (pow_dvd_pow 2 (by omega)) _
  refine ⟨nonRestore m t, quotientBit t q, hnext, hdvd', hb, hb', ?_⟩
  rwa [decide_eq_decide.mpr (add_nonneg_iff_of_dvd hdvd' hb hb')] at hstep

theorem dividedRun_iterate (hS : S.toNat < 2 ^ 23) (hm : m = S.toNat * 2 ^ 24) (hp : 0 ≤ p) (hpm : p < m)
    (h : Dividing curInst S p false r) (hk : k < 24) :
    DividedRun curInst S m p (k + 1) ((div curInst)^[k + 1] r) := by
  induction k with
  | zero => exact dividedRun_first hS hm hp hpm h
  | succ k ih => rw [iterate_succ_apply']; exact (ih (by omega)).step hS hm hk

theorem DividedRun.quotient (h : DividedRun curInst S m p 24 r) :
    ((r.readAcc (destreg curInst)).w2.toNat : Int) = 2 ^ 24 * p / (2 * m) := by
  obtain ⟨t, q, hdiv, ⟨c, hc⟩, hq, hqk, hd⟩ := h.exists_parts
  have hr := hd.inRange
  have h2 := hr.w2
  have hint := hr.toInt_val
  rw [← hdiv.quotient]
  rw [hd.value, Acc.toNat] at hint
  split at hint <;> omega

end

end Aranym.Dsp
