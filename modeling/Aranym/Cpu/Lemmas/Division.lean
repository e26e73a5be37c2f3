import Aranym.Cpu.Handlers
import Aranym.Lib.Bits
import Aranym.Lib.Division

/-!
# The results of the divisions

The handlers divide first and test afterwards whether the quotient fits.
-/

namespace Aranym.Cpu

open Aranym.Lib Aranym.Mmu Option Nat Int

variable {h d : Nat} {signed : Bool}

structure Settles (signed : Bool) (a b : BitVec h) (result : Option (BitVec d × BitVec d)) : Prop where
  isSome : result.isSome = true ↔ Representable signed d (quotient signed a b)
  division : ∀ q r, result = some (q, r) →
    Division (reading signed a) (reading signed b) (reading signed q) (reading signed r)

/-! ## Tests -/

theorem high_bits_iff {n m} (hm : m = BitVec.allOnes (h + 1) <<< n) (hn : n ≤ h)
    (x : BitVec (h + 1)) : ¬ (x &&& m ≠ 0 ∧ x &&& m ≠ m) ↔ -2 ^ n ≤ x.toInt ∧ x.toInt < 2 ^ n := by
  have hlt := x.isLt
  have hle : 2 ^ n ≤ 2 ^ h := Nat.pow_le_pow_right (by decide) hn
  have hcast : ((2 ^ n : Nat) : Int) = 2 ^ n := by norm_cast
  rw [hm, not_and_or, not_not, not_not, and_high_eq_zero_iff, and_high_eq_self_iff x (by omega),
    BitVec.toInt_eq_toNat_cond]
  split <;> omega

theorem ite_neg_eq {w} {p : Prop} [Decidable p] {x : BitVec w} (hp : p → x = 0) :
    (if p then -x else x) = x := by
  split
  · next h => rw [hp h]; exact BitVec.neg_zero w
  · rfl

section

variable {x y m : BitVec 32}

theorem mask_word {i} : (0xffff : BitVec 32).getLsbD i = decide (i < 16) := by
  rw [show (0xffff : BitVec 32) = (BitVec.allOnes 16).setWidth 32 from rfl, BitVec.getLsbD_setWidth,
    BitVec.getLsbD_allOnes, ← Bool.decide_and, decide_eq_decide]
  omega

theorem extract_low (hm : ∀ i, m.getLsbD i = decide (i < 16)) :
    ((x &&& m) ||| (y <<< 16)).extractLsb' 0 16 = x.setWidth 16 := by
  refine BitVec.eq_of_getLsbD_eq fun i hi => ?_
  simp [hm, hi]

theorem extract_high (hm : ∀ i, m.getLsbD i = decide (i < 16)) :
    ((x &&& m) ||| (y <<< 16)).extractLsb' 16 16 = y.setWidth 16 := by
  refine BitVec.eq_of_getLsbD_eq fun i hi => ?_
  have hlt : 16 + i < 32 := by omega
  rw [BitVec.getLsbD_extractLsb', BitVec.getLsbD_or, BitVec.getLsbD_and, hm, BitVec.getLsbD_shiftLeft,
    BitVec.getLsbD_setWidth]
  simp [hi, hlt]

end

/-! ## Unsigned divisions -/

theorem unsigned_division {a b : BitVec h} (hb : b ≠ 0) {q r : BitVec d} (hq : q.toNat = a.toNat / b.toNat)
    (hr : r.toNat = a.toNat % b.toNat) :
    Division (reading false a) (reading false b) (reading false q) (reading false r) := by
  have hb' : (b.toNat : Int) ≠ 0 := by intro h0; exact hb (BitVec.eq_of_toNat_eq (by simpa using h0))
  have hdiv := division_tdiv (a.toNat : Int) hb'
  rw [← ofNat_tdiv, ← ofNat_tmod, ← hq, ← hr] at hdiv
  exact hdiv

theorem unsigned_representable_iff {a b : BitVec h} :
    Representable false d (quotient false a b) ↔ a.toNat / b.toNat < 2 ^ d := by
  rw [quotient, reading_false, reading_false, ← ofNat_tdiv, representable_unsigned]
  norm_cast
  simp

theorem toNat_low_word (src : BitVec 32) : (low .word src).toNat < 2 ^ 16 := by
  rw [low, BitVec.toNat_and]
  exact Nat.lt_of_le_of_lt and_le_right (by decide)

theorem settles_unsigned {a b : BitVec h} {result : Option (BitVec d × BitVec d)} (hb : b ≠ 0)
    (hle : b.toNat ≤ 2 ^ d)
    (hsome : a.toNat / b.toNat < 2 ^ d → result = some ((a / b).setWidth d, (a % b).setWidth d))
    (hnone : ¬ a.toNat / b.toNat < 2 ^ d → result = none) : Settles false a b result := by
  have hpos : 0 < b.toNat := Nat.pos_of_ne_zero fun h0 => hb (BitVec.eq_of_toNat_eq h0)
  by_cases hfit : a.toNat / b.toNat < 2 ^ d
  · refine ⟨iff_of_true (by rw [hsome hfit]; rfl) (unsigned_representable_iff.mpr hfit), fun q r hqr => ?_⟩
    rw [hsome hfit, Option.some.injEq, Prod.mk.injEq] at hqr
    have hmod := mod_lt a.toNat hpos
    refine unsigned_division hb ?_ ?_
    · rw [← hqr.1, BitVec.toNat_setWidth, BitVec.toNat_udiv, mod_eq_of_lt hfit]
    · rw [← hqr.2, BitVec.toNat_setWidth, BitVec.toNat_umod, mod_eq_of_lt (hmod.trans_le hle)]
  · refine ⟨iff_of_false (by simp [hnone hfit]) (mt unsigned_representable_iff.mp hfit), fun q r hqr => ?_⟩
    rw [hnone hfit] at hqr; cases hqr

theorem ult_quotient_iff {a b m : BitVec h} (hm : m.toNat + 1 = 2 ^ d) :
    m.ult (a / b) = true ↔ ¬ a.toNat / b.toNat < 2 ^ d := by
  rw [BitVec.ult, decide_eq_true_iff, BitVec.toNat_udiv]
  omega

theorem divu_settles {src dst : BitVec 32} (hsrc : low .word src ≠ 0) :
    Settles (d := 16) false dst (low .word src)
      ((divuResult src dst).map fun v => (v.extractLsb' 0 16, v.extractLsb' 16 16)) := by
  have htest := ult_quotient_iff (d := 16) (a := dst) (b := low .word src) (m := 0xffff) rfl
  refine settles_unsigned hsrc (toNat_low_word src).le (fun hfit => ?_) fun hfit => ?_
  · simp only [divuResult, if_neg (mt htest.mp (not_not.mpr hfit)), map_some]
    rw [extract_low (m := Nat.cast 0xffff) fun _ => mask_word, extract_high (m := Nat.cast 0xffff) fun _ => mask_word]
  · simp only [divuResult, if_pos (htest.mpr hfit), map_none]

/-! ## Signed divisions -/

section

variable {n : Nat} {a b : BitVec (h + 1)}

theorem toInt_setWidth_of_fits {x : BitVec (h + 1)} (hn : n ≤ h) (hlo : -2 ^ n ≤ x.toInt) (hhi : x.toInt < 2 ^ n) :
    (x.setWidth (n + 1)).toInt = x.toInt := by
  have hpow : ((2 ^ (n + 1) : Nat) : Int) = 2 * 2 ^ n := by push_cast; ring
  rw [← BitVec.signExtend_eq_setWidth_of_le x (by omega), BitVec.toInt_signExtend_eq_toInt_bmod_of_le x (by omega),
    bmod_eq_of_le] <;> omega

theorem signed_representable_iff (hn : n < h) : Representable true (n + 1) (quotient true a b)
    ↔ -2 ^ n ≤ (a.sdiv b).toInt ∧ (a.sdiv b).toInt < 2 ^ n := by
  have hle := abs_tdiv_le a.toInt b.toInt
  have ha := a.le_toInt
  have ha' := a.toInt_lt
  have hpow : ((2 ^ (h + 1) : Nat) : Int) = 2 * 2 ^ h := by push_cast; ring
  have hnh : (2 : Int) ^ n < 2 ^ h := by exact_mod_cast Nat.pow_lt_pow_right (by decide) hn
  rw [Nat.add_sub_cancel] at ha ha'
  rw [representable_signed, quotient, reading_true, reading_true, BitVec.toInt_sdiv]
  have hbounds : -2 ^ h ≤ a.toInt.tdiv b.toInt ∧ a.toInt.tdiv b.toInt ≤ 2 ^ h := by
    rw [abs_le] at hle
    have habs : |a.toInt| ≤ 2 ^ h := abs_le.mpr ⟨by omega, by omega⟩; omega
  rcases eq_or_ne (a.toInt.tdiv b.toInt) (2 ^ h) with heq | hne
  · rw [heq, bmod_def]
    have hmod : (2 : Int) ^ h % ((2 ^ (h + 1) : Nat) : Int) = 2 ^ h := emod_eq_of_lt (by omega) (by omega)
    rw [hmod]
    split <;> omega
  · rw [bmod_eq_of_le (by omega) (by omega)]

theorem abs_tmod_le (hb : b ≠ 0) (hlo : -2 ^ n ≤ b.toInt) (hhi : b.toInt < 2 ^ n) :
    -2 ^ n < (a.srem b).toInt ∧ (a.srem b).toInt < 2 ^ n := by
  have hb' : b.toInt ≠ 0 := fun h0 => hb (BitVec.toInt_inj.mp (by simpa using h0))
  have hlt := (division_tdiv a.toInt hb').lt
  have habs : |b.toInt| ≤ 2 ^ n := abs_le.mpr ⟨hlo, hhi.le⟩
  rw [BitVec.toInt_srem]
  exact abs_lt.mp (hlt.trans_le habs)

theorem srem_sign (hn : n ≤ h) (hb : b ≠ 0) (hlo : -2 ^ n ≤ b.toInt) (hhi : b.toInt < 2 ^ n)
    (hmsb : (((a.srem b).setWidth (n + 1)).msb != a.msb) = true) : a.srem b = 0 := by
  obtain ⟨hrlo, hrhi⟩ := abs_tmod_le (a := a) hb hlo hhi
  have hb' : b.toInt ≠ 0 := fun h0 => hb (BitVec.toInt_inj.mp (by simpa using h0))
  have hr := toInt_setWidth_of_fits hn hrlo.le hrhi
  rw [bne_iff_ne, BitVec.msb_eq_toInt, BitVec.msb_eq_toInt, hr, ne_eq, decide_eq_decide] at hmsb
  rcases (division_tdiv a.toInt hb').sign with h0 | hsign
  · rw [← BitVec.toInt_srem] at h0; exact BitVec.toInt_inj.mp (by simpa using h0)
  · rw [← BitVec.toInt_srem] at hsign
    exact absurd (by rw [← sign_eq_neg_one_iff_neg, hsign, sign_eq_neg_one_iff_neg]) hmsb

theorem signed_division (hn : n < h) (hb : b ≠ 0) (hlo : -2 ^ n ≤ b.toInt) (hhi : b.toInt < 2 ^ n)
    (hfit : -2 ^ n ≤ (a.sdiv b).toInt ∧ (a.sdiv b).toInt < 2 ^ n) :
    Division (reading true a) (reading true b) (reading true ((a.sdiv b).setWidth (n + 1)))
      (reading true ((a.srem b).setWidth (n + 1))) := by
  obtain ⟨hrlo, hrhi⟩ := abs_tmod_le (a := a) hb hlo hhi
  have hb' : b.toInt ≠ 0 := fun h0 => hb (BitVec.toInt_inj.mp (by simpa using h0))
  have hdiv := division_tdiv a.toInt hb'
  have hnh : (2 : Int) ^ n < 2 ^ h := by exact_mod_cast Nat.pow_lt_pow_right (by decide) hn
  have hne : a ≠ BitVec.intMin (h + 1) ∨ b ≠ -1#(h + 1) := by
    have hrep := (signed_representable_iff hn).mpr hfit
    rw [representable_signed] at hrep
    have hhost : Representable true (h + 1) (quotient true a b) := representable_signed.mpr ⟨by omega, by omega⟩
    have hnot := representable_quotient_iff.mp hhost
    by_contra hcon
    rw [not_or, not_not, not_not] at hcon; exact hnot ⟨rfl, hcon⟩
  rw [← BitVec.toInt_srem, ← BitVec.toInt_sdiv_of_ne_or_ne a b hne] at hdiv
  simp only [reading_true]
  rwa [toInt_setWidth_of_fits hn.le hfit.1 hfit.2, toInt_setWidth_of_fits hn.le hrlo.le hrhi]

end

theorem signed_word_bounds (src : BitVec 32) :
    -2 ^ 15 ≤ (Cpu.signed .word src).toInt ∧ (Cpu.signed .word src).toInt < 2 ^ 15 := by
  have hint : (Cpu.signed .word src).toInt = (src.setWidth 16).toInt := BitVec.toInt_signExtend_of_le (by decide)
  rw [hint]
  exact ⟨BitVec.le_toInt _, BitVec.toInt_lt⟩

theorem divsResult_of_fits {src dst} (hsrc : Cpu.signed .word src ≠ 0)
    (hfit : ¬ (dst.sdiv (Cpu.signed .word src) &&& 0xffff8000 ≠ 0
      ∧ dst.sdiv (Cpu.signed .word src) &&& 0xffff8000 ≠ 0xffff8000)) :
    (divsResult src dst).map (fun v => (v.extractLsb' 0 16, v.extractLsb' 16 16))
      = some ((dst.sdiv (Cpu.signed .word src)).setWidth 16, (dst.srem (Cpu.signed .word src)).setWidth 16) := by
  obtain ⟨hlo, hhi⟩ := signed_word_bounds src
  have hrem : (if ((dst.srem (Cpu.signed .word src)).setWidth 16).msb != dst.msb
        then -(dst.srem (Cpu.signed .word src)).setWidth 16 else (dst.srem (Cpu.signed .word src)).setWidth 16)
      = (dst.srem (Cpu.signed .word src)).setWidth 16 := by
    refine ite_neg_eq fun hmsb => ?_
    rw [srem_sign (n := 15) (h := 31) (by decide) hsrc hlo hhi hmsb]; rfl
  simp only [divsResult, if_neg hfit, hrem, map_some]
  rw [extract_low (m := Nat.cast 0xffff) fun _ => mask_word, extract_high (m := Nat.cast 0xffff) fun _ => mask_word,
    BitVec.setWidth_setWidth_of_le _ (by decide), BitVec.setWidth_eq]

theorem settles_of_fits {n} {a b : BitVec (h + 1)} {result : Option (BitVec (n + 1) × BitVec (n + 1))}
    (hn : n < h) (hb : b ≠ 0) (hlo : -2 ^ n ≤ b.toInt) (hhi : b.toInt < 2 ^ n)
    (hsome : -2 ^ n ≤ (a.sdiv b).toInt ∧ (a.sdiv b).toInt < 2 ^ n →
      result = some ((a.sdiv b).setWidth (n + 1), (a.srem b).setWidth (n + 1)))
    (hnone : ¬ (-2 ^ n ≤ (a.sdiv b).toInt ∧ (a.sdiv b).toInt < 2 ^ n) → result = none) :
    Settles true a b result := by
  by_cases hfit : -2 ^ n ≤ (a.sdiv b).toInt ∧ (a.sdiv b).toInt < 2 ^ n
  · refine ⟨iff_of_true (by rw [hsome hfit]; rfl) ((signed_representable_iff hn).mpr hfit), fun q r hqr => ?_⟩
    rw [hsome hfit, Option.some.injEq, Prod.mk.injEq] at hqr
    rw [← hqr.1, ← hqr.2]; exact signed_division hn hb hlo hhi hfit
  · refine ⟨iff_of_false (by simp [hnone hfit]) (mt (signed_representable_iff hn).mp hfit), fun q r hqr => ?_⟩
    rw [hnone hfit] at hqr; cases hqr

theorem divs_settles {src dst} (hsrc : Cpu.signed .word src ≠ 0) :
    Settles (d := 16) true dst (Cpu.signed .word src)
      ((divsResult src dst).map fun v => (v.extractLsb' 0 16, v.extractLsb' 16 16)) := by
  obtain ⟨hlo, hhi⟩ := signed_word_bounds src
  have htest := high_bits_iff (n := 15) (h := 31) (m := 0xffff8000) rfl (by decide) (dst.sdiv (Cpu.signed .word src))
  refine settles_of_fits (n := 15) (h := 31) (by decide) hsrc hlo hhi
    (fun hfit => divsResult_of_fits hsrc (htest.mpr hfit)) fun hfit => ?_
  rw [divsResult, if_pos (not_not.mp (mt htest.mp hfit))]
  rfl

/-! ## Long divisions -/

/-- The divisor of `m68k_divl`, sign-extended for the signed form. -/
def divlDivisor (extra : BitVec 16) (src : BitVec 32) : BitVec 64 :=
  if extra.getLsbD 11 then src.signExtend 64 else src.setWidth 64

section

variable {extra : BitVec 16} {src dq dr : BitVec 32}

theorem divl_settles_unsigned (hu : extra.getLsbD 11 = false) (hsrc : src ≠ 0) :
    Settles false (divlDividend extra dq dr) (src.setWidth 64) (divlResult extra src dq dr) := by
  have hnat : (src.setWidth 64).toNat = src.toNat := BitVec.toNat_setWidth_of_le (by decide)
  have hne : src.setWidth 64 ≠ 0 := fun h0 => hsrc (BitVec.eq_of_toNat_eq (by rw [← hnat, h0]; rfl))
  have htest := ult_quotient_iff (d := 32) (a := divlDividend extra dq dr) (b := src.setWidth 64) (m := 0xffffffff) rfl
  simp only [divlResult, hu, Bool.false_eq_true, if_false]
  refine settles_unsigned hne (hnat ▸ src.isLt.le) (fun hfit => ?_) fun hfit => ?_
  · rw [if_neg (mt htest.mp (not_not.mpr hfit))]
  · rw [if_pos (htest.mpr hfit)]

theorem divl_settles_signed (hs : extra.getLsbD 11 = true) (hsrc : src ≠ 0) :
    Settles true (divlDividend extra dq dr) (src.signExtend 64) (divlResult extra src dq dr) := by
  have hint : (src.signExtend 64).toInt = src.toInt := BitVec.toInt_signExtend_of_le (by decide)
  have hne : src.signExtend 64 ≠ 0 := fun h0 => hsrc (BitVec.toInt_inj.mp (by rw [← hint, h0]; rfl))
  have hlo : -2 ^ 31 ≤ (src.signExtend 64).toInt := hint ▸ BitVec.le_toInt src
  have hhi : (src.signExtend 64).toInt < 2 ^ 31 := hint ▸ BitVec.toInt_lt
  have htest := high_bits_iff (n := 31) (h := 63) (m := 0xffffffff80000000) rfl (by decide)
    ((divlDividend extra dq dr).sdiv (src.signExtend 64))
  simp only [divlResult, hs, if_true]
  refine settles_of_fits (n := 31) (h := 63) (by decide) hne hlo hhi (fun hfit => ?_) fun hfit => ?_
  · rw [if_neg (htest.mpr hfit),
      ite_neg_eq fun hmsb => srem_sign (n := 31) (h := 63) (by decide) hne hlo hhi hmsb]
  · rw [if_pos (not_not.mp (mt htest.mp hfit))]

theorem divl_settles (hsrc : src ≠ 0) :
    Settles (extra.getLsbD 11) (divlDividend extra dq dr) (divlDivisor extra src) (divlResult extra src dq dr) := by
  cases hs : extra.getLsbD 11 with
  | false => simp only [divlDivisor, hs, Bool.false_eq_true, if_false]; exact divl_settles_unsigned hs hsrc
  | true => simp only [divlDivisor, hs, if_true]; exact divl_settles_signed hs hsrc

end

end Aranym.Cpu
