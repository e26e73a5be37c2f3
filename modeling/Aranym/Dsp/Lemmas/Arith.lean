import Aranym.Dsp.Arith
import Mathlib.Tactic.Ring

/-!
# The value of an accumulator

Three words in range stand for a 56-bit number.
-/

namespace Aranym.Dsp

open Nat

/-! ## Words -/

theorem toNat_bitmask {n} (hn : n < 32) : (bitmask n).toNat = 2 ^ n - 1 := by
  have hpow : 2 ^ n < 2 ^ 32 := Nat.pow_lt_pow_right (by decide) hn
  have hpos := Nat.two_pow_pos n
  rw [bitmask, BitVec.toNat_sub, BitVec.toNat_shiftLeft, BitVec.toNat_ofNat, shiftLeft_eq,
    one_mod_eq_one.mpr (by decide), Nat.one_mul, mod_eq_of_lt hpow]
  omega

@[simp] theorem toNat_and_bitmask (x : BitVec 32) {n} (hn : n < 32) :
    (x &&& bitmask n).toNat = x.toNat % 2 ^ n := by
  rw [BitVec.toNat_and, toNat_bitmask hn, and_two_pow_sub_one_eq_mod]

@[simp] theorem toNat_and_one (x : BitVec 32) : (x &&& 1).toNat = x.toNat % 2 := by
  rw [BitVec.toNat_and]
  exact and_one_is_mod _

theorem toNat_and_bitmask_lt (x : BitVec 32) {n} (hn : n < 32) : (x &&& bitmask n).toNat < 2 ^ n := by
  rw [toNat_and_bitmask x hn]
  exact mod_lt _ (Nat.two_pow_pos n)

theorem toNat_not_and_bitmask {x n} (hn : n < 32) (hx : x.toNat < 2 ^ n) :
    (~~~x &&& bitmask n).toNat = 2 ^ n - 1 - x.toNat := by
  have hpow : 2 ^ 32 = 2 ^ (32 - n) * 2 ^ n := by rw [← Nat.pow_add, Nat.sub_add_cancel (by omega)]
  rw [toNat_and_bitmask _ hn, BitVec.toNat_not]
  have hsplit : 2 ^ 32 - 1 - x.toNat = (2 ^ n - 1 - x.toNat) + 2 ^ n * (2 ^ (32 - n) - 1) := by
    rw [Nat.mul_sub, Nat.mul_comm (2 ^ n) (2 ^ (32 - n)), ← hpow, Nat.mul_one]
    have : 2 ^ n ≤ 2 ^ 32 := Nat.pow_le_pow_right (by decide) (by omega); omega
  rw [hsplit, add_mul_mod_self_left, mod_eq_of_lt (by omega)]

theorem getLsbD_eq_decide (x : BitVec 32) (i : Nat) : x.getLsbD i = decide (x.toNat / 2 ^ i % 2 = 1) :=
  testBit_eq_decide_div_mod_eq

theorem toNat_shiftLeft_or {x y : BitVec 32} {k : Nat} (hk : k ≤ 32) (hy : y.toNat < 2 ^ k) :
    (x <<< k ||| y).toNat = x.toNat % 2 ^ (32 - k) * 2 ^ k + y.toNat := by
  have hpow : 2 ^ 32 = 2 ^ (32 - k) * 2 ^ k := by rw [← Nat.pow_add, Nat.sub_add_cancel hk]
  rw [BitVec.toNat_or, BitVec.toNat_shiftLeft, shiftLeft_eq, hpow, mul_mod_mul_right,
    Nat.mul_comm (_ % _), two_pow_add_eq_or_of_lt hy]

/-! ## Accumulators -/

/-- The words of an accumulator keep to their 8, 24 and 24 bits. -/
structure Acc.InRange (a : Acc) : Prop where
  w0 : a.w0.toNat < 2 ^ 8
  w1 : a.w1.toNat < 2 ^ 24
  w2 : a.w2.toNat < 2 ^ 24

def Acc.toNat (a : Acc) : Nat := a.w0.toNat * 2 ^ 48 + a.w1.toNat * 2 ^ 24 + a.w2.toNat

/-- The 56-bit value of an accumulator. -/
def Acc.val (a : Acc) : BitVec 56 := BitVec.ofNat 56 a.toNat

def Fits56 (z : Int) : Prop := -2 ^ 55 ≤ z ∧ z < 2 ^ 55

instance decidableFits56 (z : Int) : Decidable (Fits56 z) := inferInstanceAs (Decidable (_ ∧ _))

/-- The operation gives `z` modulo `2 ^ 56`, with overflow and carry set accordingly. -/
structure Computes (r : BitVec 16 × Acc) (z : Int) (carry : Bool) : Prop where
  inRange : r.2.InRange
  val : r.2.val = BitVec.ofInt 56 z
  overflow : r.1.getLsbD srV = true ↔ ¬ Fits56 z
  carry : r.1.getLsbD srC = carry

variable {s d : Acc}

theorem inRange_masked (x y z : BitVec 32) : Acc.InRange ⟨x &&& bitmask 8, y &&& bitmask 24, z &&& bitmask 24⟩ :=
  ⟨toNat_and_bitmask_lt _ (by decide), toNat_and_bitmask_lt _ (by decide), toNat_and_bitmask_lt _ (by decide)⟩

theorem Acc.InRange.toNat_lt (h : d.InRange) : d.toNat < 2 ^ 56 := by
  have ⟨h0, h1, h2⟩ := h
  unfold Acc.toNat
  omega

theorem Acc.InRange.toNat_val (h : d.InRange) : d.val.toNat = d.toNat := by
  rw [Acc.val, BitVec.toNat_ofNat, mod_eq_of_lt h.toNat_lt]

theorem Acc.InRange.sign (h : d.InRange) : d.w0.getLsbD 7 = decide (2 ^ 55 ≤ d.toNat) := by
  have ⟨h0, h1, h2⟩ := h
  rw [getLsbD_eq_decide, decide_eq_decide, Acc.toNat]
  omega

theorem Acc.InRange.toInt_val (h : d.InRange) :
    d.val.toInt = if 2 ^ 55 ≤ d.toNat then (d.toNat : Int) - 2 ^ 56 else (d.toNat : Int) := by
  have hlt := h.toNat_lt
  rw [BitVec.toInt_eq_toNat_cond, h.toNat_val]
  split <;> split <;> omega

theorem Acc.InRange.nonneg_iff (h : d.InRange) : 0 ≤ d.val.toInt ↔ d.w0.getLsbD 7 = false := by
  have hlt := h.toNat_lt
  rw [h.toInt_val, h.sign, decide_eq_false_iff_not]
  split <;> omega

theorem less_iff (hs : s.InRange) (hd : d.InRange) : d.less s = true ↔ d.toNat < s.toNat := by
  have hs1 := hs.w1
  have hs2 := hs.w2
  have hd1 := hd.w1
  have hd2 := hd.w2
  simp only [Acc.less, Acc.toNat, BitVec.lt_def, ← BitVec.toNat_inj]
  split
  · simp only [true_iff]; omega
  · split
    · split
      · simp only [true_iff]; omega
      · split
        · rw [decide_eq_true_iff]; omega
        · simp only [Bool.false_eq_true, false_iff]; omega
    · simp only [Bool.false_eq_true, false_iff]; omega

@[simp] theorem newsr_v (overflow carry : Bool) : (newsr overflow carry).getLsbD srV = overflow := by
  cases overflow <;> cases carry <;> rfl

@[simp] theorem newsr_c (overflow carry : Bool) : (newsr overflow carry).getLsbD srC = carry := by
  cases overflow <;> cases carry <;> rfl

/-! ## Addition and subtraction -/

section

variable {a b c : BitVec 32}

theorem toNat_addColumn (ha : a.toNat < 2 ^ 24) (hb : b.toNat < 2 ^ 24) (hc : c.toNat ≤ 1) :
    ((a + (b + c)) >>> 24 &&& 1).toNat ≤ 1 ∧
      ((a + (b + c)) &&& bitmask 24).toNat + ((a + (b + c)) >>> 24 &&& 1).toNat * 2 ^ 24
        = a.toNat + b.toNat + c.toNat := by
  rw [toNat_and_bitmask _ (by decide), toNat_and_one, BitVec.toNat_ushiftRight, shiftRight_eq_div_pow,
    BitVec.toNat_add, BitVec.toNat_add]
  omega

theorem toNat_subColumn (ha : a.toNat < 2 ^ 24) (hb : b.toNat < 2 ^ 24) (hc : c.toNat ≤ 1) :
    ((a - (b + c)) >>> 24 &&& 1).toNat ≤ 1 ∧ ((a - (b + c)) &&& bitmask 24).toNat + b.toNat + c.toNat
        = a.toNat + ((a - (b + c)) >>> 24 &&& 1).toNat * 2 ^ 24 := by
  have hsum : (b + c).toNat = b.toNat + c.toNat := by rw [BitVec.toNat_add]; omega
  rw [toNat_and_bitmask _ (by decide), toNat_and_one, BitVec.toNat_ushiftRight, shiftRight_eq_div_pow,
    BitVec.toNat_sub, hsum]
  omega

end

theorem add56_toNat (hs : s.InRange) (hd : d.InRange) :
    (add56 s d).2.InRange ∧ (add56 s d).2.toNat = (d.toNat + s.toNat) % 2 ^ 56 := by
  have hs0 := hs.w0
  obtain ⟨hc2, h2⟩ := toNat_addColumn (c := 0#32) hd.w2 hs.w2 (by decide)
  rw [BitVec.add_zero] at hc2 h2
  rw [BitVec.toNat_ofNat] at h2
  obtain ⟨hc1, h1⟩ := toNat_addColumn hd.w1 hs.w1 hc2
  have h0 := toNat_and_bitmask
    (d.w0 + (s.w0 + ((d.w1 + (s.w1 + ((d.w2 + s.w2) >>> 24 &&& 1))) >>> 24 &&& 1))) (n := 8) (by decide)
  rw [BitVec.toNat_add, BitVec.toNat_add] at h0
  have hr : (add56 s d).2.InRange := inRange_masked ..
  have hr1 := hr.w1
  have hr2 := hr.w2
  refine ⟨hr, ?_⟩
  simp only [add56, Acc.toNat] at hr1 hr2 ⊢
  omega

theorem sub56_toNat (hs : s.InRange) (hd : d.InRange) :
    (sub56 s d).2.InRange ∧ (sub56 s d).2.toNat = (d.toNat + (2 ^ 56 - s.toNat)) % 2 ^ 56 := by
  have ⟨hs0, hs1, hs2⟩ := hs
  obtain ⟨hc2, h2⟩ := toNat_subColumn (c := 0#32) hd.w2 hs.w2 (by decide)
  rw [BitVec.add_zero] at hc2 h2
  rw [BitVec.toNat_ofNat] at h2
  obtain ⟨hc1, h1⟩ := toNat_subColumn hd.w1 hs.w1 hc2
  have h0 := toNat_and_bitmask
    (d.w0 - (s.w0 + ((d.w1 - (s.w1 + ((d.w2 - s.w2) >>> 24 &&& 1))) >>> 24 &&& 1))) (n := 8) (by decide)
  rw [BitVec.toNat_sub, BitVec.toNat_add] at h0
  have hr : (sub56 s d).2.InRange := inRange_masked ..
  have hr1 := hr.w1
  have hr2 := hr.w2
  refine ⟨hr, ?_⟩
  simp only [sub56, Acc.toNat] at hr1 hr2 ⊢
  omega

theorem add56_val (hs : s.InRange) (hd : d.InRange) : (add56 s d).2.val = d.val + s.val := by
  obtain ⟨hr, hsum⟩ := add56_toNat hs hd
  apply BitVec.eq_of_toNat_eq
  rw [hr.toNat_val, BitVec.toNat_add, hd.toNat_val, hs.toNat_val, hsum]

theorem sub56_val (hs : s.InRange) (hd : d.InRange) : (sub56 s d).2.val = d.val - s.val := by
  obtain ⟨hr, hdiff⟩ := sub56_toNat hs hd
  apply BitVec.eq_of_toNat_eq
  rw [hr.toNat_val, BitVec.toNat_sub, hd.toNat_val, hs.toNat_val, hdiff, Nat.add_comm]

theorem add56_overflow (hs : s.InRange) (hd : d.InRange) :
    (add56 s d).1.getLsbD srV = true ↔ ¬ Fits56 (d.val.toInt + s.val.toInt) := by
  obtain ⟨hr, hsum⟩ := add56_toNat hs hd
  have hslt := hs.toNat_lt
  have hdlt := hd.toNat_lt
  have hflag : (add56 s d).1.getLsbD srV = ((s.w0.getLsbD 7 ^^ (add56 s d).2.w0.getLsbD 7)
      && (d.w0.getLsbD 7 ^^ (add56 s d).2.w0.getLsbD 7)) := newsr_v _ _
  rw [hflag, hs.sign, hd.sign, hr.sign, hsum, hs.toInt_val, hd.toInt_val, Fits56]
  simp only [Bool.and_eq_true, Bool.xor_iff_ne, ne_eq, decide_eq_decide]
  split <;> split <;> omega

theorem add56_carry (hs : s.InRange) (hd : d.InRange) :
    (add56 s d).1.getLsbD srC = decide (2 ^ 56 ≤ d.val.toNat + s.val.toNat) := by
  have ⟨h0, h1, h2⟩ := hd
  have hn : Acc.InRange ⟨~~~d.w0 &&& bitmask 8, ~~~d.w1 &&& bitmask 24, ~~~d.w2 &&& bitmask 24⟩ := inRange_masked ..
  have hflag : (add56 s d).1.getLsbD srC = Acc.less
      ⟨~~~d.w0 &&& bitmask 8, ~~~d.w1 &&& bitmask 24, ~~~d.w2 &&& bitmask 24⟩ s := newsr_c _ _
  rw [hflag, Bool.eq_iff_iff, less_iff hs hn, decide_eq_true_iff, hd.toNat_val, hs.toNat_val]
  simp only [Acc.toNat, toNat_not_and_bitmask (n := 24) (by decide) h1,
    toNat_not_and_bitmask (n := 24) (by decide) h2, toNat_not_and_bitmask (n := 8) (by decide) h0]
  omega

theorem add56_computes (hs : s.InRange) (hd : d.InRange) :
    Computes (add56 s d) (d.val.toInt + s.val.toInt) (decide (2 ^ 56 ≤ d.val.toNat + s.val.toNat)) where
  inRange := (add56_toNat hs hd).1
  val := by rw [add56_val hs hd, BitVec.ofInt_add, BitVec.ofInt_toInt, BitVec.ofInt_toInt]
  overflow := add56_overflow hs hd
  carry := add56_carry hs hd

theorem sub56_overflow (hs : s.InRange) (hd : d.InRange) :
    (sub56 s d).1.getLsbD srV = true ↔ ¬ Fits56 (d.val.toInt - s.val.toInt) := by
  obtain ⟨hr, hdiff⟩ := sub56_toNat hs hd
  have hslt := hs.toNat_lt
  have hdlt := hd.toNat_lt
  have hflag : (sub56 s d).1.getLsbD srV = ((s.w0.getLsbD 7 ^^ d.w0.getLsbD 7)
      && ((sub56 s d).2.w0.getLsbD 7 ^^ d.w0.getLsbD 7)) := newsr_v _ _
  rw [hflag, hs.sign, hd.sign, hr.sign, hdiff, hs.toInt_val, hd.toInt_val, Fits56]
  simp only [Bool.and_eq_true, Bool.xor_iff_ne, ne_eq, decide_eq_decide]
  split <;> split <;> omega

theorem sub56_carry (hs : s.InRange) (hd : d.InRange) :
    (sub56 s d).1.getLsbD srC = decide (d.val.toNat < s.val.toNat) := by
  have hflag : (sub56 s d).1.getLsbD srC = d.less s := newsr_c _ _
  rw [hflag, Bool.eq_iff_iff, less_iff hs hd, decide_eq_true_iff, hd.toNat_val, hs.toNat_val]

theorem sub56_computes (hs : s.InRange) (hd : d.InRange) :
    Computes (sub56 s d) (d.val.toInt - s.val.toInt) (decide (d.val.toNat < s.val.toNat)) where
  inRange := (sub56_toNat hs hd).1
  val := by
    rw [sub56_val hs hd, Int.sub_eq_add_neg, BitVec.ofInt_add, BitVec.ofInt_neg, BitVec.ofInt_toInt,
      BitVec.ofInt_toInt, BitVec.sub_eq_add_neg]
  overflow := sub56_overflow hs hd
  carry := sub56_carry hs hd

/-! ## Shifts -/

theorem asl56_toNat (hd : d.InRange) : (asl56 d).2.InRange ∧ (asl56 d).2.toNat = 2 * d.toNat % 2 ^ 56 := by
  have ⟨h0, h1, h2⟩ := hd
  have hr : (asl56 d).2.InRange := inRange_masked ..
  have hbit : ∀ x : BitVec 32, (x >>> 23 &&& 1).toNat = x.toNat / 2 ^ 23 % 2 := by
    intro x
    rw [toNat_and_one, BitVec.toNat_ushiftRight, shiftRight_eq_div_pow]
  have hlt : ∀ x : BitVec 32, (x >>> 23 &&& 1).toNat < 2 ^ 1 := by intro x; rw [hbit]; omega
  refine ⟨hr, ?_⟩
  simp only [asl56, Acc.toNat, toNat_and_bitmask _ (show 8 < 32 by decide),
    toNat_and_bitmask _ (show 24 < 32 by decide), toNat_shiftLeft_or (by decide) (hlt _), hbit,
    BitVec.toNat_shiftLeft, shiftLeft_eq]
  omega

theorem asl56_computes (hd : d.InRange) : Computes (asl56 d) (2 * d.val.toInt) (d.val.getLsbD 55) := by
  obtain ⟨hr, hdouble⟩ := asl56_toNat hd
  have hlt := hd.toNat_lt
  have hv : (asl56 d).1.getLsbD srV = (d.w0.getLsbD 7 != (asl56 d).2.w0.getLsbD 7) := newsr_v _ _
  have hc : (asl56 d).1.getLsbD srC = d.w0.getLsbD 7 := newsr_c _ _
  refine ⟨hr, ?_, ?_, ?_⟩
  · apply BitVec.eq_of_toNat_eq
    rw [hr.toNat_val, hdouble, BitVec.toNat_ofInt, hd.toInt_val]
    split <;> omega
  · rw [hv, hd.sign, hr.sign, hdouble, hd.toInt_val, Fits56]
    simp only [bne_iff_ne, ne_eq, decide_eq_decide]
    split <;> omega
  · rw [hc, hd.sign, BitVec.getLsbD, hd.toNat_val, testBit_eq_decide_div_mod_eq, decide_eq_decide]; omega

theorem toNat_signExtend_seven {x} (hx : x.toNat < 2 ^ 7) :
    (x ||| (x &&& 1#32 <<< 6) <<< 1).toNat = x.toNat + x.toNat / 2 ^ 6 * 2 ^ 7 := by
  have hbit : x.toNat / 2 ^ 6 = if x.getLsbD 6 then 1 else 0 := by
    rw [getLsbD_eq_decide]
    split <;> simp_all <;> omega
  rw [show 1#32 <<< 6 = BitVec.twoPow 32 6 from rfl, BitVec.and_twoPow, hbit]
  cases x.getLsbD 6 with
  | false => simp
  | true =>
    rw [BitVec.or_comm, BitVec.toNat_or]
    have := two_pow_add_eq_or_of_lt hx 1; simpa [Nat.add_comm] using this.symm

theorem asr56_toNat (hd : d.InRange) : (asr56 d).2.InRange ∧
    (asr56 d).2.toNat = d.toNat / 2 + (if 2 ^ 55 ≤ d.toNat then 2 ^ 55 else 0) := by
  have ⟨h0, h1, h2⟩ := hd
  have hw : ∀ x y : BitVec 32, ((x >>> 1 &&& bitmask 23) ||| (y &&& 1) <<< 23).toNat
      = y.toNat % 2 * 2 ^ 23 + x.toNat / 2 % 2 ^ 23 := by
    intro x y
    rw [BitVec.or_comm, toNat_shiftLeft_or (by decide) (toNat_and_bitmask_lt _ (by decide)),
      toNat_and_bitmask _ (by decide), toNat_and_one, BitVec.toNat_ushiftRight, shiftRight_eq_div_pow]
    omega
  have hx : (d.w0 >>> 1 &&& bitmask 7).toNat = d.w0.toNat / 2 := by
    rw [toNat_and_bitmask _ (by decide), BitVec.toNat_ushiftRight, shiftRight_eq_div_pow]; omega
  have hw0 := toNat_signExtend_seven (x := d.w0 >>> 1 &&& bitmask 7) (by omega)
  rw [hx] at hw0
  refine ⟨⟨hw0.trans_lt (by omega), (hw _ _).trans_lt (by omega), (hw _ _).trans_lt (by omega)⟩, ?_⟩
  by_cases h : 2 ^ 55 ≤ d.toNat
  · rw [if_pos h]; simp only [asr56, Acc.toNat, hw0, hw] at h ⊢; omega
  · rw [if_neg h]; simp only [asr56, Acc.toNat, hw0, hw] at h ⊢; omega

theorem asr56_computes (hd : d.InRange) : Computes (asr56 d) (d.val.toInt / 2) (d.val.getLsbD 0) := by
  obtain ⟨hr, hhalf⟩ := asr56_toNat hd
  have hlt := hd.toNat_lt
  refine ⟨hr, ?_, ?_, ?_⟩
  · apply BitVec.eq_of_toNat_eq
    rw [hr.toNat_val, hhalf, BitVec.toNat_ofInt, hd.toInt_val]
    split <;> omega
  · have hv : (asr56 d).1.getLsbD srV = false := by simp only [asr56]; cases d.w2.getLsbD 0 <;> rfl
    rw [hv, hd.toInt_val, Fits56]
    simp only [Bool.false_eq_true, false_iff, not_not]
    split <;> omega
  · have hc : (asr56 d).1.getLsbD srC = d.w2.getLsbD 0 := by simp only [asr56]; cases d.w2.getLsbD 0 <;> rfl
    rw [hc, getLsbD_eq_decide, BitVec.getLsbD, hd.toNat_val, testBit_eq_decide_div_mod_eq,
      decide_eq_decide, Acc.toNat]
    omega

/-! ## The absolute value -/

theorem Acc.InRange.zero : Acc.zero.InRange := ⟨by decide, by decide, by decide⟩

theorem Acc.val_zero : Acc.zero.val = 0 := rfl

theorem negate_val (hd : d.InRange) : (sub56 d .zero).2.InRange ∧ (sub56 d .zero).2.val = -d.val := by
  refine ⟨(sub56_toNat hd .zero).1, ?_⟩
  rw [sub56_val hd .zero, Acc.val_zero]
  exact BitVec.zero_sub _

theorem abs56_val (hd : d.InRange) :
    (abs56 d).2.InRange ∧ (abs56 d).2.val = BitVec.ofInt 56 |d.val.toInt| := by
  have hlt := hd.toNat_lt
  have hint := hd.toInt_val
  unfold abs56
  rw [hd.sign]
  by_cases h : 2 ^ 55 ≤ d.toNat
  · rw [if_pos h] at hint
    simp only [h, decide_true, if_true]
    obtain ⟨hr, hneg⟩ := negate_val hd
    refine ⟨hr, ?_⟩
    rw [hneg, abs_of_nonpos (by omega), BitVec.ofInt_neg, BitVec.ofInt_toInt]
  · rw [if_neg h] at hint
    simp only [h, decide_false, Bool.false_eq_true, if_false]
    refine ⟨hd, ?_⟩
    rw [abs_of_nonneg (by omega), BitVec.ofInt_toInt]

/-! ## Products -/

theorem toNat_carryOut (w : BitVec 32) : (w >>> 24 &&& bitmask 8).toNat = w.toNat / 2 ^ 24 := by
  have := w.isLt
  rw [toNat_and_bitmask _ (by decide), BitVec.toNat_ushiftRight, shiftRight_eq_div_pow]
  omega

theorem and_bitmask_of_carryOut {w : BitVec 32} (h : w >>> 24 &&& bitmask 8 = 0) : w &&& bitmask 24 = w := by
  have hcarry := toNat_carryOut w
  rw [h] at hcarry
  apply BitVec.eq_of_toNat_eq
  rw [toNat_and_bitmask _ (by decide)]
  exact mod_eq_of_lt ((div_eq_zero_iff_lt (by decide)).mp hcarry.symm)

theorem addCarries_eq (w1 w2 : BitVec 32) {v : BitVec 32} (hv : v = w2 >>> 24 &&& bitmask 8) :
    addCarries w1 w2 = ⟨(w1 + v) >>> 24 &&& bitmask 8, (w1 + v) &&& bitmask 24, w2 &&& bitmask 24⟩ := by
  have h2 : (if v ≠ 0 then (w1 + v, w2 &&& bitmask 24) else (w1, w2)) = (w1 + v, w2 &&& bitmask 24) := by
    split
    · rfl
    · next h =>
      rw [not_not] at h
      rw [and_bitmask_of_carryOut (hv ▸ h), h]; exact congrArg (·, w2) (BitVec.add_zero w1).symm
  unfold addCarries
  simp only [← hv, h2]
  split
  · rfl
  · next h => rw [not_not] at h; rw [and_bitmask_of_carryOut h, h]

theorem addCarries_toNat {w1} (w2 : BitVec 32) (hw1 : w1.toNat < 2 ^ 31) :
    (addCarries w1 w2).InRange ∧ (addCarries w1 w2).toNat = w1.toNat * 2 ^ 24 + w2.toNat := by
  have hlt := w2.isLt
  have hv := toNat_carryOut w2
  rw [addCarries_eq w1 w2 rfl]
  refine ⟨inRange_masked .., ?_⟩
  simp only [Acc.toNat, toNat_carryOut, toNat_and_bitmask _ (show 24 < 32 by decide), BitVec.toNat_add, hv]
  omega

section

variable {x y : BitVec 32}

theorem toNat_mul_part (hx : x.toNat < 2 ^ 12) (hy : y.toNat < 2 ^ 12) :
    (x * y).toNat = x.toNat * y.toNat ∧ (x * y).toNat < 2 ^ 24 := by
  have hlt : x.toNat * y.toNat < 2 ^ 12 * 2 ^ 12 := Nat.mul_lt_mul'' hx hy
  rw [BitVec.toNat_mul, mod_eq_of_lt (by omega)]
  exact ⟨rfl, hlt⟩

theorem sumParts_toNat {p0 p1 p2 p3 : BitVec 32} (h0 : p0.toNat < 2 ^ 24) (h1 : p1.toNat < 2 ^ 24)
    (h2 : p2.toNat < 2 ^ 24) (h3 : p3.toNat < 2 ^ 24) {r : Acc}
    (hr : r = addCarries ((p1 >>> 12 &&& bitmask 12) + (p2 >>> 12 &&& bitmask 12) + p3)
      (p0 + (p1 &&& bitmask 12) <<< 12 + (p2 &&& bitmask 12) <<< 12)) :
    r.InRange ∧ r.toNat = p3.toNat * 2 ^ 24 + (p1.toNat + p2.toNat) * 2 ^ 12 + p0.toNat := by
  have hw1 : ((p1 >>> 12 &&& bitmask 12) + (p2 >>> 12 &&& bitmask 12) + p3).toNat
      = p1.toNat / 2 ^ 12 + p2.toNat / 2 ^ 12 + p3.toNat := by
    simp only [BitVec.toNat_add, BitVec.toNat_ushiftRight, shiftRight_eq_div_pow,
      toNat_and_bitmask _ (show 12 < 32 by decide)]
    omega
  have hw2 : (p0 + (p1 &&& bitmask 12) <<< 12 + (p2 &&& bitmask 12) <<< 12).toNat
      = p0.toNat + p1.toNat % 2 ^ 12 * 2 ^ 12 + p2.toNat % 2 ^ 12 * 2 ^ 12 := by
    simp only [BitVec.toNat_add, BitVec.toNat_shiftLeft, shiftLeft_eq,
      toNat_and_bitmask _ (show 12 < 32 by decide)]
    omega
  rw [hr]
  obtain ⟨hrange, hsum⟩ := addCarries_toNat
    (p0 + (p1 &&& bitmask 12) <<< 12 + (p2 &&& bitmask 12) <<< 12) (hw1.trans_lt (by omega))
  refine ⟨hrange, hsum.trans ?_⟩
  rw [hw1, hw2]
  omega

theorem mulParts_toNat (hx : x.toNat ≤ 2 ^ 23) (hy : y.toNat ≤ 2 ^ 23) :
    (mulParts x y).InRange ∧ (mulParts x y).toNat = x.toNat * y.toNat := by
  have hlow : ∀ z : BitVec 32, (z &&& bitmask 12).toNat < 2 ^ 12 := fun z => toNat_and_bitmask_lt z (by decide)
  have hhigh : ∀ z : BitVec 32, (z >>> 12 &&& bitmask 12).toNat < 2 ^ 12 := fun z =>
    toNat_and_bitmask_lt _ (by decide)
  have hsplit : ∀ z : BitVec 32, z.toNat ≤ 2 ^ 23 →
      z.toNat = (z >>> 12 &&& bitmask 12).toNat * 2 ^ 12 + (z &&& bitmask 12).toNat := by
    intro z hz
    rw [toNat_and_bitmask _ (by decide), BitVec.toNat_ushiftRight, shiftRight_eq_div_pow,
      toNat_and_bitmask z (by decide)]
    omega
  obtain ⟨he0, hb0⟩ := toNat_mul_part (hlow x) (hlow y)
  obtain ⟨he1, hb1⟩ := toNat_mul_part (hhigh x) (hlow y)
  obtain ⟨he2, hb2⟩ := toNat_mul_part (hlow x) (hhigh y)
  obtain ⟨he3, hb3⟩ := toNat_mul_part (hhigh x) (hhigh y)
  obtain ⟨hr, hsum⟩ := sumParts_toNat hb0 hb1 hb2 hb3 (r := mulParts x y) rfl
  refine ⟨hr, ?_⟩
  rw [hsum, he0, he1, he2, he3, hsplit x hx, hsplit y hy]
  ring

end

theorem toInt_magnitude (x : BitVec 24) : (magnitude (x.setWidth 32)).toNat ≤ 2 ^ 23 ∧
    x.toInt = if (x.setWidth 32).getLsbD 23 then -((magnitude (x.setWidth 32)).toNat : Int)
      else (magnitude (x.setWidth 32)).toNat := by
  have hx := x.isLt
  have hw : (x.setWidth 32).toNat = x.toNat := BitVec.toNat_setWidth_of_le (by decide)
  have hsign : (x.setWidth 32).getLsbD 23 = decide (2 ^ 23 ≤ x.toNat) := by
    rw [getLsbD_eq_decide, hw, decide_eq_decide]; omega
  have hint := BitVec.toInt_eq_toNat_cond x
  unfold magnitude
  by_cases h : 2 ^ 23 ≤ x.toNat
  · have hneg : (1#32 <<< 24 - (x.setWidth 32 &&& bitmask 24)).toNat = 2 ^ 24 - x.toNat := by
      rw [BitVec.toNat_sub, toNat_and_bitmask _ (by decide), hw]
      simp only [BitVec.toNat_shiftLeft, BitVec.toNat_ofNat]; omega
    simp only [hsign, h, decide_true, if_true, hneg]
    rw [if_neg (by omega)] at hint; omega
  · simp only [hsign, h, decide_false, Bool.false_eq_true, if_false, hw]
    rw [if_pos (by omega)] at hint; omega

end Aranym.Dsp
