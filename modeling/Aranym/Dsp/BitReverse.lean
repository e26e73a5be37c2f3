import Aranym.Dsp.Memory
import Aranym.Lib.Bits

/-!
# Bit-reversed addressing

The update adds one to the reversal of the low bits, of which there are as many as up to the first set bit of `Nn`.
-/

namespace Aranym.Dsp

open Aranym.Lib BitVec List Function Nat Bool

/-! ## The loops -/

theorem firstBit_spec (value : BitVec 32) (fuel i : Nat) :
    firstBit value fuel i ≤ i + fuel ∧ (firstBit value fuel i < i + fuel → value.getLsbD (firstBit value fuel i) = true) ∧
      ∀ j, i ≤ j → j < firstBit value fuel i → value.getLsbD j = false := by
  induction fuel generalizing i with
  | zero =>
    rw [firstBit]
    exact ⟨le_refl _, fun h => absurd h (by omega), fun j h1 h2 => absurd h2 (by omega)⟩
  | succ fuel ih =>
    obtain ⟨hle, hbit, hclear⟩ := ih (i + 1)
    rw [firstBit]
    by_cases hi : value.getLsbD i = true
    · rw [if_pos hi]; exact ⟨by omega, fun _ => hi, fun j h1 h2 => absurd h2 (by omega)⟩
    · rw [if_neg hi]
      refine ⟨by omega, fun h => hbit (by omega), fun j h1 h2 => ?_⟩
      rcases Nat.eq_or_lt_of_le h1 with rfl | hlt
      · exact eq_false_iff.mpr hi
      · exact hclear j hlt h2

theorem getLsbD_reverse_fold (x init : BitVec 32) {n} (hn : n ≤ 32) (m : Nat) (hm : m ≤ n) (i : Nat) :
    ((List.range m).foldl
      (fun value j => if x.getLsbD j then value ||| 1#32 <<< (n - j - 1) else value) init).getLsbD i
      = (init.getLsbD i || decide (i < n ∧ n - 1 - i < m) && x.getLsbD (n - 1 - i)) := by
  induction m with
  | zero => simp
  | succ m ih =>
    have hbit : (1#32 <<< (n - m - 1)).getLsbD i = decide (n - m - 1 = i) := by
      rw [← twoPow_eq, getLsbD_twoPow]
      simp only [and_eq_right_iff_imp, decide_eq_true_eq]; omega
    rw [range_succ, foldl_append, foldl_cons, foldl_nil]
    have ih := ih (by omega)
    by_cases hi : n - m - 1 = i
    · have hm' : n - 1 - i = m := by omega
      have hin : i < n := by omega
      split
      · rename_i hx; rw [getLsbD_or, ih, hbit]; simp [hi, hm', hin, hx]
      · rename_i hx; rw [ih]; simp [hm', hin, eq_false_iff.mpr hx]
    · have hiff : (i < n ∧ n - 1 - i < m + 1) ↔ (i < n ∧ n - 1 - i < m) := by omega
      rw [decide_eq_decide.mpr hiff]
      split
      · rw [getLsbD_or, ih, hbit, decide_eq_false hi, Bool.or_false]
      · exact ih

theorem getLsbD_high_mask {n} (hn : n ≤ 16) (i : Nat) :
    (bitmask 16 - bitmask n).getLsbD i = decide (n ≤ i ∧ i < 16) := by
  have hall : ∀ n < 17, ∀ i < 32, (bitmask 16 - bitmask n).getLsbD i = decide (n ≤ i ∧ i < 16) := by decide
  by_cases hi : i < 32
  · exact hall n (by omega) i hi
  · rw [getLsbD_of_ge _ _ (by omega), eq_comm, decide_eq_false_iff_not]; omega

theorem getLsbD_bitmask {n} (hn : n ≤ 17) (i : Nat) : (bitmask n).getLsbD i = decide (i < n) := by
  have hall : ∀ n < 18, ∀ i < 32, (bitmask n).getLsbD i = decide (i < n) := by decide
  by_cases hi : i < 32
  · exact hall n (by omega) i hi
  · rw [getLsbD_of_ge _ _ (by omega), eq_comm, decide_eq_false_iff_not]; omega

theorem getLsbD_reverseLow {n} (hn : n ≤ 16) (x : BitVec 32) (i : Nat) :
    (reverseLow n x).getLsbD i = if i < n then x.getLsbD (n - 1 - i) else decide (i < 16) && x.getLsbD i := by
  rw [reverseLow, getLsbD_reverse_fold x _ (by omega) n (le_refl n), getLsbD_and, getLsbD_high_mask hn]
  by_cases hi : i < n
  · have hlt : n - 1 - i < n := by omega
    simp [hi, hlt, show ¬ n ≤ i by omega]
  · simp [hi, show n ≤ i by omega, Bool.and_comm]

/-! ## The update -/

theorem testBit_add_two_pow (y m i : Nat) :
    (y + 2 ^ m).testBit i = if i < m then y.testBit i else (y / 2 ^ m + 1).testBit (i - m) := by
  split
  · rename_i hi; rw [Nat.add_comm, testBit_two_pow_add_gt hi]
  · rename_i hi
    rw [← add_div_right y (Nat.two_pow_pos m), testBit_div_two_pow, Nat.sub_add_cancel (by omega)]

variable {k : Nat} {x : BitVec 32}

theorem toNat_reverseLow_mod (hk : k ≤ 15) : (reverseLow (k + 1) x).toNat % 2 ^ (k + 1)
    = (x.setWidth 16).reverse.toNat / 2 ^ (15 - k) := by
  apply eq_of_testBit_eq
  intro i
  rw [testBit_mod_two_pow, testBit_div_two_pow, testBit_toNat, testBit_toNat,
    getLsbD_reverseLow (by omega), getLsbD_reverse, getMsbD_eq_getLsbD, getLsbD_setWidth]
  by_cases hi : i < k + 1
  · have h16 : i + (15 - k) < 16 := by omega
    simp [hi, h16, show 16 - 1 - (i + (15 - k)) = k - i by omega, show k - i < 16 by omega]
  · simp [hi, show ¬ i + (15 - k) < 16 by omega]

theorem testBit_mod_add_one {a b n j} (h : a % 2 ^ n = b % 2 ^ n) (hj : j < n) :
    (a + 1).testBit j = (b + 1).testBit j := by
  have hmod : (a + 1) % 2 ^ n = (b + 1) % 2 ^ n := by rw [add_mod, h, ← add_mod]
  have := congrArg (·.testBit j) hmod
  simpa [testBit_mod_two_pow, hj] using this

def reverseStep (n : Nat) (x : BitVec 32) : BitVec 32 :=
  reverseLow n (x &&& (bitmask 16 - bitmask n) ||| ((reverseLow n x + 1) &&& bitmask n))

theorem getLsbD_add_twoPow (y : BitVec 16) {m j} (hm : m ≤ 15) (hj : j < 16) :
    (y + BitVec.twoPow 16 m).getLsbD j = if j < m then y.getLsbD j else (y.toNat / 2 ^ m + 1).testBit (j - m) := by
  rw [← testBit_toNat, toNat_add, toNat_twoPow_of_lt (by omega), testBit_mod_two_pow,
    testBit_add_two_pow, testBit_toNat]
  simp [hj]

theorem getLsbD_add_one (y : BitVec 32) {j} (hj : j < 32) : (y + 1).getLsbD j = (y.toNat + 1).testBit j := by
  rw [← testBit_toNat, toNat_add, testBit_mod_two_pow]
  simp [hj]

theorem reverseStep_eq (hk : k ≤ 15) :
    reverseStep (k + 1) x = ((x.setWidth 16).reverse + BitVec.twoPow 16 (15 - k)).reverse.setWidth 32 := by
  apply eq_of_getLsbD_eq
  intro i _
  rw [reverseStep, getLsbD_reverseLow (by omega), getLsbD_setWidth, getLsbD_reverse,
    getMsbD_eq_getLsbD]
  by_cases hi : i < 16
  · simp only [getLsbD_or, getLsbD_and, getLsbD_high_mask (show k + 1 ≤ 16 by omega),
      getLsbD_bitmask (show k + 1 ≤ 17 by omega), hi, decide_true, Bool.true_and, show i < 32 by omega]
    rw [getLsbD_add_twoPow _ (by omega) (by omega)]
    by_cases hik : i < k + 1
    · -- the carry runs through these bits
      have hmod := toNat_reverseLow_mod (x := x) hk
      have hlt : (x.setWidth 16).reverse.toNat / 2 ^ (15 - k) < 2 ^ (k + 1) := by
        rw [← hmod]; exact mod_lt _ (Nat.two_pow_pos _)
      rw [if_pos hik, if_neg (by omega), getLsbD_add_one _ (by omega),
        testBit_mod_add_one (hmod.trans (mod_eq_of_lt hlt).symm) (by omega)]
      simp [show ¬ k + 1 ≤ k - i by omega, show k - i < k + 1 by omega, show 15 - i - (15 - k) = k - i by omega]
    · rw [if_neg hik, if_pos (by omega), getLsbD_reverse, getMsbD_eq_getLsbD, getLsbD_setWidth]
      rw [decide_eq_true (⟨Nat.not_lt.mp hik, trivial⟩ : k + 1 ≤ i ∧ True), decide_eq_false hik]
      simp [hi, show 16 - 1 - (16 - 1 - i) = i by omega, show 15 - i < 16 by omega]
  · simp [hi, show ¬ i < k + 1 by omega]

theorem reverseStep_overflows (hx : x.toNat < 2 ^ 16) : (reverseStep 17 x).getLsbD 16 = true := by
  have hbit : (reverseLow 17 x).getLsbD 0 = false := by
    rw [reverseLow, getLsbD_reverse_fold x _ (by omega) 17 (le_refl 17), getLsbD_and]
    have h16 : x.getLsbD 16 = false := by rw [← testBit_toNat]; exact testBit_lt_two_pow hx
    rw [show 17 - 1 - 0 = 16 from rfl, h16, show (bitmask 16 - bitmask 17).getLsbD 0 = false by decide,
      Bool.and_false, Bool.and_false, Bool.or_false]
  have hset : ((reverseLow 17 x + 1) &&& bitmask 17).getLsbD 0 = true := by
    rw [getLsbD_and, getLsbD_add_one _ (by omega), testBit_zero]
    rw [← testBit_toNat, testBit_zero] at hbit
    have := decide_eq_false_iff_not.mp hbit
    simp [getLsbD_bitmask (show 17 ≤ 17 by omega), show ((reverseLow 17 x).toNat + 1) % 2 = 1 by omega]
  rw [reverseStep, reverseLow, getLsbD_reverse_fold _ _ (by omega) 17 (le_refl 17), show 17 - 1 - 16 = 0 from rfl,
    getLsbD_or (i := 0), hset, Bool.or_true, show decide (16 < 17 ∧ 0 < 17) = true by decide, Bool.and_self,
    Bool.or_true]

/-! ## The modes -/

/-- The updates of an address register that the modifier applies to. -/
inductive Update where
  | minusN
  | plusN
  | decrement
  | increment
  | predecrement
  deriving DecidableEq

namespace Update

def mode : Update → Nat
  | .minusN => 0
  | .plusN => 1
  | .decrement => 2
  | .increment => 3
  | .predecrement => 7

def eaMode (numreg : BitVec 3) (u : Update) : BitVec 6 := BitVec.ofNat 6 (8 * u.mode) + numreg.setWidth 6

/-- What an update adds to the address read backwards. -/
def reversedOffset (nn : BitVec 16) : Update → BitVec 16
  | .minusN => -nn.reverse
  | .plusN => nn.reverse
  | .decrement => -(1#16).reverse
  | .increment => (1#16).reverse
  | .predecrement => -(1#16).reverse

/-- The values of `Nn` for which the update of the first set bit is the right one. -/
def Exact (nn : BitVec 16) : Update → Prop
  | .minusN => nn = 1
  | .plusN => ∃ k < 16, nn = BitVec.twoPow 16 k
  | .decrement => nn.getLsbD 0 = true
  | .increment => nn.getLsbD 0 = true
  | .predecrement => nn.getLsbD 0 = true

end Update

def Core.rn (c : Core) (numreg : BitVec 3) : BitVec 16 := (c.registers (regR numreg)).setWidth 16

def Core.nn (c : Core) (numreg : BitVec 3) : BitVec 16 := (c.registers (regN numreg)).setWidth 16

/-- The core after the update of an address register. -/
def Core.updated (u : Update) (numreg : BitVec 3) (c : Core) : Core := (c.calcEa (u.eaMode numreg)).2.2

theorem reverse_twoPow {k} (hk : k ≤ 15) : (BitVec.twoPow 16 k).reverse = BitVec.twoPow 16 (15 - k) := by
  have hall : ∀ k < 16, (BitVec.twoPow 16 k).reverse = BitVec.twoPow 16 (15 - k) := by decide
  exact hall k (by omega)

theorem reverse_inj {x y : BitVec 16} (h : x.reverse = y.reverse) : x = y := by
  rw [← reverse_reverse_eq (x := x), h, reverse_reverse_eq]

theorem twoPow_getLsbD_iff {i k} (hk : k ≤ 15) : (BitVec.twoPow 16 i).getLsbD k = true ↔ i = k := by
  rw [getLsbD_twoPow, and_eq_true, decide_eq_true_eq, decide_eq_true_eq]
  omega

theorem setWidth_inj {x y : BitVec 16} (h : x.setWidth 32 = y.setWidth 32) : x = y := by
  simpa using congrArg (BitVec.setWidth 16) h

theorem exact_iff {nn : BitVec 16} (hk : k ≤ 15) (hbit : nn.getLsbD k = true) (hclear : ∀ j < k, nn.getLsbD j = false)
    (u : Update) : BitVec.twoPow 16 (15 - k) = u.reversedOffset nn ↔ u.Exact nn := by
  -- the lowest bit is set exactly if it is the first one
  have hodd : nn.getLsbD 0 = true ↔ k = 0 := by
    constructor
    · intro h; by_contra hne; rw [hclear 0 (by omega)] at h; cases h
    · rintro rfl; exact hbit
  have htop : BitVec.twoPow 16 (15 - k) = (1#16).reverse ↔ k = 0 := by
    rw [show (1#16).reverse = BitVec.twoPow 16 (15 - 0) by decide, ← reverse_twoPow hk, ← reverse_twoPow (Nat.zero_le 15)]
    constructor
    · intro h
      exact ((twoPow_getLsbD_iff (Nat.zero_le 15)).mp
        ((congrArg (·.getLsbD 0) (reverse_inj h)).trans ((twoPow_getLsbD_iff (Nat.zero_le 15)).mpr rfl)))
    · rintro rfl; rfl
  cases u with
  | minusN =>
    change BitVec.twoPow 16 (15 - k) = -nn.reverse ↔ nn = 1
    have hall : ∀ k < 16, (-BitVec.twoPow 16 (15 - k)).reverse.getLsbD 0 = true := by decide
    constructor
    · intro h
      have hnn : nn = (-BitVec.twoPow 16 (15 - k)).reverse := by rw [h, BitVec.neg_neg, reverse_reverse_eq]
      have hzero := hodd.mp (hnn ▸ hall k (by omega))
      rw [hnn, hzero]; decide
    · rintro rfl; rw [hodd.mp rfl]; decide
  | plusN =>
    change BitVec.twoPow 16 (15 - k) = nn.reverse ↔ ∃ k < 16, nn = BitVec.twoPow 16 k
    rw [← reverse_twoPow hk]
    constructor
    · intro h; exact ⟨k, by omega, (reverse_inj h).symm⟩
    · rintro ⟨i, -, rfl⟩; rw [(twoPow_getLsbD_iff hk).mp hbit]
  | decrement =>
    change BitVec.twoPow 16 (15 - k) = -(1#16).reverse ↔ nn.getLsbD 0 = true
    rw [show -(1#16).reverse = (1#16).reverse by decide, htop, hodd]
  | increment => change BitVec.twoPow 16 (15 - k) = (1#16).reverse ↔ nn.getLsbD 0 = true; rw [htop, hodd]
  | predecrement =>
    change BitVec.twoPow 16 (15 - k) = -(1#16).reverse ↔ nn.getLsbD 0 = true
    rw [show -(1#16).reverse = (1#16).reverse by decide, htop, hodd]

theorem not_exact_zero (u : Update) : ¬ u.Exact 0 := by
  cases u with
  | plusN =>
    rintro ⟨k, hk, h⟩
    have hbit := (twoPow_getLsbD_iff (i := k) (show k ≤ 15 by omega)).mpr rfl
    rw [← h] at hbit; simp at hbit
  | minusN => exact fun h : (0 : BitVec 16) = 1 => absurd h (by decide)
  | decrement => exact fun h : (0 : BitVec 16).getLsbD 0 = true => absurd h (by decide)
  | increment => exact fun h : (0 : BitVec 16).getLsbD 0 = true => absurd h (by decide)
  | predecrement => exact fun h : (0 : BitVec 16).getLsbD 0 = true => absurd h (by decide)

variable {c : Core} {numreg : BitVec 3}

section Modes

variable (hm : (c.registers (regM numreg)).setWidth 16 = 0#16)
include hm

theorem updateRn_bitreverse (modifier : BitVec 16) : updateRn numreg modifier c.registers
    = update c.registers (regR numreg)
        (reverseStep (revbits (c.registers (regN numreg))) (c.registers (regR numreg))) := by
  rw [updateRn]
  exact if_pos hm

theorem registers_updated (u : Update) : (c.updated u numreg).registers
    = update c.registers (regR numreg)
        (reverseStep (revbits (c.registers (regN numreg))) (c.registers (regR numreg))) := by
  have hmode : ∀ n : BitVec 3, (u.eaMode n).setWidth 3 = n ∧ (u.eaMode n >>> 3).toNat = u.mode := by
    cases u <;> decide
  obtain ⟨hnum, hval⟩ := hmode numreg
  rw [Core.updated, Core.calcEa, hnum, hval]
  cases u <;> exact updateRn_bitreverse hm _

variable (hr : (c.registers (regR numreg)).toNat < 2 ^ 16) (hn : (c.registers (regN numreg)).toNat < 2 ^ 16)

theorem updated_cases (u : Update) : (c.nn numreg = 0 ∧ (c.updated u numreg).registers (regR numreg)
        = reverseStep 17 (c.registers (regR numreg))) ∨
      ∃ k ≤ 15, (c.nn numreg).getLsbD k = true ∧ (∀ j < k, (c.nn numreg).getLsbD j = false) ∧
        (c.updated u numreg).registers (regR numreg)
          = ((c.rn numreg).reverse + BitVec.twoPow 16 (15 - k)).reverse.setWidth 32 := by
  obtain ⟨hle, hbit, hclear⟩ := firstBit_spec (c.registers (regN numreg)) 16 0
  rw [registers_updated hm, update_self, revbits]
  generalize firstBit (c.registers (regN numreg)) 16 0 = k at hle hbit hclear
  have hnn : ∀ j < 16, (c.nn numreg).getLsbD j = (c.registers (regN numreg)).getLsbD j := by
    intro j hj
    rw [Core.nn, getLsbD_setWidth]; simp [hj]
  by_cases hk : k = 16
  · left
    subst hk
    refine ⟨eq_of_getLsbD_eq fun j hj => ?_, rfl⟩
    rw [hnn j hj, hclear j (Nat.zero_le j) hj]; simp
  · right
    refine ⟨k, by omega, ?_, fun j hj => ?_, reverseStep_eq (by omega)⟩
    · rw [hnn k (by omega)]; exact hbit (by omega)
    · rw [hnn j (by omega)]; exact hclear j (Nat.zero_le j) hj

include hr in
theorem reverses_iff (u : Update) : (c.updated u numreg).registers (regR numreg)
      = ((c.rn numreg).reverse + u.reversedOffset (c.nn numreg)).reverse.setWidth 32 ↔ u.Exact (c.nn numreg) := by
  rcases updated_cases hm u with ⟨hzero, hstep⟩ | ⟨k, hk, hbit, hclear, hstep⟩
  · rw [hstep, hzero]
    refine iff_of_false (fun h => ?_) (not_exact_zero u)
    have hset := reverseStep_overflows hr
    rw [h, getLsbD_setWidth, getLsbD_of_ge _ 16 (le_refl 16)] at hset; cases hset
  · rw [hstep, ← exact_iff hk hbit hclear]
    constructor
    · intro h; exact (BitVec.add_right_inj _).mp (reverse_inj (setWidth_inj h))
    · intro h; rw [h]

theorem updated_plusN (hk : k ≤ 15) (hn : c.nn numreg = BitVec.twoPow 16 k) :
    (c.updated .plusN numreg).registers = update c.registers (regR numreg)
      (((c.rn numreg).reverse + BitVec.twoPow 16 (15 - k)).reverse.setWidth 32) := by
  rw [registers_updated hm]
  have hstep := registers_updated hm .plusN
  rcases updated_cases hm .plusN with ⟨hzero, -⟩ | ⟨i, hi, hbit, -, hreg⟩
  · have hbit := (twoPow_getLsbD_iff (i := k) hk).mpr rfl; rw [← hn, hzero] at hbit; simp at hbit
  · rw [hn] at hbit; rw [hstep, update_self, ← (twoPow_getLsbD_iff hi).mp hbit] at hreg; rw [hreg]

end Modes

/-! ## Orbits -/

theorem setWidth_reverse (hk : k ≤ 15) (z : BitVec 16) :
    z.reverse.setWidth (k + 1) = ((z >>> (15 - k)).setWidth (k + 1)).reverse := by
  apply eq_of_getLsbD_eq
  intro i hi
  rw [getLsbD_setWidth, getLsbD_reverse, getLsbD_reverse, getMsbD_eq_getLsbD,
    getMsbD_eq_getLsbD, getLsbD_setWidth, getLsbD_ushiftRight]
  simp [hi, show i < 16 by omega, show 15 - k + (k - i) = 15 - i by omega, show k - i < k + 1 by omega]

theorem high_add_mul (hk : k ≤ 15) (y : BitVec 16) (j : Nat) :
    ((y + BitVec.ofNat 16 j * BitVec.twoPow 16 (15 - k)) >>> (15 - k)).setWidth (k + 1)
      = (y >>> (15 - k)).setWidth (k + 1) + BitVec.ofNat (k + 1) j := by
  have hpow : 2 ^ 16 = 2 ^ (15 - k) * 2 ^ (k + 1) := by rw [← Nat.pow_add, show 15 - k + (k + 1) = 16 by omega]
  apply eq_of_toNat_eq
  rw [toNat_setWidth, toNat_ushiftRight, toNat_add, toNat_mul, toNat_ofNat,
    toNat_twoPow_of_lt (by omega), toNat_add, toNat_setWidth, toNat_ushiftRight,
    toNat_ofNat, ← add_mod, shiftRight_eq_div_pow, shiftRight_eq_div_pow, mod_mul_mod,
    add_mod_mod, hpow, mod_mul_right_div_self, mod_mod, add_mul_div_right _ _ (Nat.two_pow_pos _)]

section Orbit

variable (hm : (c.registers (regM numreg)).setWidth 16 = 0#16) (hr : (c.registers (regR numreg)).toNat < 2 ^ 16)
  (hk : k ≤ 15) (hn : c.nn numreg = BitVec.twoPow 16 k)
include hm hr hk hn

theorem registers_iterate (j : Nat) : ((Core.updated .plusN numreg)^[j] c).registers
    = update c.registers (regR numreg)
        (((c.rn numreg).reverse + BitVec.ofNat 16 j * BitVec.twoPow 16 (15 - k)).reverse.setWidth 32) := by
  induction j with
  | zero =>
    have hrn : (c.rn numreg).setWidth 32 = c.registers (regR numreg) := by
      apply eq_of_toNat_eq
      rw [Core.rn, toNat_setWidth, toNat_setWidth, mod_eq_of_lt hr, mod_eq_of_lt (by omega)]
    rw [iterate_zero, id_eq, show BitVec.ofNat 16 0 = 0#16 from rfl, BitVec.zero_mul, BitVec.add_zero,
      reverse_reverse_eq, hrn, update_eq_self]
  | succ j ih =>
    rw [iterate_succ_apply']
    generalize (Core.updated .plusN numreg)^[j] c = c' at ih
    have hm' : (c'.registers (regM numreg)).setWidth 16 = 0#16 := by
      rw [ih, update_of_ne (regM_ne_regR numreg), hm]
    have hn' : c'.nn numreg = BitVec.twoPow 16 k := by
      rw [Core.nn, ih, update_of_ne (regN_ne_regR numreg), ← hn, Core.nn]
    have hrn' : (c'.rn numreg).reverse = (c.rn numreg).reverse + BitVec.ofNat 16 j * BitVec.twoPow 16 (15 - k) := by
      rw [Core.rn, ih, update_self, setWidth_setWidth_of_le _ (by decide), setWidth_eq,
        reverse_reverse_eq]
    rw [updated_plusN hm' hk hn', ih, update_idem, hrn', BitVec.add_assoc]
    have hsucc : BitVec.ofNat 16 (j + 1) * BitVec.twoPow 16 (15 - k)
        = BitVec.ofNat 16 j * BitVec.twoPow 16 (15 - k) + BitVec.twoPow 16 (15 - k) := by
      rw [ofNat_add, BitVec.add_mul, BitVec.one_mul]
    rw [hsucc]

theorem visits_all : (∀ v : BitVec (k + 1), ∃! j, j < 2 ^ (k + 1) ∧
      (((Core.updated .plusN numreg)^[j] c).rn numreg).setWidth (k + 1) = v) ∧
    ((Core.updated .plusN numreg)^[2 ^ (k + 1)] c).registers (regR numreg) = c.registers (regR numreg) := by
  have hrn : ∀ j, ((Core.updated .plusN numreg)^[j] c).rn numreg
      = ((c.rn numreg).reverse + BitVec.ofNat 16 j * BitVec.twoPow 16 (15 - k)).reverse := by
    intro j
    rw [Core.rn, registers_iterate hm hr hk hn, update_self, setWidth_setWidth_of_le _ (by decide),
      setWidth_eq]
  refine ⟨fun v => ?_, ?_⟩
  · have hiff : ∀ j, (((Core.updated .plusN numreg)^[j] c).rn numreg).setWidth (k + 1) = v ↔
        BitVec.ofNat (k + 1) j = v.reverse - ((c.rn numreg).reverse >>> (15 - k)).setWidth (k + 1) := by
      intro j
      rw [hrn, setWidth_reverse hk, high_add_mul hk]
      constructor
      · intro h; rw [← h, reverse_reverse_eq, BitVec.add_comm, BitVec.add_sub_cancel]
      · intro h; rw [h, BitVec.add_comm, BitVec.sub_add_cancel, reverse_reverse_eq]
    generalize v.reverse - ((c.rn numreg).reverse >>> (15 - k)).setWidth (k + 1) = d at hiff
    refine ⟨d.toNat, ⟨d.isLt, (hiff _).mpr (by rw [BitVec.ofNat_toNat, setWidth_eq])⟩, fun j hj => ?_⟩
    have hd := congrArg BitVec.toNat ((hiff j).mp hj.2)
    rw [toNat_ofNat, mod_eq_of_lt hj.1] at hd; exact hd
  · have hround : BitVec.ofNat 16 (2 ^ (k + 1)) * BitVec.twoPow 16 (15 - k) = 0#16 := by
      apply eq_of_toNat_eq
      rw [toNat_mul, toNat_ofNat, toNat_twoPow_of_lt (by omega), mod_mul_mod, ← Nat.pow_add,
        show k + 1 + (15 - k) = 16 by omega]
      rfl
    have hzero := registers_iterate hm hr hk hn 0
    rw [show BitVec.ofNat 16 0 = 0#16 from rfl, BitVec.zero_mul, iterate_zero, id_eq] at hzero
    rw [registers_iterate hm hr hk hn, hround, ← hzero]

end Orbit

/-- Each of the modes is right exactly if the first set bit of `Nn` stands for its offset, and a power of two in `Nn`
makes `(Rn)+Nn` go through all values of the low bits. -/
theorem bitreverse_iff (c : Core) (numreg : BitVec 3) (hm : (c.registers (regM numreg)).setWidth 16 = 0#16)
    (hr : (c.registers (regR numreg)).toNat < 2 ^ 16) :
    (∀ u : Update, (c.updated u numreg).registers (regR numreg)
        = ((c.rn numreg).reverse + u.reversedOffset (c.nn numreg)).reverse.setWidth 32 ↔ u.Exact (c.nn numreg)) ∧
      ∀ k ≤ 15, c.nn numreg = BitVec.twoPow 16 k → (∀ v : BitVec (k + 1), ∃! j, j < 2 ^ (k + 1) ∧
          (((Core.updated .plusN numreg)^[j] c).rn numreg).setWidth (k + 1) = v) ∧
        ((Core.updated .plusN numreg)^[2 ^ (k + 1)] c).registers (regR numreg) = c.registers (regR numreg) :=
  ⟨reverses_iff hm hr, fun _ hk hn => visits_all hm hr hk hn⟩

def reversedAddress (rn nn : BitVec 32) : Core :=
  { Core.cleared with registers := update (update (fun _ => 0) (regR 0) rn) (regN 0) nn }

theorem bitreverse_four : ((reversedAddress 0x106 4).updated .plusN 0).registers (regR 0) = 0x101 :=
  (((bitreverse_iff (reversedAddress 0x106 4) 0 (by decide) (by decide)).1 .plusN).mpr
    ⟨2, by decide, by decide⟩).trans (by decide +kernel)

/-- `(R0)+` with `N0` even updates another bit than the highest, and with `N0` clear the register gets 17 bits. -/
theorem bitreverse_wrong : ((reversedAddress 0 2).updated .increment 0).registers (regR 0) = 2 ∧
      ((0#16).reverse + (1#16).reverse).reverse = 1 ∧
      ((reversedAddress 0 0).updated .plusN 0).registers (regR 0) = 0x10000 := by decide +kernel

end Aranym.Dsp
