import Aranym.Lib.Memory

/-!
# Memory as a stream of bits

The bits of a memory are counted from an address on, the most significant bit of each byte first. What words
and longs read and write is given by their bits.
-/

namespace Aranym.Lib.Memory

open BitVec

variable {w : Nat} (m : Memory w) (a : BitVec w)

def bit (k : Nat) : Bool := (m (a + BitVec.ofNat w (k / 8))).getLsbD (7 - k % 8)

/-- Bit `p` of memory from `a` on, most significant bit of each byte first. -/
def bitAt (p : Int) : Bool := (m (a + BitVec.ofInt w (p / 8))).getLsbD (7 - (p % 8).toNat)

theorem bitAt_add (x : BitVec w) (k : Nat) : m.bitAt a (8 * x.toInt + k) = m.bit (a + x) k := by
  have hdiv : (8 * x.toInt + k) / 8 = x.toInt + (k / 8 : Nat) := by omega
  have hmod : ((8 * x.toInt + k) % 8).toNat = k % 8 := by omega
  rw [bitAt, bit, hdiv, hmod, ofInt_add, ofInt_toInt, ofInt_natCast, BitVec.add_assoc]

theorem bit_add (d k : Nat) : m.bit (a + BitVec.ofNat w d) k = m.bit a (8 * d + k) := by
  rw [bit, bit, show (8 * d + k) / 8 = d + k / 8 by omega, show (8 * d + k) % 8 = k % 8 by omega, ofNat_add,
    BitVec.add_assoc]

theorem bit_wrap (k : Nat) : m.bit a (8 * 2 ^ w + k) = m.bit a k := by
  have hofNat : BitVec.ofNat w (2 ^ w + k / 8) = BitVec.ofNat w (k / 8) := eq_of_toNat_eq (by simp)
  rw [bit, bit, show (8 * 2 ^ w + k) / 8 = 2 ^ w + k / 8 by omega, show (8 * 2 ^ w + k) % 8 = k % 8 by omega, hofNat]

variable {m m' : Memory w} in
theorem eq_of_bit_eq (h : ∀ k < 8 * 2 ^ w, m.bit a k = m'.bit a k) : m = m' := by
  funext x
  refine eq_of_getLsbD_eq fun j hj => ?_
  have hx : a + BitVec.ofNat w (x - a).toNat = x := by
    rw [ofNat_toNat, setWidth_eq, BitVec.add_comm, BitVec.sub_add_cancel]
  have hk := h (8 * (x - a).toNat + (7 - j)) (by have := (x - a).isLt; omega)
  rw [← bit_add, ← bit_add, hx, bit, bit, show (7 - j) / 8 = 0 by omega, show 7 - (7 - j) % 8 = j by omega,
    BitVec.add_zero] at hk
  exact hk

/-! ## Reads -/

theorem getLsbD_byte {j} (hj : j < 8) : (m a).getLsbD j = m.bit a (7 - j) := by
  rw [bit, show (7 - j) / 8 = 0 by omega, show 7 - (7 - j) % 8 = j by omega, BitVec.add_zero]

theorem getLsbD_getWord {j} (hj : j < 16) : (m.getWord a).getLsbD j = m.bit a (15 - j) := by
  rw [getWord, getLsbD_append]
  split
  · next hlt => rw [getLsbD_byte _ _ hlt]; exact (m.bit_add a 1 _).trans (by congr 1; omega)
  · rw [getLsbD_byte _ _ (by omega)]; congr 1; omega

theorem getLsbD_getLong {j} (hj : j < 32) : (m.getLong a).getLsbD j = m.bit a (31 - j) := by
  rw [getLong, getLsbD_append]
  split
  · next hlt => rw [getLsbD_getWord _ _ hlt]; exact (m.bit_add a 2 _).trans (by congr 1; omega)
  · rw [getLsbD_getWord _ _ (by omega)]; congr 1; omega

/-! ## Writes -/

theorem bit_putByte {d k} (v : BitVec 8) (hd : d < 2 ^ w) (hk : k < 8 * 2 ^ w) :
    (m.putByte (a + BitVec.ofNat w d) v).bit a k
      = if 8 * d ≤ k ∧ k < 8 * d + 8 then v.getLsbD (8 * d + 7 - k) else m.bit a k := by
  by_cases hin : 8 * d ≤ k ∧ k < 8 * d + 8
  · rw [if_pos hin, bit, show k / 8 = d by omega, putByte, Function.update_self]; congr 1; omega
  · rw [if_neg hin, bit, putByte_outside _ _ (outside_offsets a (by omega) (by omega) (by omega)), bit]

theorem bit_halves {n} {v : BitVec (2 * n)} {e k : Nat} {b : Bool} :
    (if e + n ≤ k ∧ k < e + n + n then (v.extractLsb' 0 n).getLsbD (e + n + n - 1 - k)
      else if e ≤ k ∧ k < e + n then (v.extractLsb' n n).getLsbD (e + n - 1 - k) else b)
      = if e ≤ k ∧ k < e + 2 * n then v.getLsbD (e + 2 * n - 1 - k) else b := by
  by_cases hlow : e + n ≤ k ∧ k < e + n + n
  · rw [if_pos hlow, if_pos (by omega), getLsbD_extractLsb', decide_eq_true (by omega), Bool.true_and]
    congr 1
    omega
  by_cases hhigh : e ≤ k ∧ k < e + n
  · rw [if_neg hlow, if_pos hhigh, if_pos (by omega), getLsbD_extractLsb', decide_eq_true (by omega),
      Bool.true_and]
    congr 1
    omega
  · rw [if_neg hlow, if_neg hhigh, if_neg (by omega)]

theorem bit_putWord {d k} (v : BitVec 16) (hd : d + 1 < 2 ^ w) (hk : k < 8 * 2 ^ w) :
    (m.putWord (a + BitVec.ofNat w d) v).bit a k
      = if 8 * d ≤ k ∧ k < 8 * d + 16 then v.getLsbD (8 * d + 15 - k) else m.bit a k := by
  have hnext : a + BitVec.ofNat w d + 1 = a + BitVec.ofNat w (d + 1) := by
    rw [ofNat_add, BitVec.add_assoc]; rfl
  rw [putWord, hnext, bit_putByte _ _ _ hd hk, bit_putByte _ _ _ (by omega) hk]
  exact bit_halves (n := 8)

theorem bit_putLong {d k} (v : BitVec 32) (hd : d + 3 < 2 ^ w) (hk : k < 8 * 2 ^ w) :
    (m.putLong (a + BitVec.ofNat w d) v).bit a k
      = if 8 * d ≤ k ∧ k < 8 * d + 32 then v.getLsbD (8 * d + 31 - k) else m.bit a k := by
  have hnext : a + BitVec.ofNat w d + 2 = a + BitVec.ofNat w (d + 2) := by
    rw [ofNat_add, BitVec.add_assoc]; rfl
  rw [putLong, hnext, bit_putWord _ _ _ hd hk, bit_putWord _ _ _ (by omega) hk]
  exact bit_halves (n := 16)

end Aranym.Lib.Memory
