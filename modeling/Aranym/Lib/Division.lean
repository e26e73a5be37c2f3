import Mathlib.Tactic.Linarith
import Mathlib.Tactic.Ring

/-!
# Division of machine words

A word is read as a signed or as an unsigned number. A division truncates towards zero, and its quotient
need not fit in the words from which it comes: the smallest signed number has no negative in its type.
-/

namespace Aranym.Lib

open BitVec Nat Int

variable {w : ℕ} {signed : Bool}

def reading (signed : Bool) (x : BitVec w) : ℤ := if signed then x.toInt else x.toNat

def Representable (signed : Bool) (w : ℕ) (z : ℤ) : Prop := ∃ x : BitVec w, reading signed x = z

/-- The quotient `q` and the remainder `r` of `a` by `b`, where the remainder has the sign of `a`. -/
structure Division (a b q r : ℤ) : Prop where
  eq : a = q * b + r
  lt : |r| < |b|
  sign : r = 0 ∨ r.sign = a.sign

def quotient (signed : Bool) (x y : BitVec w) : ℤ := (reading signed x).tdiv (reading signed y)

@[simp] theorem reading_true (x : BitVec w) : reading true x = x.toInt := rfl

@[simp] theorem reading_false (x : BitVec w) : reading false x = x.toNat := rfl

theorem representable_unsigned {z} : Representable false w z ↔ 0 ≤ z ∧ z < 2 ^ w := by
  constructor
  · rintro ⟨x, rfl⟩; rw [reading_false]; exact ⟨natCast_nonneg _, by exact_mod_cast x.isLt⟩
  · rintro ⟨hlo, hhi⟩
    refine ⟨BitVec.ofNat w z.toNat, ?_⟩
    rw [reading_false, toNat_ofNat, mod_eq_of_lt (by zify; rw [toNat_of_nonneg hlo]; exact hhi)]
    exact toNat_of_nonneg hlo

theorem representable_signed {z} : Representable true (w + 1) z ↔ -2 ^ w ≤ z ∧ z < 2 ^ w := by
  constructor
  · rintro ⟨x, rfl⟩; exact ⟨x.le_toInt, x.toInt_lt⟩
  · rintro ⟨hlo, hhi⟩
    refine ⟨BitVec.ofInt (w + 1) z, ?_⟩
    have hpow : ((2 ^ (w + 1) : ℕ) : ℤ) = 2 * 2 ^ w := by push_cast; ring
    rw [reading_true, toInt_ofInt, bmod_eq_of_le] <;> omega

theorem division_tdiv (a : ℤ) {b} (hb : b ≠ 0) : Division a b (a.tdiv b) (a.tmod b) where
  eq := by
    have h := tmod_add_mul_tdiv a b
    linarith [mul_comm b (a.tdiv b)]
  lt := by
    have h := mod_lt a.natAbs (natAbs_pos.mpr hb)
    rw [← natAbs_tmod] at h
    rw [abs_eq_natAbs, abs_eq_natAbs]
    exact_mod_cast h
  sign := by
    rw [sign_tmod]
    split
    · next h => exact .inl (tmod_eq_zero_of_dvd h)
    · exact .inr rfl

theorem abs_tdiv_le (a b : ℤ) : |a.tdiv b| ≤ |a| := by
  rw [abs_eq_natAbs, abs_eq_natAbs, natAbs_tdiv]
  exact_mod_cast Nat.div_le_self _ _

theorem representable_quotient_iff {x y} : Representable signed (w + 1) (quotient signed x y)
      ↔ ¬ (signed = true ∧ x = BitVec.intMin (w + 1) ∧ y = -1) := by
  cases signed with
  | false =>
    refine iff_of_true ?_ (by simp)
    refine ⟨x / y, ?_⟩
    rw [reading_false, toNat_udiv, quotient, reading_false, reading_false]
    exact (ofNat_tdiv _ _).symm
  | true =>
    simp only [true_and]
    constructor
    · rintro h ⟨rfl, rfl⟩
      have hmin : (BitVec.intMin (w + 1)).toInt = -2 ^ w :=
        toInt_intMin_of_pos (succ_pos w)
      have hneg : (-1 : BitVec (w + 1)).toInt = -1 := by
        rw [show (-1 : BitVec (w + 1)) = BitVec.allOnes (w + 1) from neg_one_eq_allOnes,
          toInt_allOnes, if_pos (succ_pos w)]
      rw [quotient, reading_true, reading_true, hmin, hneg, representable_signed] at h; simp at h
    · intro h; refine ⟨x.sdiv y, ?_⟩; rw [reading_true, toInt_sdiv_of_ne_or_ne _ _ (by tauto)]; rfl

end Aranym.Lib
