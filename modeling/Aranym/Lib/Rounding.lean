import Mathlib.Algebra.Order.Ring.Abs
import Mathlib.Tactic.Linarith
import Mathlib.Tactic.Ring

/-!
# Convergent rounding

Rounding to the nearest multiple of a unit, where a tie goes to the even multiple. A machine adds half a
unit and clears the low end; the sum is a multiple of the unit exactly at a tie, and then one more bit
is cleared.
-/

namespace Aranym.Lib

open Int

/-- The multiple `y` of `u` is nearest to `x`, and even at a tie. -/
def RoundsTo (u x y : ℤ) : Prop := ∃ k, y = k * u ∧ 2 * |x - y| ≤ u ∧ (2 * |x - y| = u → Even k)

def convergent (h x : ℤ) : ℤ :=
  if (x + h) % (2 * h) = 0 then x + h - (x + h) % (4 * h) else x + h - (x + h) % (2 * h)

theorem roundsTo_convergent {h} (hh : 0 < h) (x : ℤ) : RoundsTo (2 * h) x (convergent h x) := by
  unfold convergent
  split
  · next htie =>
    -- the rest by `4 * h` is one of the two multiples of `2 * h` below it
    have hdiv := emod_add_mul_ediv (x + h) (4 * h)
    have hlo := emod_nonneg (x + h) (b := 4 * h) (by linarith)
    have hhi := emod_lt_of_pos (x + h) (b := 4 * h) (by linarith)
    have hrest : (x + h) % (4 * h) % (2 * h) = 0 := by rw [emod_emod_of_dvd _ ⟨2, by ring⟩]; exact htie
    obtain ⟨c, hc⟩ := dvd_of_emod_eq_zero hrest
    have hc' : c = 0 ∨ c = 1 := by
      have h0 : 0 ≤ c := by nlinarith
      have h1 : c < 2 := by nlinarith
      omega
    refine ⟨2 * ((x + h) / (4 * h)), by linarith, ?_, fun _ => even_two_mul _⟩
    have hdist : |x - (x + h - (x + h) % (4 * h))| = h := by
      rcases hc' with rfl | rfl
      · rw [hc, abs_of_nonpos] <;> linarith
      · rw [hc, abs_of_nonneg] <;> linarith
    rw [hdist]
  · next htie =>
    have hdiv := emod_add_mul_ediv (x + h) (2 * h)
    have hlo : 0 < (x + h) % (2 * h) :=
      lt_of_le_of_ne (emod_nonneg _ (by linarith)) (Ne.symm htie)
    have hhi := emod_lt_of_pos (x + h) (b := 2 * h) (by linarith)
    have hdist : |x - (x + h - (x + h) % (2 * h))| < h := by
      rw [abs_lt]
      constructor <;> linarith
    refine ⟨(x + h) / (2 * h), by linarith, by linarith, fun heq => ?_⟩
    linarith

theorem convergent_emod {h x n} (hn : 4 * h ∣ n) : convergent h (x % n) % n = convergent h x % n := by
  obtain ⟨c, rfl⟩ := hn
  have hx := emod_add_mul_ediv x (4 * h * c)
  set q := x / (4 * h * c)
  have hshift : x % (4 * h * c) + h = x + h - 4 * h * c * q := by linarith
  have h2 : (x % (4 * h * c) + h) % (2 * h) = (x + h) % (2 * h) := by
    rw [hshift, show 4 * h * c * q = 2 * h * (2 * c * q) by ring, sub_mul_emod_self_left]
  have h4 : (x % (4 * h * c) + h) % (4 * h) = (x + h) % (4 * h) := by
    rw [hshift, show 4 * h * c * q = 4 * h * (c * q) by ring, sub_mul_emod_self_left]
  unfold convergent
  rw [h2, h4, hshift]
  split
  · rw [show x + h - 4 * h * c * q - (x + h) % (4 * h) = x + h - (x + h) % (4 * h) - 4 * h * c * q by ring,
      sub_mul_emod_self_left]
  · rw [show x + h - 4 * h * c * q - (x + h) % (2 * h) = x + h - (x + h) % (2 * h) - 4 * h * c * q by ring,
      sub_mul_emod_self_left]

end Aranym.Lib
