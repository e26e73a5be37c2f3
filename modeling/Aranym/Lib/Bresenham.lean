import Mathlib.Tactic.Linarith

/-!
# Bresenham's walk

A line over `dx` columns and `dy` rows is walked with one error term. A round goes a column on while the error is not
negative, and then a row on when it has become so.
-/

namespace Aranym.Lib

structure Bresenham where
  columns : Nat
  rows : Nat
  error : Int

namespace Bresenham

variable (dx dy : Int)

def start : Bresenham := ⟨0, 0, (dx - dy).tdiv 2⟩

def column (w : Bresenham) : Bresenham :=
  if w.error ≥ 0 then { w with columns := w.columns + 1, error := w.error - dy } else w

def row (w : Bresenham) : Bresenham :=
  if w.error < 0 then { w with rows := w.rows + 1, error := w.error + dx } else w

def round (w : Bresenham) : Bresenham := (w.column dy).row dx

def after : Nat → Bresenham
  | 0 => start dx dy
  | k + 1 => (after k).round dx dy

def Balanced (w : Bresenham) : Prop := w.error = (dx - dy).tdiv 2 - w.columns * dy + w.rows * dx

variable {dx dy}

theorem Balanced.round {w : Bresenham} (h : w.Balanced dx dy) : (w.round dx dy).Balanced dx dy := by
  have hcolumn : (w.column dy).Balanced dx dy := by
    unfold Balanced column at *
    split
    · push_cast; linarith
    · exact h
  unfold Balanced Bresenham.round row at *
  split
  · push_cast; linarith
  · exact hcolumn

theorem balanced_after (k : Nat) : (after dx dy k).Balanced dx dy := by
  induction k with
  | zero => simp [after, start, Balanced]
  | succ k ih => exact ih.round

/-! ## Half the difference -/

theorem half_of_nonneg {d : Int} (h : 0 ≤ d) : 0 ≤ d.tdiv 2 ∧ d.tdiv 2 ≤ d := by
  rw [Int.tdiv_eq_ediv_of_nonneg h]
  omega

theorem half_of_nonpos {d : Int} (h : d ≤ 0) : d ≤ d.tdiv 2 ∧ d.tdiv 2 ≤ 0 := by
  have := half_of_nonneg (Int.neg_nonneg_of_nonpos h)
  rw [Int.neg_tdiv] at this
  omega

/-! ## Flat lines -/

theorem round_flat (h : dy ≤ dx) {w : Bresenham} (h₀ : 0 ≤ w.error) (h₁ : w.error < dx) (hdy : 0 < dy) :
    (w.round dx dy).columns = w.columns + 1 ∧ 0 ≤ (w.round dx dy).error ∧ (w.round dx dy).error < dx := by
  unfold round row column
  rw [if_pos h₀]
  split <;> (exact ⟨rfl, by simp only at *; omega, by simp only at *; omega⟩)

theorem after_flat (h : dy ≤ dx) (hdy : 0 < dy) (k : Nat) :
    (after dx dy k).columns = k ∧ 0 ≤ (after dx dy k).error ∧ (after dx dy k).error < dx := by
  induction k with
  | zero =>
    obtain ⟨h₀, h₁⟩ := half_of_nonneg (d := dx - dy) (by omega)
    exact ⟨rfl, h₀, lt_of_le_of_lt h₁ (by omega)⟩
  | succ k ih =>
    obtain ⟨hk, h₀, h₁⟩ := ih
    obtain ⟨hcolumns, hrest⟩ := round_flat h h₀ h₁ hdy; exact ⟨by rw [after, hcolumns, hk], hrest⟩

/-! ## Steep lines -/

theorem round_steep (h : dx < dy) {w : Bresenham} (h₀ : dx - dy ≤ w.error) (h₁ : w.error < dx) (hdx : 0 < dx) :
    (w.round dx dy).rows = w.rows + 1 ∧ dx - dy ≤ (w.round dx dy).error ∧ (w.round dx dy).error < dx := by
  have hneg : (w.column dy).error < 0 ∧ -dy ≤ (w.column dy).error := by
    unfold column
    split
    · exact ⟨by simp only; omega, by simp only; omega⟩
    · omega
  have hrows : (w.column dy).rows = w.rows := by
    unfold column
    split <;> rfl
  unfold round row
  rw [if_pos hneg.1]
  exact ⟨by simp only [hrows], by simp only; omega, by simp only; omega⟩

theorem after_steep (h : dx < dy) (hdx : 0 < dx) (k : Nat) :
    (after dx dy k).rows = k ∧ dx - dy ≤ (after dx dy k).error ∧ (after dx dy k).error < dx := by
  induction k with
  | zero =>
    obtain ⟨h₀, h₁⟩ := half_of_nonpos (d := dx - dy) (by omega)
    exact ⟨rfl, h₀, lt_of_le_of_lt h₁ hdx⟩
  | succ k ih =>
    obtain ⟨hk, h₀, h₁⟩ := ih
    obtain ⟨hrows, hrest⟩ := round_steep h h₀ h₁ hdx; exact ⟨by rw [after, hrows, hk], hrest⟩

/-! ## The box -/

theorem after_le (hdx : 0 < dx) (hdy : 0 < dy) {k : Nat} (hk : k ≤ max dx dy) :
    (after dx dy k).columns ≤ dx ∧ (after dx dy k).rows ≤ dy := by
  have hbalance : Balanced dx dy (after dx dy k) := balanced_after k
  unfold Balanced at hbalance
  rcases le_or_gt dy dx with h | h
  · rw [max_eq_left h] at hk
    obtain ⟨hcolumns, -, herror⟩ := after_flat h hdy k
    have h₀ := (half_of_nonneg (d := dx - dy) (by omega)).1
    rw [hcolumns] at hbalance ⊢
    refine ⟨hk, ?_⟩
    -- the rows cost `dx` each, and were paid for by at most `dx` columns
    have : (k : Int) * dy ≤ dx * dy := mul_le_mul_of_nonneg_right hk hdy.le
    have : (after dx dy k).rows * dx < (dy + 1) * dx := by linarith
    have := lt_of_mul_lt_mul_right this hdx.le; omega
  · rw [max_eq_right h.le] at hk
    obtain ⟨hrows, herror, -⟩ := after_steep h hdx k
    have h₀ := (half_of_nonpos (d := dx - dy) (by omega)).2
    rw [hrows] at hbalance ⊢
    refine ⟨?_, hk⟩
    have : (k : Int) * dx ≤ dy * dx := mul_le_mul_of_nonneg_right hk hdx.le
    have : (after dx dy k).columns * dy < (dx + 1) * dy := by linarith
    have := lt_of_mul_lt_mul_right this hdy.le; omega

theorem after_end (hdx : 0 < dx) (hdy : 0 < dy) {k : Nat} (hk : (k : Int) = max dx dy) :
    (after dx dy k).columns = dx ∧ (after dx dy k).rows = dy := by
  obtain ⟨hcolumns, hrows⟩ := after_le hdx hdy hk.le
  have hbalance : Balanced dx dy (after dx dy k) := balanced_after k
  unfold Balanced at hbalance
  rcases le_or_gt dy dx with h | h
  · rw [max_eq_left h] at hk
    obtain ⟨hflat, herror, -⟩ := after_flat h hdy k
    have h₀ := (half_of_nonneg (d := dx - dy) (by omega)).2
    rw [hflat] at hbalance ⊢
    have : (k : Int) * dy = dx * dy := by rw [hk]
    have : (dy - 1) * dx < (after dx dy k).rows * dx := by linarith
    have := lt_of_mul_lt_mul_right this hdx.le; omega
  · rw [max_eq_right h.le] at hk
    obtain ⟨hsteep, -, herror⟩ := after_steep h hdx k
    have h₀ := (half_of_nonpos (d := dx - dy) (by omega)).1
    rw [hsteep] at hbalance ⊢
    have : (k : Int) * dx = dy * dx := by rw [hk]
    have : (dx - 1) * dy < (after dx dy k).columns * dy := by linarith
    have := lt_of_mul_lt_mul_right this hdy.le; omega

theorem after_steps (k : Nat) : ((after dx dy (k + 1)).columns = (after dx dy k).columns ∨
      (after dx dy (k + 1)).columns = (after dx dy k).columns + 1) ∧
    ((after dx dy (k + 1)).rows = (after dx dy k).rows ∨ (after dx dy (k + 1)).rows = (after dx dy k).rows + 1) := by
  rw [after]
  unfold round row column
  split <;> split <;> simp

end Bresenham

end Aranym.Lib
