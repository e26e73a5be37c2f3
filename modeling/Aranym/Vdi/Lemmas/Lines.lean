import Aranym.Vdi.Defs
import Aranym.Lib.Bresenham
import Mathlib.Tactic.Ring

/-!
# The walk along a line

What is drawn of a slanted line are the points of the walk that lie in the clip rectangle. The walk is that of the
algorithm, modulo the width of an `int16`.
-/

namespace Aranym.Vdi

open Aranym.Lib List Function Nat Bool

variable {S : Surface} {r : Rect} {s : Segment} {pattern logOp : BitVec 16} {a : Put}

/-! ## The cast to `int16` -/

/-- The values that an `int16` holds. -/
abbrev Fits16 (v : Int) : Prop := -32768 ≤ v ∧ v ≤ 32767

theorem int16_eq {v} (h : Fits16 v) : int16 v = v := by
  simp only [int16, Int.bmod]
  omega

theorem int16_range (v : Int) : Fits16 (int16 v) := by
  simp only [int16, Int.bmod]
  omega

theorem int16_int16_add (v d : Int) : int16 (int16 v + d) = int16 (v + d) := by
  unfold int16
  exact Int.bmod_add_bmod

/-! ## Rectangles -/

def Rect.Has (r : Rect) (p : Pixel) : Prop := r.left ≤ p.1 ∧ p.1 ≤ r.right ∧ r.top ≤ p.2 ∧ p.2 ≤ r.bottom

theorem clipped_eq_false {x y} : clipped x y r = false ↔ r.Has (x, y) := by
  simp only [clipped, Rect.Has, or_eq_false_iff, decide_eq_false_iff_not]
  omega

theorem mem_put {p k} : a ∈ put p k ↔ a.pixel = p ∧ k = some a.ink := by
  cases k with
  | none => simp [put]
  | some k => obtain ⟨q, l⟩ := a; simp [put, eq_comm]

/-! ## Slanted lines -/

theorem mem_lineloop {pen sx sy dx dy n w} : a ∈ lineloop r pen sx sy dx dy n w ↔
      ∃ k < n, r.Has (((Walk.next sx sy dx dy)^[k] w).x, ((Walk.next sx sy dx dy)^[k] w).y) ∧
        pen ((Walk.next sx sy dx dy)^[k] w).ppos = some a.ink ∧
        a.pixel = ((Walk.next sx sy dx dy)^[k] w).pixel := by
  induction n generalizing w with
  | zero => simp [lineloop]
  | succ n ih =>
    rw [lineloop, mem_append, ih]
    constructor
    · rintro (h | ⟨k, hk, h⟩)
      · split at h
        · exact absurd h not_mem_nil
        · rename_i hclip
          obtain ⟨hpixel, hpen⟩ := mem_put.mp h
          exact ⟨0, by omega, clipped_eq_false.mp (by simpa using hclip), hpen, hpixel⟩
      · exact ⟨k + 1, by omega, h⟩
    · rintro ⟨k, hk, hin, hpen, hpixel⟩
      cases k with
      | zero =>
        rw [iterate_zero, id] at hin hpen hpixel
        rw [if_neg (by simpa using clipped_eq_false.mpr hin)]
        exact .inl (mem_put.mpr ⟨hpixel, hpen⟩)
      | succ k => exact .inr ⟨k, by omega, hin, hpen, hpixel⟩

structure Follows (sx sy x1 y1 : Int) (s : Walk) (w : Bresenham) : Prop where
  error : s.error = w.error
  pixel : s.pixel = (x1 + sx * w.columns, y1 + sy * w.rows)
  x : s.x = int16 s.pixel.1
  y : s.y = int16 s.pixel.2

section Follows

variable {sx sy x1 y1 dx dy : Int} {t : Walk} {w : Bresenham}

theorem Follows.across (h : Follows sx sy x1 y1 t w) : Follows sx sy x1 y1 (t.across sx (-dy)) (w.column dy) := by
  unfold Walk.across Bresenham.column
  rw [h.error]
  split
  · constructor
    · rfl
    · rw [h.pixel]; exact Prod.ext (by push_cast; ring) rfl
    · rw [h.x]; exact int16_int16_add ..
    · exact h.y
  · exact h

theorem Follows.along (h : Follows sx sy x1 y1 t w) : Follows sx sy x1 y1 (t.along sy dx) (w.row dx) := by
  unfold Walk.along Bresenham.row
  rw [h.error]
  split
  · constructor
    · rfl
    · rw [h.pixel]; exact Prod.ext rfl (by push_cast; ring)
    · exact h.x
    · rw [h.y]; exact int16_int16_add ..
  · exact h

theorem Follows.next (h : Follows sx sy x1 y1 t w) :
    Follows sx sy x1 y1 (t.next sx sy dx (-dy)) (w.round dx dy) :=
  have h' : Follows sx sy x1 y1 ((t.across sx (-dy)).along sy dx) (w.round dx dy) := h.across.along
  ⟨h'.error, h'.pixel, h'.x, h'.y⟩

theorem Follows.iterate (h : Follows sx sy x1 y1 t (.start dx dy)) (k : Nat) :
    Follows sx sy x1 y1 ((Walk.next sx sy dx (-dy))^[k] t) (.after dx dy k) := by
  induction k with
  | zero => exact h
  | succ k ih => rw [iterate_succ_apply']; exact ih.next

end Follows

/-- The line spans at most 32767 columns and rows. -/
structure Segment.Short (s : Segment) : Prop where
  x : (s.x2 - s.x1).natAbs ≤ 32767
  y : (s.y2 - s.y1).natAbs ≤ 32767

structure Segment.Fits (s : Segment) : Prop where
  x1 : Fits16 s.x1
  y1 : Fits16 s.y1
  x2 : Fits16 s.x2
  y2 : Fits16 s.y2

/-! The walk of a line that is not too long, with the lengths of its sides. -/

namespace Segment

variable (s : Segment)

def dx : Nat := (s.x2 - s.x1).natAbs

def dy : Nat := (s.y2 - s.y1).natAbs

def sx : Int := if s.x2 - s.x1 < 0 then -1 else 1

def sy : Int := if s.y2 - s.y1 ≥ 0 then 1 else -1

def walk (k : Nat) : Walk := (Walk.next s.sx s.sy s.dx (-s.dy))^[k]
  ⟨int16 s.x1, int16 s.y1, (s.dx + -(s.dy : Int)).tdiv 2, 0, (int16 s.x1, s.y1)⟩

def point (k : Nat) : Pixel :=
  (s.x1 + s.sx * (Bresenham.after s.dx s.dy k).columns, s.y1 + s.sy * (Bresenham.after s.dx s.dy k).rows)

variable {s}

theorem Short.sides (h : s.Short) : int16 (s.x2 - s.x1) = s.x2 - s.x1 ∧ int16 (s.y2 - s.y1) = s.y2 - s.y1 ∧
    (if s.x2 - s.x1 < 0 then int16 (-(s.x2 - s.x1)) else s.x2 - s.x1) = s.dx ∧
    (if s.y2 - s.y1 ≥ 0 then -(s.y2 - s.y1) else s.y2 - s.y1) = -(s.dy : Int) ∧
    ((if (s.dx : Int) > s.dy then (s.dx : Int) else s.dy) + 1).toNat = max s.dx s.dy + 1 := by
  obtain ⟨hx, hy⟩ := h
  refine ⟨int16_eq (by omega), int16_eq (by omega), ?_, ?_, ?_⟩
  · rw [int16_eq (by omega), dx]; split <;> omega
  · rw [dy]; split <;> omega
  · split <;> omega

theorem follows_walk (k : Nat) : Follows s.sx s.sy (int16 s.x1) s.y1 (s.walk k) (.after s.dx s.dy k) :=
  Follows.iterate ⟨rfl, by simp [Bresenham.start], by simpa using (int16_int16_add s.x1 0).symm, rfl⟩ k

theorem xy_walk (k : Nat) : ((s.walk k).x, (s.walk k).y) = (int16 (s.point k).1, int16 (s.point k).2) := by
  have h := follows_walk (s := s) k
  rw [h.x, h.y, h.pixel, int16_int16_add]; rfl

theorem point_le (hx : s.x1 ≠ s.x2) (hy : s.y1 ≠ s.y2) {k} (hk : k ≤ max s.dx s.dy) :
    (min s.x1 s.x2 ≤ (s.point k).1 ∧ (s.point k).1 ≤ max s.x1 s.x2) ∧
      min s.y1 s.y2 ≤ (s.point k).2 ∧ (s.point k).2 ≤ max s.y1 s.y2 := by
  have h := @Bresenham.after_le s.dx s.dy (by unfold dx; omega) (by unfold dy; omega) k (by omega)
  simp only [point, sx, sy, dx, dy] at h ⊢
  constructor <;> split <;> omega

theorem Fits.walk_eq (hs : s.Fits) (hx : s.x1 ≠ s.x2) (hy : s.y1 ≠ s.y2) {k} (hk : k ≤ max s.dx s.dy) :
    ((s.walk k).x, (s.walk k).y) = s.point k ∧ (s.walk k).pixel = s.point k := by
  obtain ⟨hx1, hy1, hx2, hy2⟩ := hs
  obtain ⟨hpx, hpy⟩ := point_le hx hy hk
  rw [xy_walk, (follows_walk k).pixel, int16_eq hx1]
  exact ⟨Prod.ext (int16_eq (by omega)) (int16_eq (by omega)), rfl⟩

end Segment

theorem mem_slanted (hshort : s.Short) : a ∈ S.slanted s pattern logOp r ↔
    ∃ k ≤ max s.dx s.dy, r.Has ((s.walk k).x, (s.walk k).y) ∧
      S.linePen pattern logOp (s.walk k).ppos = some a.ink ∧ a.pixel = (s.walk k).pixel := by
  obtain ⟨hdx, hdy, hx, hy, hdiff⟩ := hshort.sides
  unfold Surface.slanted
  simp only [hdx, hdy, hx, hy, neg_neg, hdiff, mem_lineloop, Nat.lt_succ_iff]
  rfl

end Aranym.Vdi
