import Aranym.Vdi.Lemmas.Lines

/-!
# The points of a line

Source: `lineloop` and `hsDrawLine` of `natfeat/nfvdi_soft.cpp`.
-/

namespace Aranym.Vdi

open Aranym.Lib List

variable {S : Surface} {r : Rect} {s : Segment} {pattern logOp : BitVec 16} {a : Put}

/-! ## Visited points -/

def Segment.visits (s : Segment) : List Pixel :=
  let dx := int16 (s.x2 - s.x1)
  let dy := int16 (s.y2 - s.y1)
  let sx := if dx < 0 then -1 else 1
  let sy := if dy ≥ 0 then 1 else -1
  let dx := if dx < 0 then int16 (-dx) else dx
  let dy := if dy ≥ 0 then -dy else dy
  let diff := if dx > -dy then dx else -dy
  (range (diff + 1).toNat).map fun k =>
    let w := (Walk.next sx sy dx dy)^[k] ⟨int16 s.x1, int16 s.y1, (dx + dy).tdiv 2, 0, (int16 s.x1, s.y1)⟩
    (w.x, w.y)

/-- The line is traced from the first end point to the second, one step along the longer axis at a time, and only
points of it inside the clip rectangle are written. -/
structure Segment.Traced (s : Segment) : Prop where
  length : s.visits.length = max s.dx s.dy + 1
  first : s.visits.head? = some (s.x1, s.y1)
  last : s.visits.getLast? = some (s.x2, s.y2)
  flat : s.dy ≤ s.dx → ∀ k p q, s.visits[k]? = some p → s.visits[k + 1]? = some q →
    (q.1 - p.1).natAbs = 1 ∧ (q.2 - p.2).natAbs ≤ 1
  steep : s.dx < s.dy → ∀ k p q, s.visits[k]? = some p → s.visits[k + 1]? = some q →
    (q.2 - p.2).natAbs = 1 ∧ (q.1 - p.1).natAbs ≤ 1
  written : ∀ (S : Surface) pattern logOp r, ∀ a ∈ S.hsDrawLine s pattern logOp r, a.pixel ∈ s.visits ∧ r.Has a.pixel

theorem visits_eq (hshort : s.Short) : s.visits =
    (range (max s.dx s.dy + 1)).map fun k => (int16 (s.point k).1, int16 (s.point k).2) := by
  obtain ⟨hdx, hdy, hx, hy, hdiff⟩ := hshort.sides
  unfold Segment.visits
  simp only [hdx, hdy, hx, hy, neg_neg, hdiff]
  exact map_congr_left fun k _ => Segment.xy_walk k

theorem point_zero (s : Segment) : s.point 0 = (s.x1, s.y1) := by
  simp [Segment.point, Bresenham.after, Bresenham.start]

theorem point_last (hx : s.x1 ≠ s.x2) (hy : s.y1 ≠ s.y2) : s.point (max s.dx s.dy) = (s.x2, s.y2) := by
  obtain ⟨hcolumns, hrows⟩ := @Bresenham.after_end s.dx s.dy (by unfold Segment.dx; omega)
    (by unfold Segment.dy; omega) (max s.dx s.dy) (by omega)
  rw [Segment.point, hcolumns, hrows]
  refine Prod.ext ?_ ?_
  · simp only [Segment.sx, Segment.dx]; split <;> omega
  · simp only [Segment.sy, Segment.dy]; split <;> omega

theorem point_step (s : Segment) (k : Nat) :
    ((s.point (k + 1)).1 - (s.point k).1).natAbs ≤ 1 ∧ ((s.point (k + 1)).2 - (s.point k).2).natAbs ≤ 1 := by
  have h := @Bresenham.after_steps s.dx s.dy k
  simp only [Segment.point, Segment.sx, Segment.sy]
  constructor <;> split <;> omega

theorem point_flat (hy : s.y1 ≠ s.y2) (h : s.dy ≤ s.dx) (k : Nat) :
    ((s.point (k + 1)).1 - (s.point k).1).natAbs = 1 := by
  have hcolumns := fun k => (@Bresenham.after_flat s.dx s.dy (by omega) (by unfold Segment.dy; omega) k).1
  simp only [Segment.point, hcolumns, Segment.sx]
  split <;> omega

theorem point_steep (hx : s.x1 ≠ s.x2) (h : s.dx < s.dy) (k : Nat) :
    ((s.point (k + 1)).2 - (s.point k).2).natAbs = 1 := by
  have hrows := fun k => (@Bresenham.after_steep s.dx s.dy (by omega) (by unfold Segment.dx; omega) k).1
  simp only [Segment.point, hrows, Segment.sy]
  split <;> omega

theorem visits_of_fits (hs : s.Fits) (hx : s.x1 ≠ s.x2) (hy : s.y1 ≠ s.y2) (hshort : s.Short) :
    s.visits = (range (max s.dx s.dy + 1)).map s.point := by
  rw [visits_eq hshort]
  refine map_congr_left fun k hk => ?_
  rw [← Segment.xy_walk, (hs.walk_eq hx hy (Nat.lt_succ_iff.mp (mem_range.mp hk))).1]

theorem getElem?_visits (hvisits : s.visits = (range (max s.dx s.dy + 1)).map s.point) {k p}
    (h : s.visits[k]? = some p) : p = s.point k := by
  rw [hvisits, getElem?_map, Option.map_eq_some_iff] at h
  obtain ⟨j, hj, rfl⟩ := h
  rw [getElem?_eq_some_iff] at hj
  obtain ⟨_, hj⟩ := hj
  rw [getElem_range] at hj
  rw [hj]

/-- A short slanted line is traced from end to end just if its end points are `int16`. -/
theorem traced_iff (hx : s.x1 ≠ s.x2) (hy : s.y1 ≠ s.y2) (hshort : s.Short) : s.Traced ↔ s.Fits := by
  constructor
  · intro h
    have hfirst := h.first
    have hlast := h.last
    rw [visits_eq hshort, head?_map, head?_range, if_neg (by omega), Option.map_some, point_zero] at hfirst
    rw [visits_eq hshort, getLast?_map, getLast?_range, if_neg (by omega), Option.map_some, Nat.add_sub_cancel,
      point_last hx hy] at hlast
    simp only [Option.some.injEq, Prod.mk.injEq] at hfirst hlast
    exact ⟨hfirst.1 ▸ int16_range _, hfirst.2 ▸ int16_range _, hlast.1 ▸ int16_range _, hlast.2 ▸ int16_range _⟩
  · intro hs
    have hvisits := visits_of_fits hs hx hy hshort
    refine ⟨by simp [hvisits], ?_, ?_, fun h k p q hp hq => ?_, fun h k p q hp hq => ?_, ?_⟩
    · rw [hvisits, head?_map, head?_range, if_neg (by omega), Option.map_some, point_zero]
    · rw [hvisits, getLast?_map, getLast?_range, if_neg (by omega), Option.map_some, Nat.add_sub_cancel,
        point_last hx hy]
    · rw [getElem?_visits hvisits hp, getElem?_visits hvisits hq]
      exact ⟨point_flat hy h k, (point_step s k).2⟩
    · rw [getElem?_visits hvisits hp, getElem?_visits hvisits hq]
      exact ⟨point_steep hx h k, (point_step s k).1⟩
    · intro S pattern logOp r a ha
      rw [Surface.hsDrawLine, if_neg hx, if_neg hy, mem_slanted hshort] at ha
      obtain ⟨k, hk, hin, -, hpixel⟩ := ha
      obtain ⟨hxy, hp⟩ := hs.walk_eq hx hy hk
      rw [hpixel, hp, hvisits]
      exact ⟨mem_map.mpr ⟨k, mem_range.mpr (Nat.lt_succ_iff.mpr hk), rfl⟩, hxy ▸ hin⟩

theorem traced_small : (⟨0, 5, 7, 2⟩ : Segment).Traced ↔ (⟨0, 5, 7, 2⟩ : Segment).Fits :=
  traced_iff (by decide) (by decide) ⟨by decide, by decide⟩

theorem not_traced_wide : ¬ (⟨40000, 0, 40003, 2⟩ : Segment).Traced := fun h => absurd h.first (by decide)

end Aranym.Vdi
