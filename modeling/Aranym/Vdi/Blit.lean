import Aranym.Lib.Run
import Aranym.Vdi.Defs

/-!
# Copies on the screen

`blitArea_S2S` combines two rectangles of the screen pixel by pixel, from the first row to the last and from left to
right.

Source: `nfvdi_soft.cpp`, `nfvdi.cpp`.
-/

namespace Aranym.Vdi

open Function List Aranym.Lib

/-- `applyBlitLogOperation`; number 5 is `D_ONLY`. -/
def applyBlitLogOperation (logOp : Nat) (d s : BitVec 32) : BitVec 32 :=
  match logOp with
  | 0 => 0
  | 1 => s &&& d
  | 2 => s &&& ~~~d
  | 3 => s
  | 4 => ~~~s &&& d
  | 6 => s ^^^ d
  | 7 => s ||| d
  | 8 => ~~~(s ||| d)
  | 9 => ~~~(s ^^^ d)
  | 10 => ~~~d
  | 11 => s ||| ~~~d
  | 12 => ~~~s
  | 13 => ~~~s ||| d
  | 14 => ~~~(s &&& d)
  | 15 => 0xffffffff
  | _ => d

/-- The order of the two loops. -/
def offsets (w h : Nat) : List (Nat × Nat) := (range h).flatMap fun j => (range w).map fun i => (i, j)

def shift (p : Pixel) (o : Nat × Nat) : Pixel := (p.1 + o.1, p.2 + o.2)

section

variable (S : Surface) {n : Nat} (m : Pixel → BitVec n)

def Surface.Holds (p : Pixel) : Prop := 0 ≤ p.1 ∧ p.1 < S.width ∧ 0 ≤ p.2 ∧ p.2 < S.height

instance (p : Pixel) : Decidable (S.Holds p) := inferInstanceAs (Decidable (_ ∧ _))

def hsGetPixel (p : Pixel) : BitVec 32 := if S.Holds p then (m p).setWidth 32 else 0

def hsPutPixel (p : Pixel) (color : BitVec 32) : Pixel → BitVec n :=
  if S.Holds p then update m p (color.setWidth n) else m

/-- What the loops do to one pixel. -/
def combine (logOp : Nat) (d s : BitVec n) : BitVec n :=
  (applyBlitLogOperation logOp (d.setWidth 32) (s.setWidth 32)).setWidth n

/-- The pixels, of `n` bits, after the call; the copy of `S_ONLY` is left to SDL. -/
def blitAreaS2S (copied : Pixel → BitVec n) (s d : Pixel) (w h logOp : Nat) : Pixel → BitVec n :=
  if logOp = 3 then copied
  else (offsets w h).foldl (fun m o => hsPutPixel S m (shift d o)
    (applyBlitLogOperation logOp (hsGetPixel S m (shift d o)) (hsGetPixel S m (shift s o)))) m

/-! ## Simultaneous copies -/

theorem mem_offsets {w h : Nat} {o : Nat × Nat} : o ∈ offsets w h ↔ o.2 < h ∧ o.1 < w := by
  simp [offsets, Prod.ext_iff]

theorem pairwise_offsets (w h : Nat) : (offsets w h).Pairwise fun p q => p.2 < q.2 ∨ p.2 = q.2 ∧ p.1 < q.1 := by
  refine pairwise_flatMap.mpr ⟨fun j _ => ?_, pairwise_lt_range.imp fun hlt p hp q hq => .inl ?_⟩
  · exact pairwise_map.mpr (pairwise_lt_range.imp fun hlt => .inr ⟨rfl, hlt⟩)
  · obtain ⟨-, -, rfl⟩ := mem_map.mp hp
    obtain ⟨-, -, rfl⟩ := mem_map.mp hq
    exact hlt

variable {S} {copied : Pixel → BitVec n} {s d : Pixel} {w h logOp : Nat} (hop : logOp ≠ 3)
  (hs : ∀ o ∈ offsets w h, S.Holds (shift s o)) (hd : ∀ o ∈ offsets w h, S.Holds (shift d o))

include hop hs hd

theorem blitAreaS2S_eq : blitAreaS2S S m copied s d w h logOp = (offsets w h).foldl (fun m o =>
    update m (shift d o) (combine logOp (m (shift d o)) (m (shift s o)))) m := by
  rw [blitAreaS2S, if_neg hop]
  refine foldl_ext _ _ _ fun m o ho => ?_
  simp only [hsPutPixel, hsGetPixel, hs o ho, hd o ho, if_true, combine]

end

def strip : Surface := ⟨3, 1, 8, fun _ _ _ _ => []⟩

def strip.pixels : Pixel → BitVec 8 := fun p => [1, 2, 4].getD p.1.toNat 0

end Aranym.Vdi
