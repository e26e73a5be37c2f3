import Aranym.Lib.Memory

/-!
# Drawing on the host's surface

A line that the fVDI driver draws on a surface of the host: `hsDrawLine` of `SoftVdiDriver`, with the helpers that
reach a pixel. A pointer into the surface is kept as its column and row, so `pixel += BytesPerPixel` is a step to the
right and `pixel += pitch` a step down.

Source: `natfeat/nfvdi_soft.cpp`, `natfeat/nfvdi.h`.
-/

namespace Aranym.Vdi

open Aranym.Lib

/-- The column and row of a pointer into the surface, which may lie outside of it. -/
abbrev Pixel := Int × Int

def int16 (v : Int) : Int := v.bmod 65536

/-- `HostSurface` with its `SDL_Surface`; `fillRect` is what `SDL_FillRect` fills. -/
structure Surface where
  width : Nat
  height : Nat
  bpp : Nat
  fillRect : (x y w h : Int) → List Pixel

variable (S : Surface) (pattern logOp : BitVec 16)

def Surface.drawable : Bool := S.bpp = 8 || S.bpp = 15 || S.bpp = 16 || S.bpp = 24 || S.bpp = 32

/-! ## Pens -/

abbrev MD_REPLACE : BitVec 16 := 1
abbrev MD_TRANS : BitVec 16 := 2
abbrev MD_XOR : BitVec 16 := 3
abbrev MD_ERASE : BitVec 16 := 4

/-- What a pixel becomes: one of the two colours, or the old value inverted or unchanged. -/
inductive Ink
  | fg
  | bg
  | invert
  | keep
  deriving DecidableEq

structure Put where
  pixel : Pixel
  ink : Ink
  deriving DecidableEq

def ink (bit : Bool) : Option Ink :=
  if logOp = MD_REPLACE then some (if bit then .fg else .bg)
  else if logOp = MD_TRANS then if bit then some .fg else none
  else if logOp = MD_XOR then if bit then some .invert else none
  else if logOp = MD_ERASE then if bit then none else some .fg
  else none

def patternBit (k : Int) : Bool := pattern.getLsbD (k % 16).toNat

def put (pixel : Pixel) : Option Ink → List Put
  | some k => [⟨pixel, k⟩]
  | none => []

def Surface.hsPutPixel (x y : Int) (k : Ink) : List Put :=
  if x < 0 ∨ x ≥ S.width ∨ y < 0 ∨ y ≥ S.height then [] else [⟨(x, y), k⟩]

/-! ## Clipping -/

/-- `cliparray`: the first and the last column and row that are drawn. -/
structure Rect where
  left : Int
  top : Int
  right : Int
  bottom : Int
  deriving DecidableEq

def clipped (x y : Int) (r : Rect) : Bool := x < r.left || x > r.right || y < r.top || y > r.bottom

structure Segment where
  x1 : Int
  y1 : Int
  x2 : Int
  y2 : Int
  deriving DecidableEq

variable (s : Segment) (pattern logOp : BitVec 16)

/-! ## Lines -/

def solid : Bool := pattern = 0xffff && (logOp = MD_REPLACE || logOp = MD_TRANS)

/-- The loop of `gfxHLineColor` and `gfxVLineColor`: `ppos` is a `uint8`, `place` what is checked for a
position and `next` the step of the pointer. -/
def straight (r : Rect) (logOp pattern : BitVec 16) (place : Nat → Pixel) (next : Pixel → Pixel) :
    Nat → Nat → Pixel → List Put
  | 0, _, _ => []
  | n + 1, ppos, pixel =>
    (if clipped (place ppos).1 (place ppos).2 r then [] else put pixel (ink logOp (patternBit pattern ppos)))
      ++ straight r logOp pattern place next n ((ppos + 1) % 256) (next pixel)

/-- The pixels up to `pixellast`. With four bytes a pixel `w` is doubled as an `int16`. -/
def Surface.lineWidth (w : Int) : Nat :=
  if S.drawable then if S.bpp = 32 then (int16 (w + w) / 2).toNat else w.toNat else 0

def Surface.gfxHLineColor (x1 x2 y : Int) (pattern logOp : BitVec 16) (r : Rect) : List Put :=
  -- the parameters are `int16`
  let x1 := int16 x1
  let x2 := int16 x2
  let y := int16 y
  let x1 := if x1 < r.left then int16 r.left else x1
  if y < r.top then [] else
  let x2 := if x2 > r.right then int16 r.right else x2
  if y > r.bottom then [] else
  let w := int16 (x2 - x1 + 1)
  if w ≤ 0 then [] else
  if solid pattern logOp then (S.fillRect x1 y w 1).map (⟨·, .fg⟩) else
  straight r logOp pattern (fun ppos => (x1 + ppos, y)) (fun p => (p.1 + 1, p.2)) (S.lineWidth w) 0 (x1, y)

def Surface.gfxVLineColor (x y1 y2 : Int) (pattern logOp : BitVec 16) (r : Rect) : List Put :=
  let x := int16 x
  let y1 := int16 y1
  let y2 := int16 y2
  if x < r.left then [] else
  let y1 := if y1 < r.top then int16 r.top else y1
  if x > r.right then [] else
  let y2 := if y2 > r.bottom then int16 r.bottom else y2
  let h := int16 (y2 - y1 + 1)
  if h ≤ 0 then [] else
  if solid pattern logOp then (S.fillRect x y1 1 h).map (⟨·, .fg⟩) else
  straight r logOp pattern (fun ppos => (x, y1 + ppos)) (fun p => (p.1, p.2 + 1))
    (if S.drawable then h.toNat else 0) 0 (x, y1)

/-- The variables of `lineloop`: the coordinates as `int16`, the error term, which the source keeps in `x1`, and the
pointer, which does not wrap around with the coordinates. -/
structure Walk where
  x : Int
  y : Int
  error : Int
  ppos : Nat
  pixel : Pixel
  deriving DecidableEq

/-- A step across, with `sx` and `sy` the directions that the cases of `vec` stand for. -/
def Walk.across (sx dy : Int) (s : Walk) : Walk :=
  if s.error ≥ 0 then
    { s with x := int16 (s.x + sx), pixel := (s.pixel.1 + sx, s.pixel.2), error := s.error + dy }
  else s

def Walk.along (sy dx : Int) (s : Walk) : Walk :=
  if s.error < 0 then
    { s with y := int16 (s.y + sy), pixel := (s.pixel.1, s.pixel.2 + sy), error := s.error + dx }
  else s

def Walk.next (sx sy dx dy : Int) (s : Walk) : Walk :=
  { (s.across sx dy).along sy dx with ppos := (s.ppos + 1) % 256 }

def lineloop (r : Rect) (pen : Nat → Option Ink) (sx sy dx dy : Int) : Nat → Walk → List Put
  | 0, _ => []
  | diff + 1, s =>
    (if clipped s.x s.y r then [] else put s.pixel (pen s.ppos))
      ++ lineloop r pen sx sy dx dy diff (s.next sx sy dx dy)

/-- What `lineloop` is given to put. With three bytes a pixel the inversion is forgotten. -/
def Surface.linePen (ppos : Nat) : Option Ink :=
  if !S.drawable then none
  else if solid pattern logOp then some .fg
  else if S.bpp = 24 ∧ logOp = MD_XOR then if patternBit pattern ppos then some .keep else none
  else ink logOp (patternBit pattern ppos)

def Surface.slanted (r : Rect) : List Put :=
  let dx := int16 (s.x2 - s.x1)
  let dy := int16 (s.y2 - s.y1)
  let sx := if dx < 0 then -1 else 1
  let sy := if dy ≥ 0 then 1 else -1
  let dx := if dx < 0 then int16 (-dx) else dx
  let dy := if dy ≥ 0 then -dy else dy
  let diff := if dx > -dy then dx else -dy
  lineloop r (S.linePen pattern logOp) sx sy dx dy (diff + 1).toNat
    ⟨int16 s.x1, int16 s.y1, (dx + dy).tdiv 2, 0, (int16 s.x1, s.y1)⟩

def Surface.hsDrawLine (r : Rect) : List Put :=
  if s.x1 = s.x2 then
    if s.y1 < s.y2 then S.gfxVLineColor s.x1 s.y1 s.y2 pattern logOp r
    else if s.y1 > s.y2 then S.gfxVLineColor s.x1 s.y2 s.y1 pattern logOp r
    else if clipped s.x1 s.y1 r then []
    else match ink logOp (pattern ≠ 0) with
      | some k => S.hsPutPixel s.x1 s.y1 k
      | none => []
  else if s.y1 = s.y2 then
    if s.x1 < s.x2 then S.gfxHLineColor s.x1 s.x2 s.y1 pattern logOp r
    else S.gfxHLineColor s.x2 s.x1 s.y1 pattern logOp r
  else S.slanted s pattern logOp r

end Aranym.Vdi
