import Aranym.Dsp.Defs

/-!
# 56-bit arithmetic

The accumulators are computed with in three words, of which the first holds the bits 55 to 48, the second
the bits 47 to 24 and the third the bits 23 to 0. Carry and overflow are found from the words.

Source: `dsp_cpu.c`.
-/

namespace Aranym.Dsp

/-- `dest[0]`, `dest[1]` and `dest[2]`. -/
structure Acc where
  w0 : BitVec 32
  w1 : BitVec 32
  w2 : BitVec 32
  deriving DecidableEq

def Acc.zero : Acc := ⟨0, 0, 0⟩

def newsr (overflow carry : Bool) : BitVec 16 := flag overflow srL ||| flag overflow srV ||| flag carry srC

def Acc.less (a b : Acc) : Bool :=
  if a.w0 < b.w0 then true
  else if a.w0 = b.w0 then
    if a.w1 < b.w1 then true
    else if a.w1 = b.w1 then a.w2 < b.w2
    else false
  else false

def asl56 (dest : Acc) : BitVec 16 × Acc :=
  let carry := dest.w0.getLsbD 7
  let w0 := (dest.w0 <<< 1 ||| (dest.w1 >>> 23 &&& 1)) &&& bitmask 8
  let w1 := (dest.w1 <<< 1 ||| (dest.w2 >>> 23 &&& 1)) &&& bitmask 24
  let w2 := dest.w2 <<< 1 &&& bitmask 24
  let overflow := carry != w0.getLsbD 7
  (newsr overflow carry, ⟨w0, w1, w2⟩)

def asr56 (dest : Acc) : BitVec 16 × Acc :=
  let carry := dest.w2.getLsbD 0
  let w2 := (dest.w2 >>> 1 &&& bitmask 23) ||| (dest.w1 &&& 1) <<< 23
  let w1 := (dest.w1 >>> 1 &&& bitmask 23) ||| (dest.w0 &&& 1) <<< 23
  let w0 := dest.w0 >>> 1 &&& bitmask 7
  (flag carry srC, ⟨w0 ||| (w0 &&& 1#32 <<< 6) <<< 1, w1, w2⟩)

def add56 (source dest : Acc) : BitVec 16 × Acc :=
  let flgS := source.w0.getLsbD 7
  let flgD := dest.w0.getLsbD 7
  let notDest : Acc := ⟨~~~dest.w0 &&& bitmask 8, ~~~dest.w1 &&& bitmask 24, ~~~dest.w2 &&& bitmask 24⟩
  let w2 := dest.w2 + source.w2
  let w1 := dest.w1 + (source.w1 + (w2 >>> 24 &&& 1))
  let w0 := dest.w0 + (source.w0 + (w1 >>> 24 &&& 1))
  let sum : Acc := ⟨w0 &&& bitmask 8, w1 &&& bitmask 24, w2 &&& bitmask 24⟩
  let flgR := sum.w0.getLsbD 7
  let overflow := (flgS ^^ flgR) && (flgD ^^ flgR)
  (newsr overflow (notDest.less source), sum)

def sub56 (source dest : Acc) : BitVec 16 × Acc :=
  let w2 := dest.w2 - source.w2
  let w1 := dest.w1 - (source.w1 + (w2 >>> 24 &&& 1))
  let w0 := dest.w0 - (source.w0 + (w1 >>> 24 &&& 1))
  let difference : Acc := ⟨w0 &&& bitmask 8, w1 &&& bitmask 24, w2 &&& bitmask 24⟩
  let flgS := source.w0.getLsbD 7
  let flgD := dest.w0.getLsbD 7
  let flgR := difference.w0.getLsbD 7
  let overflow := (flgS ^^ flgD) && (flgR ^^ flgD)
  (newsr overflow (dest.less source), difference)

def abs56 (dest : Acc) : BitVec 16 × Acc := if dest.w0.getLsbD 7 then sub56 dest .zero else (0, dest)

def magnitude (source : BitVec 32) : BitVec 32 :=
  if source.getLsbD 23 then 1#32 <<< 24 - (source &&& bitmask 24) else source

def addCarries (w1 w2 : BitVec 32) : Acc :=
  let value := w2 >>> 24 &&& bitmask 8
  let (w1, w2) := if value ≠ 0 then (w1 + value, w2 &&& bitmask 24) else (w1, w2)
  let value := w1 >>> 24 &&& bitmask 8
  let (w0, w1) := if value ≠ 0 then (value, w1 &&& bitmask 24) else (0, w1)
  ⟨w0, w1, w2⟩

def mulParts (source1 source2 : BitVec 32) : Acc :=
  let part0 := (source1 &&& bitmask 12) * (source2 &&& bitmask 12)
  let part1 := (source1 >>> 12 &&& bitmask 12) * (source2 &&& bitmask 12)
  let part2 := (source1 &&& bitmask 12) * (source2 >>> 12 &&& bitmask 12)
  let part3 := (source1 >>> 12 &&& bitmask 12) * (source2 >>> 12 &&& bitmask 12)
  let w2 := part0 + (part1 &&& bitmask 12) <<< 12 + (part2 &&& bitmask 12) <<< 12
  let w1 := (part1 >>> 12 &&& bitmask 12) + (part2 >>> 12 &&& bitmask 12) + part3
  addCarries w1 w2

def mul56 (source1 source2 : BitVec 32) : Acc :=
  let negresult := source1.getLsbD 23 ^^ source2.getLsbD 23
  -- the shift gets rid of the extra sign bit
  let dest := (asl56 (mulParts (magnitude source1) (magnitude source2))).2
  if negresult then (sub56 dest .zero).2 else dest

def rnd56 (sr : BitVec 32) (dest : Acc) : Acc :=
  if sr.getLsbD srS0 then
    let d := (add56 ⟨0, 1, 0⟩ dest).2
    let w1 := if d.w2 = 0 ∧ d.w1 &&& 1 = 0 then d.w1 &&& (0xffffff - 0x3) else d.w1
    ⟨d.w0, w1 &&& 0xfffffe, 0⟩
  else if sr.getLsbD srS1 then
    let d := (add56 ⟨0, 0, 1#32 <<< 22⟩ dest).2
    let w2 := if d.w2 &&& 0x7fffff = 0 then 0 else d.w2
    ⟨d.w0, d.w1, w2 &&& 0x800000⟩
  else
    let d := (add56 ⟨0, 0, 1#32 <<< 23⟩ dest).2
    let w1 := if d.w2 = 0 then d.w1 &&& 0xfffffe else d.w1
    ⟨d.w0, w1, 0⟩

end Aranym.Dsp
