import Aranym.Dsp.Arith

/-!
# Instructions of the ALU

Additions and subtractions with carry, and the step of a division. An instruction names an accumulator and
a source register in `cur_inst`, and leaves its flags in the status register.

Source: `dsp_cpu.c`.
-/

namespace Aranym.Dsp

open Function

variable (curInst : BitVec 32) (r : Registers) (d : Acc)

/-! ## Operands -/

/-- Bit 3 of the instruction selects the accumulator. -/
def destreg : RegNum := (curInst >>> 3 &&& 1).setWidth 6

/-- The accumulator as the `Uint32` triple of the source. -/
def Registers.readAcc (n : RegNum) : Acc := ⟨r (regA2 + n), r (regA1 + n), r (regA0 + n)⟩

def Registers.writeAcc (n : RegNum) (d : Acc) : Registers :=
  update (update (update r (regA2 + n) d.w0) (regA1 + n) d.w1) (regA0 + n) d.w2

def signExtend24 (w1 w2 : BitVec 32) : Acc := ⟨if w1.getLsbD 23 then 0xff else 0, w1, w2⟩

/-- `X` or `Y` as a 56-bit operand. -/
def Registers.readLong (srcreg : Bool) : Acc :=
  if srcreg then signExtend24 (r regY1) (r regY0) else signExtend24 (r regX1) (r regX0)

/-! ## The condition codes -/

def Registers.ccrExtension : Registers :=
  let scaling := r regSr >>> srS0 &&& bitmask 2
  let value := d.w0 &&& 0xff
  let set (value : BitVec 32) (numbits : Nat) : Registers :=
    (r.clearSr (1#32 <<< srE)).setSr (if value = 0 ∨ value = bitmask numbits then 0 else 1#32 <<< srE)
  if scaling = 0 then set (value <<< 1 ||| (d.w1 >>> 23 &&& 1)) 9
  else if scaling = 1 then set value 8
  else if scaling = 2 then set (value <<< 2 ||| (d.w1 >>> 22 &&& 3)) 10
  else r

def Registers.ccrUnnormalized : Registers :=
  let scaling := r regSr >>> srS0 &&& bitmask 2
  let set (value : BitVec 32) : Registers :=
    (r.clearSr (1#32 <<< srU)).setSr (if value = 0 ∨ value = bitmask 2 then 1#32 <<< srU else 0)
  if scaling = 0 then set (d.w1 >>> 22 &&& 3)
  else if scaling = 1 then set ((d.w0 <<< 1 &&& 2) ||| (d.w1 >>> 23 &&& 1))
  else if scaling = 2 then set (d.w1 >>> 21 &&& 3)
  else r

def Registers.ccrNegative : Registers := (r.clearSr (1#32 <<< srN)).setSr ((d.w0 >>> 7 &&& 1) <<< srN)

def Registers.ccrZero : Registers :=
  let zeroed := d.w2 &&& bitmask 24 = 0 ∧ d.w1 &&& bitmask 24 = 0 ∧ d.w0 &&& bitmask 8 = 0
  (r.clearSr (1#32 <<< srZ)).setSr (if zeroed then 1#32 <<< srZ else 0)

/-! ## Instructions -/

def withCarry (op : Acc → Acc → BitVec 16 × Acc) (curInst : BitVec 32) (r : Registers) : Registers :=
  let curcarry := (r regSr).getLsbD srC
  let first := op (r.readLong (curInst.getLsbD 4)) (r.readAcc (destreg curInst))
  let second := if curcarry then op ⟨0, 0, 1⟩ first.2 else (0, first.2)
  let dest := second.2
  let r := r.writeAcc (destreg curInst) dest
  let r := (((r.ccrExtension dest).ccrUnnormalized dest).ccrNegative dest).ccrZero dest
  (r.clearSr (1#32 <<< srV ||| 1#32 <<< srC)).setSr ((first.1 ||| second.1).setWidth 32)

def adc : Registers := withCarry add56 curInst r

def sbc : Registers := withCarry sub56 curInst r

def divSource : RegNum :=
  let n := curInst >>> 4 &&& bitmask 2
  if n = 0 then regX0 else if n = 1 then regY0 else if n = 2 then regX1 else regY1

/-- `dsp_div`: one step of a division. -/
def div : Registers :=
  let source := signExtend24 (r (divSource curInst)) 0
  let dest := r.readAcc (destreg curInst)
  let shifted := asl56 dest
  let d := if dest.w0.getLsbD 7 ^^ source.w1.getLsbD 23 then (add56 source shifted.2).2
    else (sub56 source shifted.2).2
  let d : Acc := { d with w2 := d.w2 ||| (r regSr >>> srC &&& 1) }
  let r := (r.writeAcc (destreg curInst) d).clearSr (1#32 <<< srC ||| 1#32 <<< srV)
  let r := r.setSr ((1#32 - (d.w0 >>> 7 &&& 1)) <<< srC)
  let r := r.setSr (shifted.1.setWidth 32 &&& 1#32 <<< srL)
  r.setSr (shifted.1.setWidth 32 &&& 1#32 <<< srV)

end Aranym.Dsp
