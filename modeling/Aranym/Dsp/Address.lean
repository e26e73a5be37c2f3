import Mathlib.Algebra.Group.Nat.Defs
import Aranym.Dsp.Defs

/-!
# Updates of the address registers

An address register `Rn` is updated by an offset in one of three ways, which its modifier register `Mn`
chooses: linear, modulo the size of a buffer, or with the carry running from the high bits to the low ones.

Source: `dsp_cpu.c`.
-/

namespace Aranym.Dsp

open Function

variable (numreg : BitVec 3)

def regR : RegNum := regR0 + numreg.setWidth 6
def regN : RegNum := regN0 + numreg.setWidth 6
def regM : RegNum := regM0 + numreg.setWidth 6

theorem regN_ne_regR : regN numreg ≠ regR numreg := by
  revert numreg
  decide

theorem regM_ne_regR : regM numreg ≠ regR numreg := by
  revert numreg
  decide

theorem ne_regR {n} (hn : 0x20 ≤ n) (numreg : BitVec 3) : n ≠ regR numreg := by
  rintro rfl
  revert numreg
  decide

/-! ## Reversed carry -/

def firstBit (value : BitVec 32) : Nat → Nat → Nat
  | 0, i => i
  | fuel + 1, i => if value.getLsbD i then i else firstBit value fuel (i + 1)

def revbits (value : BitVec 32) : Nat := firstBit value 16 0 + 1

def reverseLow (revbits : Nat) (x : BitVec 32) : BitVec 32 :=
  (List.range revbits).foldl
    (fun value i => if x.getLsbD i then value ||| 1#32 <<< (revbits - i - 1) else value)
    (x &&& (bitmask 16 - bitmask revbits))

def updateRnBitreverse (r : Registers) : Registers :=
  let n := revbits (r (regN numreg))
  let rReg := r (regR numreg)
  let value := (reverseLow n rReg + 1) &&& bitmask n
  let rReg := rReg &&& (bitmask 16 - bitmask n) ||| value
  update r (regR numreg) (reverseLow n rReg)

/-! ## Modulo -/

/-- The smallest power of two that is not below `modulo`, and the mask of its multiples. The loop ends within
16 rounds if `modulo` is at most `2 ^ 15`. -/
def bufferLoop (modulo : BitVec 16) : Nat → BitVec 16 × BitVec 16 → BitVec 16 × BitVec 16
  | 0, b => b
  | fuel + 1, b => if b.1 < modulo then bufferLoop modulo fuel (b.1 <<< 1, b.2 <<< 1) else b

def skipUp (bufsize : BitVec 16) : Nat → BitVec 16 × BitVec 16 → BitVec 16 × BitVec 16
  | 0, x => x
  | fuel + 1, x => if (bufsize.toNat : Int) < x.2.toInt then skipUp bufsize fuel (x.1 + bufsize, x.2 - bufsize) else x

def skipDown (bufsize : BitVec 16) : Nat → BitVec 16 × BitVec 16 → BitVec 16 × BitVec 16
  | 0, x => x
  | fuel + 1, x => if x.2.toInt < -(bufsize.toNat : Int) then skipDown bufsize fuel (x.1 - bufsize, x.2 + bufsize) else x

/-- `r_reg` and `modifier` are signed, the bounds are not. -/
def updateRnModulo (modifier : BitVec 16) (r : Registers) : Registers :=
  let modulo := (r (regM numreg) + 1).setWidth 16
  let buffer := bufferLoop modulo 16 (1, 0xffff)
  let rReg := (r (regR numreg)).setWidth 16
  let lobound := rReg &&& buffer.2
  let hibound := lobound + modulo - 1
  let x := if (modulo.toNat : Int) < modifier.toInt
    then skipDown buffer.1 (2 ^ 15) (skipUp buffer.1 (2 ^ 15) (rReg, modifier)) else (rReg, modifier)
  let rReg := x.1 + x.2
  let rReg := if modifier.toInt ≠ modulo.toNat then
      if (hibound.toNat : Int) < rReg.toInt then rReg - modulo
      else if rReg.toInt < lobound.toNat then rReg + modulo
      else rReg
    else rReg
  update r (regR numreg) (rReg.setWidth 32)

def updateRn (modifier : BitVec 16) (r : Registers) : Registers :=
  let mReg := (r (regM numreg)).setWidth 16
  if mReg = 0 then updateRnBitreverse numreg r
  else if 1 ≤ mReg ∧ mReg ≤ 32767 then updateRnModulo numreg modifier r
  else if mReg = 65535 then
    update r (regR numreg) (((r (regR numreg)).setWidth 16 + modifier).setWidth 32)
  else r

end Aranym.Dsp
