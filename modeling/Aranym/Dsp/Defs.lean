import Mathlib.Logic.Function.Basic

/-!
# The DSP56001

The registers of the DSP core are an array of 32-bit words that is indexed by the register numbers of the
instruction set. A word holds fewer bits than it could: 24 for most registers, 8 for the extensions of the
accumulators.

Source: `dsp_core.h`, `dsp_cpu.h`, `dsp_cpu.c`.
-/

namespace Aranym.Dsp

open Function

def bitmask (n : Nat) : BitVec 32 := (1#32 <<< n) - 1#32

/-! ## Registers -/

abbrev RegNum := BitVec 6

def regNull : RegNum := 0x00
def regX0 : RegNum := 0x04
def regX1 : RegNum := 0x05
def regY0 : RegNum := 0x06
def regY1 : RegNum := 0x07
def regA0 : RegNum := 0x08
def regB0 : RegNum := 0x09
def regA2 : RegNum := 0x0a
def regB2 : RegNum := 0x0b
def regA1 : RegNum := 0x0c
def regB1 : RegNum := 0x0d
def regA : RegNum := 0x0e
def regB : RegNum := 0x0f
def regR0 : RegNum := 0x10
def regN0 : RegNum := 0x18
def regM0 : RegNum := 0x20
def regLcsave : RegNum := 0x30
def regSr : RegNum := 0x39
def regOmr : RegNum := 0x3a
def regSp : RegNum := 0x3b
def regSsh : RegNum := 0x3c
def regSsl : RegNum := 0x3d
def regLa : RegNum := 0x3e
def regLc : RegNum := 0x3f

abbrev Registers := RegNum → BitVec 32

def registersMask (n : RegNum) : Nat :=
  [0, 0, 0, 0, 24, 24, 24, 24, 24, 24, 8, 8, 24, 24, 24, 24,
    16, 16, 16, 16, 16, 16, 16, 16, 16, 16, 16, 16, 16, 16, 16, 16,
    16, 16, 16, 16, 16, 16, 16, 16, 0, 0, 0, 0, 0, 0, 0, 0,
    0, 0, 0, 0, 0, 0, 0, 0, 0, 16, 8, 6, 6, 6, 16, 16].getD n.toNat 0

/-! ## The status register -/

def srC : Nat := 0x00
def srV : Nat := 0x01
def srZ : Nat := 0x02
def srN : Nat := 0x03
def srU : Nat := 0x04
def srE : Nat := 0x05
def srL : Nat := 0x06
def srI0 : Nat := 0x08
def srI1 : Nat := 0x09
def srS0 : Nat := 0x0a
def srS1 : Nat := 0x0b
def srT : Nat := 0x0d
def srLf : Nat := 0x0f

def omrDe : Nat := 0x02

def flag (b : Bool) (n : Nat) : BitVec 16 := (BitVec.ofBool b).setWidth 16 <<< n

def Registers.clearSr (r : Registers) (mask : BitVec 32) : Registers :=
  update r regSr (r regSr &&& (bitmask 16 - mask))

def Registers.setSr (r : Registers) (bits : BitVec 32) : Registers :=
  update r regSr (r regSr ||| bits)

end Aranym.Dsp
