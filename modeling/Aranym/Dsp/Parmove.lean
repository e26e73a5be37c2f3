import Aranym.Dsp.AluOps
import Aranym.Dsp.Memory

/-!
# Parallel moves

The sources of the moves of an instruction are read, and its address registers updated, before the operation of the
ALU; the destinations are written after it. In between the moves are kept in two places.

Source: `dsp_cpu.c`.
-/

namespace Aranym.Dsp

variable (numreg : RegNum) (r : Registers) (c : Core)

def accu24 : BitVec 32 × Bool :=
  let scaling := r regSr >>> srS0 &&& bitmask 2
  let n := numreg &&& 1
  let value := r (regA2 + n) &&& 0xff
  let limit (value : BitVec 32) (numbits : Nat) : BitVec 32 × Bool :=
    if value = 0 ∨ value = bitmask numbits then (r (regA1 + n), false)
    else if (r (regA2 + n)).getLsbD 7 then (0x00800000, true)
    else (0x007fffff, true)
  if scaling = 0 then limit (value <<< 1 ||| (r (regA1 + n) >>> 23 &&& 1)) 9
  else if scaling = 2 then limit (value <<< 2 ||| (r (regA1 + n) >>> 22 &&& 3)) 10
  else limit value 8

def Registers.setLimited (gotLimited : Bool) : Registers := if gotLimited then r.setSr (1#32 <<< srL) else r

/-- `dsp_pm_read_accu24` into a variable. -/
def pmReadAccu24 : BitVec 32 × Registers := ((accu24 numreg r).1, r.setLimited (accu24 numreg r).2)

inductive Dest where
  | reg (n : RegNum)
  | mem (space : Space) (address : BitVec 32)
  deriving DecidableEq

structure Moves where
  first : List (Dest × BitVec 32)
  second : List (Dest × BitVec 32)

def isAccu : Prop := numreg = regA ∨ numreg = regB

instance (numreg : RegNum) : Decidable (isAccu numreg) := inferInstanceAs (Decidable (_ ∨ _))

def pmWritereg (src : Acc) : List (Dest × BitVec 32) :=
  if isAccu numreg then
    [(.reg (regA2 + (numreg &&& 1)), src.w0), (.reg (regA1 + (numreg &&& 1)), src.w1),
      (.reg (regA0 + (numreg &&& 1)), src.w2)]
  else [(.reg numreg, src.w1)]

def moveWords (value : BitVec 32) : Acc :=
  ⟨if value.getLsbD 23 then 0xff else 0, value &&& bitmask (registersMask numreg), 0⟩

def xySpace (memspace : Bool) : Space := if memspace then .y else .x

def registersLmove (n : Nat) : RegNum × RegNum :=
  [(regA1, regA0), (regB1, regB0), (regX1, regX0), (regY1, regY0),
    (regA, regA), (regB, regB), (regA, regB), (regB, regA)].getD n (regNull, regNull)

namespace Core

def readSource : BitVec 32 × Core :=
  if isAccu numreg then
    let x := pmReadAccu24 numreg c.registers
    (x.1, { c with registers := x.2 })
  else (c.registers numreg, c)

def readOperand (space : Space) (address : BitVec 32) (immediate : Bool) (c : Core) : BitVec 32 × Core :=
  if immediate then (address, c) else c.readMemory space (address.setWidth 16)

def moveMemory (space : Space) (address : BitVec 32) (immediate : Bool) (numreg : RegNum) (write : Bool) (c : Core) :
    List (Dest × BitVec 32) × Core :=
  if write then
    let x := c.readOperand space address immediate
    (pmWritereg numreg (moveWords numreg x.1), x.2)
  else
    let x := c.readSource numreg
    ([(.mem space address, x.1)], x.2)

/-! ## The kinds of moves -/

/-- `S,x:ea x0,D` and `S,y:ea y0,D`. -/
def pm0 : Moves × Core :=
  let memspace := c.curInst.getLsbD 15
  let numreg : RegNum := (c.curInst >>> 16 &&& 1).setWidth 6
  let (address, _, c) := c.calcEa ((c.curInst >>> 8).setWidth 6)
  let x := pmReadAccu24 numreg c.registers
  let c := { c with registers := x.2 }
  let value := c.registers (if memspace then regY0 else regX0)
  (⟨[(.mem (xySpace memspace) address, x.1)], pmWritereg (regA + numreg) (signExtend24 value 0)⟩, c)

/-- The register of the move to or from memory in `dsp_pm_1` and `dsp_pm_8`: one of `data` and the next, or an
accumulator. -/
def pmRegister (data : RegNum) (n : BitVec 32) : RegNum :=
  if n = 0 then data else if n = 1 then data + 1 else if n = 2 then regA else regB

/-- `x:ea,D1 S2,D2` and `S1,D1 y:ea,D2`. -/
def pm1 : Moves × Core :=
  let inst := c.curInst
  let memspace := inst.getLsbD 14
  let (address, retour, c) := c.calcEa ((inst >>> 8).setWidth 6)
  let numreg := if memspace then pmRegister regY0 (inst >>> 16 &&& bitmask 2)
    else pmRegister regX0 (inst >>> 18 &&& bitmask 2)
  let (first, c) := c.moveMemory (xySpace memspace) address retour numreg (inst.getLsbD 15)
  let srcreg : RegNum := regA + (if memspace then inst >>> 19 &&& 1 else inst >>> 17 &&& 1).setWidth 6
  let x := pmReadAccu24 srcreg c.registers
  let c := { c with registers := x.2 }
  let dstreg : RegNum := if memspace then regX0 + (inst >>> 18 &&& 1).setWidth 6
    else regY0 + (inst >>> 16 &&& 1).setWidth 6
  (⟨first, [(.reg dstreg, x.1 &&& bitmask (registersMask dstreg))]⟩, c)

def pm22 : Moves × Core :=
  let srcreg : RegNum := (c.curInst >>> 13 &&& bitmask 5).setWidth 6
  let dstreg : RegNum := (c.curInst >>> 8 &&& bitmask 5).setWidth 6
  if isAccu srcreg then
    let x := pmReadAccu24 srcreg c.registers
    (⟨pmWritereg dstreg (signExtend24 x.1 0), []⟩, { c with registers := x.2 })
  else
    let value := c.registers srcreg &&& bitmask (registersMask srcreg)
    (⟨pmWritereg dstreg (if isAccu dstreg then signExtend24 value 0 else ⟨0, value, 0⟩), []⟩, c)

/-- `#xx,R`. The short value is the high byte of the registers that hold fractions. -/
def pm3 : Moves × Core :=
  let dest : RegNum := (c.curInst >>> 16 &&& bitmask 5).setWidth 6
  let srcvalue := c.curInst >>> 8 &&& bitmask 8
  let fraction := dest = regX0 ∨ dest = regX1 ∨ dest = regY0 ∨ dest = regY1 ∨ isAccu dest
  let srcvalue := if fraction then srcvalue <<< 16 else srcvalue
  let sign : BitVec 32 := if isAccu dest ∧ srcvalue.getLsbD 23 then 0xff else 0
  (⟨pmWritereg dest ⟨sign, srcvalue &&& bitmask (registersMask dest), 0⟩, []⟩, c)

/-- No move, an update of an address register, `S,D`, or `#xx,D`. -/
def pm2 : Moves × Core :=
  let value := c.curInst >>> 8
  if value &&& 0xffff = 0x2000 then (⟨[], []⟩, c)
  else if value &&& 0xffe0 = 0x2040 then
    let (_, _, c) := c.calcEa ((value &&& bitmask 5).setWidth 6)
    (⟨[], []⟩, c)
  else if value &&& 0xfc00 = 0x2000 then c.pm22
  else c.pm3

/-- `l:aa,D`, `S,l:aa`, `l:ea,D` and `S,l:ea`. -/
def pm4x (lAddr : BitVec 32) (c : Core) : Moves × Core :=
  let lAddr := lAddr &&& bitmask 16
  let numreg := ((c.curInst >>> 16 &&& bitmask 2) ||| (c.curInst >>> 17 &&& 1#32 <<< 2)).toNat
  let regs := registersLmove numreg
  if c.curInst.getLsbD 15 then
    let (x, c) := c.readMemory .x (lAddr.setWidth 16)
    let (y, c) := c.readMemory .y (lAddr.setWidth 16)
    let src := moveWords regs.1 x
    if regs.1 = regs.2 then
      -- all 56 bits of an accumulator
      (⟨pmWritereg regs.1 { src with w2 := y &&& bitmask (registersMask regs.2) }, []⟩, c)
    else (⟨pmWritereg regs.1 src, pmWritereg regs.2 (moveWords regs.2 y)⟩, c)
  else
    let (high, low, r) : BitVec 32 × BitVec 32 × Registers :=
      if numreg < 4 then (c.registers regs.1, c.registers regs.2, c.registers)
      else if numreg < 6 then
        let x := accu24 regs.1 c.registers
        let low := if x.2 then (if x.1.getLsbD 23 then 0 else 0xffffff) else c.registers (regA0 + (regs.1 &&& 1))
        (x.1, low, c.registers.setLimited x.2)
      else
        let x := pmReadAccu24 regs.1 c.registers
        let y := pmReadAccu24 regs.2 x.2
        (x.1, y.1, y.2)
    (⟨[(.mem .x lAddr, high)], [(.mem .y lAddr, low)]⟩, { c with registers := r })

def pmAddress : BitVec 32 × Bool × Core :=
  let value := c.curInst >>> 8 &&& bitmask 6
  if c.curInst.getLsbD 14 then c.calcEa (value.setWidth 6) else (value, false, c)

/-- A register and `x:` or `y:` memory. -/
def pm5 : Moves × Core :=
  let inst := c.curInst
  let (address, retour, c) := c.pmAddress
  let numreg : RegNum := ((inst >>> 16 &&& bitmask 3) ||| (inst >>> 17 &&& bitmask 2 <<< 3)).setWidth 6
  let (first, c) := c.moveMemory (xySpace (inst.getLsbD 19)) address retour numreg (inst.getLsbD 15)
  (⟨first, []⟩, c)

def pm4 : Moves × Core :=
  let value := (c.curInst >>> 16 &&& bitmask 3) ||| (c.curInst >>> 17 &&& bitmask 2 <<< 3)
  if value >>> 2 = 0 then
    let (address, _, c) := c.pmAddress
    c.pm4x address
  else c.pm5

def pm8Ea (inst : BitVec 32) : BitVec 6 × BitVec 6 :=
  let ea1 : BitVec 6 := (inst >>> 8 &&& bitmask 5).setWidth 6
  let ea1 := if ea1 >>> 3 = 0 then ea1 ||| 0x20 else ea1
  let ea2 : BitVec 6 := ((inst >>> 13 &&& bitmask 2) ||| (inst >>> 17 &&& bitmask 2 <<< 3)).setWidth 6
  let ea2 := if ea1 &&& 4 = 0 then ea2 ||| 4 else ea2
  let ea2 := if ea2 >>> 3 = 0 then ea2 ||| 0x20 else ea2
  (ea1, ea2)

def pm8 : Moves × Core :=
  let inst := c.curInst
  let (address1, _, c) := c.calcEa (pm8Ea inst).1
  let (address2, _, c) := c.calcEa (pm8Ea inst).2
  let numreg1 := pmRegister regX0 (inst >>> 18 &&& bitmask 2)
  let numreg2 := pmRegister regY0 (inst >>> 16 &&& bitmask 2)
  let (first, c) := c.moveMemory .x address1 false numreg1 (inst.getLsbD 15)
  let (second, c) := c.moveMemory .y address2 false numreg2 (inst.getLsbD 22)
  (⟨first, second⟩, c)

/-! ## The dispatcher -/

def parmoveRead : Moves × Core :=
  match (c.curInst >>> 20 &&& bitmask 4).toNat with
  | 0 => c.pm0
  | 1 => c.pm1
  | 2 => c.pm2
  | 3 => c.pm3
  | 4 => c.pm4
  | 5 => c.pm5
  | 6 => c.pm5
  | 7 => c.pm5
  | _ => c.pm8

def writeDest (move : Dest × BitVec 32) : Core :=
  match move.1 with
  | .reg n => c.setReg n move.2
  | .mem space address => c.writeMemory space (address.setWidth 16) move.2

def parmoveWrite (moves : Moves) (c : Core) : Core := moves.second.foldl writeDest (moves.first.foldl writeDest c)

def undefined : Core := { c with curInstLen := 0 }

def alu : Core :=
  if aluOp c.curInst = .undefined then c.undefined
  else { c with registers := (aluOp c.curInst).run c.curInst c.registers }

/-- An instruction with its parallel moves. -/
def parallel : Core :=
  let x := c.parmoveRead
  x.2.alu.parmoveWrite x.1

def movePm : Core :=
  let x := c.parmoveRead
  x.2.parmoveWrite x.1

end Core

end Aranym.Dsp
