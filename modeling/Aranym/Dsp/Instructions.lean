import Aranym.Dsp.Parmove

/-!
# Instructions without parallel moves

Source: `dsp_cpu.c`.
-/

namespace Aranym.Dsp

open Function

variable (c : Core) (numreg : RegNum) (value : BitVec 32)

/-! ## Condition codes -/

def ccBit (sr : BitVec 32) : Nat → Bool
  | 0 => sr.getLsbD srC
  | 1 => sr.getLsbD srN ^^ sr.getLsbD srV
  | 2 => sr.getLsbD srZ
  | 3 => sr.getLsbD srN
  | 4 => sr.getLsbD srZ || (!sr.getLsbD srU && !sr.getLsbD srE)
  | 5 => sr.getLsbD srE
  | 6 => sr.getLsbD srL
  | _ => sr.getLsbD srZ || (sr.getLsbD srN ^^ sr.getLsbD srV)

def calcCc (ccCode sr : BitVec 32) : Bool := ccBit sr (ccCode &&& bitmask 3).toNat == ccCode.getLsbD 3

namespace Core

def middle : RegNum := if isAccu numreg then regA1 + (numreg &&& 1) else numreg

def field : BitVec 6 := (c.curInst >>> 8).setWidth 6

def memspace : Space := xySpace (c.curInst.getLsbD 6)

def setAccu : Core :=
  { c with registers := c.registers.writeAcc (numreg &&& 1) (signExtend24 (value &&& bitmask 24) 0) }

def setMasked : Core := c.setReg numreg (value &&& bitmask (registersMask numreg))

def pauseThread : Core := c

/-! ## Status and mode register -/

def andi : Core :=
  let value := c.curInst >>> 8 &&& bitmask 8
  match (c.curInst &&& bitmask 2).toNat with
  | 0 => c.setReg regSr (c.registers regSr &&& (value <<< 8 ||| bitmask 8))
  | 1 => c.setReg regSr (c.registers regSr &&& (bitmask 8 <<< 8 ||| value))
  | 2 => c.setReg regOmr (c.registers regOmr &&& value)
  | _ => c

def ori : Core :=
  let value := c.curInst >>> 8 &&& bitmask 8
  match (c.curInst &&& bitmask 2).toNat with
  | 0 => c.setReg regSr (c.registers regSr ||| value <<< 8)
  | 1 => c.setReg regSr (c.registers regSr ||| value)
  | 2 => c.setReg regOmr (c.registers regOmr ||| value)
  | _ => c

/-! ## Bits -/

def setCarry (newcarry : Bool) : Core :=
  { c with registers := (c.registers.clearSr (1#32 <<< srC)).setSr ((BitVec.ofBool newcarry).setWidth 32 <<< srC) }

def numbit : Nat := (c.curInst &&& bitmask 5).toNat

def bitRegister : Prop := c.curInst >>> 14 &&& bitmask 2 = 3

instance (c : Core) : Decidable c.bitRegister := inferInstanceAs (Decidable (_ = _))

/-- `aa`, `ea` or `pp`. -/
def bitAddress : BitVec 16 × Core :=
  let mode := c.curInst >>> 14 &&& bitmask 2
  if mode = 0 then (c.field.setWidth 16, c)
  else if mode = 1 then
    let (address, _, c) := c.calcEa c.field
    (address.setWidth 16, c)
  else (0xffc0 + c.field.setWidth 16, c)

def bitRead : BitVec 32 × Core :=
  if c.bitRegister then (c.registers (middle c.field), c)
  else
    let x := c.bitAddress
    x.2.readMemory c.memspace x.1

def bitModify (change : Bool → BitVec 32 → Nat → BitVec 32) (extension : Bool → BitVec 32) (c : Core) : Core :=
  let n := c.numbit
  if c.bitRegister then
    let srcreg := c.field
    let value := c.registers (middle srcreg)
    let newcarry := value.getLsbD n
    let c := c.setReg (middle srcreg) (change newcarry value n)
    let c := if isAccu srcreg ∧ n = 23 then c.setReg (regA2 + (srcreg &&& 1)) (extension newcarry) else c
    c.setCarry newcarry
  else
    let space := c.memspace
    let (address, c) := c.bitAddress
    let (value, c) := c.readMemory space address
    let newcarry := value.getLsbD n
    (c.writeMemory space address (change newcarry value n)).setCarry newcarry

def bchg : Core :=
  c.bitModify (fun newcarry value n => if newcarry then value - 1#32 <<< n else value + 1#32 <<< n)
    fun newcarry => if newcarry then 0x00 else 0xff

def bclr : Core := c.bitModify (fun _ value n => value &&& (0xffffffff - 1#32 <<< n)) fun _ => 0x00

def bset : Core := c.bitModify (fun _ value n => value ||| 1#32 <<< n) fun _ => 0xff

def btst : Core :=
  let n := c.numbit
  let (value, c) := c.bitRead
  c.setCarry (value.getLsbD n)

/-! ## Jumps -/

def jumpTo (newpc : BitVec 32) (c : Core) : Core := { c with pc := newpc.setWidth 16, curInstLen := 0 }

def pushReturn : Core := c.stackPush (c.pc.setWidth 32 + BitVec.ofNat 32 c.curInstLen) (c.registers regSr)

def jumpBit (b sub : Bool) (c : Core) : Core :=
  let n := c.numbit
  let (value, c) := c.bitRead
  let c := { c with curInstLen := c.curInstLen + 1 }
  if value.getLsbD n = b then
    let c := if sub then c.pushReturn else c
    c.jumpTo (c.readMemoryP (c.pc + 1))
  else c

def jclr : Core := c.jumpBit false false
def jset : Core := c.jumpBit true false
def jsclr : Core := c.jumpBit false true
def jsset : Core := c.jumpBit true true

/-- The target and the condition of `dsp_jcc` and `dsp_jscc`; `ea` and `short` are the high bytes of their forms. -/
def jumpCondition (ea short : BitVec 32) (c : Core) : BitVec 32 × BitVec 32 × Core :=
  let inst := c.curInst
  let high := inst >>> 16 &&& bitmask 8
  if high = ea then
    let (newpc, _, c) := c.calcEa c.field
    (newpc, inst &&& bitmask 4, c)
  else if high = short then (inst &&& bitmask 12, inst >>> 12 &&& bitmask 4, c)
  else (c.pc.setWidth 32, 0, c)

def jcc : Core :=
  let (newpc, ccCode, c) := c.jumpCondition 0x0a 0x0e
  if calcCc ccCode (c.registers regSr) then c.jumpTo newpc else c

def jscc : Core :=
  let (newpc, ccCode, c) := c.jumpCondition 0x0b 0x0f
  if calcCc ccCode (c.registers regSr) then c.pushReturn.jumpTo newpc else c

def jmp : Core :=
  let high := c.curInst >>> 16 &&& bitmask 8
  let (newpc, c) : BitVec 32 × Core :=
    if high = 0x0a then
      let (newpc, _, c) := c.calcEa c.field
      (newpc, c)
    else if high = 0x0c then (c.curInst &&& bitmask 12, c)
    else (c.pc.setWidth 32, c)
  let c := { c with curInstLen := 0 }
  if newpc = c.pc.setWidth 32 then c.pauseThread else { c with pc := newpc.setWidth 16 }

def jsr : Core :=
  let (newpc, c) : BitVec 32 × Core :=
    if c.curInst >>> 12 &&& bitmask 4 = 0 then (c.curInst &&& bitmask 12, c)
    else
      let (newpc, _, c) := c.calcEa c.field
      (newpc, c)
  let c := if c.interruptState ≠ .long then c.pushReturn else { c with interruptState := .none }
  c.jumpTo newpc

def rti : Core :=
  let (top, c) := c.stackPop
  let (newpc, newsr) := top.getD (0, 0)
  (c.setReg regSr newsr).jumpTo newpc

def rts : Core :=
  let (top, c) := c.stackPop
  c.jumpTo (top.getD (0, 0)).1

/-! ## Loops -/

def endLoop : Core :=
  let (top, c) := c.stackPop
  let c := match top with
    | none => c
    | some x => c.setReg regSr x.2
  let (top, c) := c.stackPop
  match top with
  | none => c
  | some x => (c.setReg regLa x.1).setReg regLc x.2

def enddo : Core := c.endLoop

def loopMode : Nat := ((c.curInst >>> 14 &&& bitmask 2) <<< 1 ||| (c.curInst >>> 7 &&& 1)).toNat

/-- `#xx`. -/
def loopImm : BitVec 32 := (c.curInst >>> 8 &&& bitmask 8) + (c.curInst &&& bitmask 4) <<< 8

def loopCount (mask : BitVec 32) (c : Core) : Core :=
  match c.loopMode with
  | 0 =>
    let (value, c) := c.readMemory c.memspace (c.field.setWidth 16)
    c.setReg regLc (value &&& mask)
  | 2 =>
    let (address, _, c') := c.calcEa c.field
    let (value, c') := c'.readMemory c.memspace (address.setWidth 16)
    c'.setReg regLc (value &&& mask)
  | 4 => c.undefined
  | 6 =>
    let (value, c) := c.readSource c.field
    c.setReg regLc (value &&& bitmask 16)
  | _ => c.setReg regLc c.loopImm

def doLoop : Core :=
  let c := c.stackPush (c.registers regLa) (c.registers regLc)
  let c := c.setReg regLa (c.readMemoryP (c.pc + 1) &&& bitmask 16)
  let c := { c with curInstLen := c.curInstLen + 1 }
  let c := c.pushReturn
  let c := { c with registers := c.registers.setSr (1#32 <<< srLf) }
  c.loopCount (bitmask 16)

def rep : Core :=
  let c := c.setReg regLcsave (c.registers regLc)
  let c := c.loopCount (BitVec.allOnes 32)
  { c with pcOnRep := true, loopRep := true }

/-! ## Moves -/

def lua : Core :=
  let inst := c.curInst
  let srcreg := regR ((inst >>> 8).setWidth 3)
  let srcsave := c.registers srcreg
  let (_, _, c) := c.calcEa ((inst >>> 8 &&& bitmask 5).setWidth 6)
  let srcnew := c.registers srcreg
  let c := c.setReg srcreg srcsave
  c.setReg (if inst.getLsbD 3 then regN (inst.setWidth 3) else regR (inst.setWidth 3)) srcnew

/-- The control register of `MOVEC`, and the one of `MOVEM`. -/
def lowField : RegNum := c.curInst.setWidth 6

def movecReg : Core :=
  let numreg2 := c.field
  let numreg1 := c.lowField
  if c.curInst.getLsbD 15 then
    if isAccu numreg2 then
      let x := accu24 numreg2 c.registers
      -- the status register may be what is written
      let r := Registers.setLimited (update c.registers numreg1 x.1) x.2
      { c with registers := update r numreg1 (r numreg1 &&& bitmask (registersMask numreg1)) }
    else c.setMasked numreg1 (c.registers numreg2)
  else if isAccu numreg2 then c.setAccu numreg2 (c.registers numreg1)
  else c.setMasked numreg2 (c.registers numreg1)

def movecAa : Core :=
  let numreg := c.lowField
  if c.curInst.getLsbD 15 then
    let (value, c) := c.readMemory c.memspace (c.field.setWidth 16)
    c.setMasked numreg value
  else c.writeMemory c.memspace (c.field.setWidth 16) (c.registers numreg)

def movecImm : Core := c.setReg c.lowField (c.curInst >>> 8 &&& bitmask 8)

def movecEa : Core :=
  let inst := c.curInst
  let numreg := c.lowField
  let space := c.memspace
  let (address, retour, c) := c.calcEa c.field
  if inst.getLsbD 15 then
    let (value, c) := c.readOperand space address retour
    c.setMasked numreg value
  else c.writeMemory space (address.setWidth 16) (c.registers numreg)

def movec : Core :=
  match ((c.curInst >>> 14 &&& 5) ||| (c.curInst >>> 6 &&& 1#32 <<< 1)).toNat with
  | 3 => c.movecReg
  | 4 => c.movecAa
  | 5 => c.movecEa
  | 6 => c.movecImm
  | 7 => c.movecImm
  | _ => c.undefined

def writeRegister : Core := if isAccu numreg then c.setAccu numreg value else c.setMasked numreg value

def movem : Core :=
  let inst := c.curInst
  let numreg := c.lowField
  let (address, c) : BitVec 16 × Core :=
    if inst.getLsbD 14 then
      let (address, _, c) := c.calcEa c.field
      (address.setWidth 16, c)
    else (c.field.setWidth 16, c)
  if inst.getLsbD 15 then c.writeRegister numreg (c.readMemoryP address)
  else
    let (value, c) := c.readSource numreg
    c.writeMemory .p address value

def peripheral : BitVec 16 := 0xffc0 + (c.curInst.setWidth 6).setWidth 16

def movep0 : Core :=
  let address := c.peripheral
  let space := xySpace (c.curInst.getLsbD 16)
  let numreg := c.field
  if c.curInst.getLsbD 15 then
    let (value, c) := c.readSource numreg
    c.writeMemory space address value
  else
    let (value, c) := c.readMemory space address
    c.writeRegister numreg value

def movep1 : Core :=
  let inst := c.curInst
  let xyaddr := c.peripheral
  let space := xySpace (inst.getLsbD 16)
  let (paddr, _, c) := c.calcEa c.field
  if inst.getLsbD 15 then c.writeMemory space xyaddr (c.readMemoryP (paddr.setWidth 16))
  else
    let (value, c) := c.readMemory space xyaddr
    c.writeMemory .p (paddr.setWidth 16) value

def movep2 : Core :=
  let inst := c.curInst
  let peraddr := c.peripheral
  let perspace := xySpace (inst.getLsbD 16)
  let easpace := c.memspace
  let (address, retour, c) := c.calcEa c.field
  if inst.getLsbD 15 then
    let (value, c) := c.readOperand easpace address retour
    c.writeMemory perspace peraddr value
  else
    let (value, c) := c.readMemory perspace peraddr
    c.writeMemory easpace (address.setWidth 16) value

def movep : Core :=
  match (c.curInst >>> 6 &&& bitmask 2).toNat with
  | 0 => c.movep0
  | 1 => c.movep1
  | _ => c.movep2

def registersTcc (n : Nat) : RegNum × RegNum :=
  [(regB, regA), (regA, regB), (regNull, regNull), (regNull, regNull),
    (regNull, regNull), (regNull, regNull), (regNull, regNull), (regNull, regNull),
    (regX0, regA), (regX0, regB), (regY0, regA), (regY0, regB),
    (regX1, regA), (regX1, regB), (regY1, regA), (regY1, regB)].getD n (regNull, regNull)

def tcc : Core :=
  let inst := c.curInst
  if calcCc (inst >>> 12 &&& bitmask 4) (c.registers regSr) then
    let regs := registersTcc (inst >>> 3 &&& bitmask 4).toNat
    let src := if isAccu regs.1 then c.registers.readAcc (regs.1 &&& 1) else signExtend24 (c.registers regs.1) 0
    let r := c.registers.writeAcc (regs.2 &&& 1) src
    let c := { c with registers := r }
    if inst.getLsbD 16 then c.setReg (regR (inst.setWidth 3)) (c.registers (regR ((inst >>> 8).setWidth 3))) else c
  else c

/-! ## Arithmetic -/

def norm : Core :=
  let sr := c.registers regSr
  let curE := sr.getLsbD srE
  let curEuz := !curE && sr.getLsbD srU && !sr.getLsbD srZ
  let numreg := destreg c.curInst
  let dest := c.registers.readAcc numreg
  let rreg := regR ((c.curInst >>> 8).setWidth 3)
  let rn := c.registers rreg
  let (newsr, d, r) : BitVec 16 × Acc × Registers :=
    if curEuz then ((asl56 dest).1, (asl56 dest).2, update c.registers rreg ((rn - 1) &&& bitmask 16))
    else if curE then ((asr56 dest).1, (asr56 dest).2, update c.registers rreg ((rn + 1) &&& bitmask 16))
    else (0, dest, c.registers)
  { c with registers := ((r.writeAcc numreg d).ccr d).setVC newsr }

/-! ## Others -/

def nop : Core := c
def illegal : Core := c
def resetPeripherals : Core := c
def stop : Core := c.pauseThread
def wait : Core := c.pauseThread
def swi : Core := { c with swiInter := true }

end Core

end Aranym.Dsp
