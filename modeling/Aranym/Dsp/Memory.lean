import Aranym.Dsp.Core

/-!
# Memory and stack of the DSP, effective addresses

The spaces `x:`, `y:` and `p:` have internal memories of their own, but share the external one: `x:` is its upper
half, seen from `y:` and `p:`. The last 64 words of `x:` and `y:` are the peripherals.

Source: `dsp_cpu.c`.
-/

namespace Aranym.Dsp.Core

open Function

variable (c : Core) (i : BitVec 32) (space : Space) (address : BitVec 16)

/-! ## Memory -/

def setRamint (n : BitVec 9) (value : BitVec 32) : Core :=
  { c with ramint := update c.ramint space (update (c.ramint space) n value) }

def setRam (n : BitVec 15) (value : BitVec 32) : Core := { c with ram := update c.ram n value }

def romOn : Bool := (c.registers regOmr).getLsbD omrDe

def external : BitVec 15 := (if space = .x then address + 0x4000 else address).setWidth 15

def readMemoryP : BitVec 32 :=
  if address < 0x200 then c.ramint .p (address.setWidth 9) &&& bitmask 24
  else c.ram (address.setWidth 15) &&& bitmask 24

def readMemory (c : Core) : BitVec 32 × Core :=
  if address < 0x100 then (c.ramint space (address.setWidth 9) &&& bitmask 24, c)
  else if space = .p then (c.readMemoryP address, c)
  else if c.romOn ∧ address < 0x200 then (c.rom space (address.setWidth 9) &&& bitmask 24, c)
  else if 0xffc0 ≤ address then
    let n := (address - 0xffc0).setWidth 6
    -- the word is taken after the next one has been transferred
    let c := if space = .x ∧ n = hostHrx then c.hostportDspread else c
    (c.periph space n &&& bitmask 24, c)
  else (c.ram (external space address) &&& bitmask 24, c)

def writePeriphX (n : BitVec 6) (value : BitVec 32) (c : Core) : Core :=
  if n = hostHrx then (c.setPeriph .x hostHrx value).hostportDspwrite
  else if n = hostHcr then
    let c := c.setPeriph .x hostHcr value
    let flags := 1#8 <<< isrHf3 ||| 1#8 <<< isrHf2
    c.setHost cpuIsr (c.isr &&& (0xff - flags) ||| value.setWidth 8 &&& flags)
  else if n = hostHsr then c
  else c.setPeriph .x n value

def writeMemory (value : BitVec 32) (c : Core) : Core :=
  let value := value &&& bitmask 24
  if address < 0x100 then c.setRamint space (address.setWidth 9) value
  else if space = .p then
    if address < 0x200 then c.setRamint .p (address.setWidth 9) value
    else c.setRam (external .p address) value
  else if c.romOn ∧ address < 0x200 then c
  else if 0xffc0 ≤ address then
    let n := (address - 0xffc0).setWidth 6
    if space = .x then c.writePeriphX n value else c.setPeriph .y n value
  else c.setRam (external space address) value

/-! ## Stack -/

def setStackSsh (value : BitVec 16) : Core :=
  if i.toNat < stackSize then { c with stackSsh := update c.stackSsh i.toNat value }
  else { c with wild := true }

def setStackSsl (value : BitVec 16) : Core :=
  if i.toNat < stackSize then { c with stackSsl := update c.stackSsl i.toNat value }
  else { c with wild := true }

def checkStack : Core := if i.toNat < stackSize then c else { c with wild := true }

def stackPush (curpc cursr : BitVec 32) (c : Core) : Core :=
  if c.registers regSp = 0x0f then c
  else
    let c := c.setReg regSp (c.registers regSp + 1)
    let c := c.setReg regSsh (c.registers regSsh + 1)
    let c := c.setReg regSsl (c.registers regSsl + 1)
    let c := c.setStackSsh (c.registers regSsh) (curpc.setWidth 16)
    c.setStackSsl (c.registers regSsl) (cursr.setWidth 16)

def stackPop : Option (BitVec 32 × BitVec 32) × Core :=
  if c.registers regSp = 0x00 then (none, c)
  else
    let newpc := (c.stackSsh (c.registers regSsh).toNat).setWidth 32
    let newsr := (c.stackSsl (c.registers regSsl).toNat).setWidth 32
    let c := (c.checkStack (c.registers regSsh)).checkStack (c.registers regSsl)
    let c := c.setReg regSp (c.registers regSp - 1)
    let c := c.setReg regSsh (c.registers regSsh - 1)
    let c := c.setReg regSsl (c.registers regSsl - 1)
    (some (newpc, newsr), c)

/-! ## Effective addresses -/

def updateRn (numreg : BitVec 3) (modifier : BitVec 16) (c : Core) : Core :=
  { c with registers := Dsp.updateRn numreg modifier c.registers }

def calcEa (eaMode : BitVec 6) (c : Core) : BitVec 32 × Bool × Core :=
  let numreg := eaMode.setWidth 3
  let rn := c.registers (regR numreg)
  let nn := c.registers (regN numreg)
  match (eaMode >>> 3).toNat with
  -- (Rx)-Nx, (Rx)+Nx, (Rx)-, (Rx)+, (Rx)
  | 0 => (rn, false, c.updateRn numreg ((-nn).setWidth 16))
  | 1 => (rn, false, c.updateRn numreg (nn.setWidth 16))
  | 2 => (rn, false, c.updateRn numreg (-1))
  | 3 => (rn, false, c.updateRn numreg 1)
  | 4 => (rn, false, c)
  -- (Rx+Nx)
  | 5 =>
    let c := c.updateRn numreg (nn.setWidth 16)
    (c.registers (regR numreg), false, c.setReg (regR numreg) rn)
  -- aa
  | 6 => (c.readMemoryP (c.pc + 1), decide (numreg ≠ 0), { c with curInstLen := c.curInstLen + 1 })
  -- -(Rx)
  | _ =>
    let c := c.updateRn numreg (-1)
    (c.registers (regR numreg), false, c)

end Aranym.Dsp.Core
