import Aranym.Dsp.Instructions

/-!
# The CPU of the DSP

The instruction at the program counter is executed. Then the program counter is advanced, except that it stays on an
instruction that `REP` repeats and goes back at the end of a `DO` loop.

Source: `dsp_cpu.c`.
-/

namespace Aranym.Dsp.Core

variable (c : Core)

/-! ## Decoding -/

def opcode8h0 : Core :=
  if c.curInst ≤ 0x00008c then
    match c.curInst.toNat with
    | 0x000000 => c.nop
    | 0x000004 => c.rti
    | 0x000005 => c.illegal
    | 0x000006 => c.swi
    | 0x00000c => c.rts
    | 0x000084 => c.resetPeripherals
    | 0x000086 => c.wait
    | 0x000087 => c.stop
    | 0x00008c => c.enddo
    | _ => c
  else if c.curInst &&& 0xf8 = 0xb8 then c.andi
  else if c.curInst &&& 0xf8 = 0xf8 then c.ori
  else c

def opcode8h1 : Core :=
  if c.curInst &&& 0xfff000 = 0x018000 then { c with registers := div c.curInst c.registers }
  else if c.curInst &&& 0xfff000 = 0x01d000 then c.norm
  else c

def opcode8h4 : Core :=
  match (c.curInst >>> 5 &&& bitmask 3).toNat with
  | 0 => c.lua
  | 5 => c.movec
  | _ => c

def opcode8h6 : Core := if c.curInst.getLsbD 5 then c.rep else c.doLoop

/-- `opcodes_0809`. -/
def opcode8h8 : Core := if c.curInst.getLsbD 14 then c.movep else c.movePm

def bitOpcode (inst : BitVec 32) : Nat := ((inst >>> 11 &&& bitmask 2 <<< 3) ||| (inst >>> 5 &&& bitmask 3)).toNat

/-- `opcodes_0a`. -/
def opcode8hA : Core :=
  match bitOpcode c.curInst with
  | 0x18 => c.jclr
  | 0x19 => c.jset
  | 0x1a => c.bclr
  | 0x1b => c.bset
  | 0x1c => c.jmp
  | 0x1d => c.jcc
  | 0x1e => c.undefined
  | 0x1f => c.undefined
  | n => match n % 8 with
    | 0 => c.bclr
    | 1 => c.bset
    | 2 => c.bclr
    | 3 => c.bset
    | 4 => c.jclr
    | 5 => c.jset
    | 6 => c.jclr
    | _ => c.jset

/-- `opcodes_0b`. Both entries for a bit of a register jump if it is clear. -/
def opcode8hB : Core :=
  match bitOpcode c.curInst with
  | 0x18 => c.jsclr
  | 0x19 => c.jsclr
  | 0x1a => c.bchg
  | 0x1b => c.btst
  | 0x1c => c.jsr
  | 0x1d => c.jscc
  | 0x1e => c.undefined
  | 0x1f => c.undefined
  | n => match n % 8 with
    | 0 => c.bchg
    | 1 => c.btst
    | 2 => c.bchg
    | 3 => c.btst
    | 4 => c.jsclr
    | 5 => c.jsset
    | 6 => c.jsclr
    | _ => c.jsset

def opcodes8h (value : Nat) (c : Core) : Core :=
  match value with
  | 0x0 => c.opcode8h0
  | 0x1 => c.opcode8h1
  | 0x2 => c.tcc
  | 0x3 => c.tcc
  | 0x4 => c.opcode8h4
  | 0x5 => c.movec
  | 0x6 => c.opcode8h6
  | 0x7 => c.movem
  | 0x8 => c.opcode8h8
  | 0x9 => c.opcode8h8
  | 0xa => c.opcode8hA
  | 0xb => c.opcode8hB
  | 0xc => c.jmp
  | 0xd => c.jsr
  | 0xe => c.jcc
  | _ => c.jscc

def fetch : Core := { c with curInst := c.readMemoryP c.pc, curInstLen := 1 }

def execute : Core :=
  let value := c.curInst >>> 16 &&& bitmask 8
  if value < 0x10 ∧ c.curInst &&& 0xfe4000 ≠ 0x080000 then opcodes8h value.toNat c else c.parallel

/-! ## The program counter -/

def repeatInstruction : Core :=
  if c.loopRep then
    if c.pcOnRep then
      -- the instruction is `REP` itself
      let c := if c.registers regLc = 0 then c.setReg regLc 0x010000 else c
      { c with pcOnRep := false }
    else
      let c := c.setReg regLc ((c.registers regLc - 1) &&& bitmask 16)
      if c.registers regLc > 0 then { c with curInstLen := 0 }
      else { c with loopRep := false }.setReg regLc (c.registers regLcsave)
  else c

/-- The test for the end of a `DO` loop in `dsp_postexecute_update_pc`. -/
def loopEnd : Core :=
  if (c.registers regSr).getLsbD srLf then
    if c.pc.setWidth 32 = c.registers regLa + 1 then
      let c := c.setReg regLc ((c.registers regLc - 1) &&& bitmask 16)
      if c.registers regLc = 0 then c.endLoop
      else { c.checkStack (c.registers regSsh) with pc := c.stackSsh (c.registers regSsh).toNat }
    else c
  else c

def postexecuteUpdatePc : Core :=
  let c := c.repeatInstruction
  let c := { c with pc := c.pc + BitVec.ofNat 16 c.curInstLen }
  c.loopEnd

/-! ## Interrupts -/

def iplHi : BitVec 32 := c.periph .x ipr >>> 10 &&& bitmask 2

def iplSsi : BitVec 32 := c.periph .x ipr >>> 12 &&& bitmask 2

def ipl : BitVec 32 := c.registers regSr >>> srI0 &&& bitmask 2

def hiInterrupts : Option Core :=
  let hcr := c.periph .x hostHcr
  if hcr.getLsbD hcrHcie ∧ c.hsr.getLsbD hsrHcp then
    let c := c.clearHsr hsrHcp
    let c := c.setHost cpuCvr (c.hostport cpuCvr &&& (0xff - 1#8 <<< cvrHc))
    some { c with interruptInstrFetch := ((c.hostport cpuCvr).setWidth 32 &&& bitmask 5) * 2 }
  else if hcr.getLsbD hcrHrie ∧ c.hsr.getLsbD hsrHrdf then
    some { c.clearHsr hsrHrdf with interruptInstrFetch := 0x0020 }
  else if hcr.getLsbD hcrHtie ∧ ¬ c.hsr.getLsbD hsrHtde then
    some { c.clearHsr hsrHtde with interruptInstrFetch := 0x0022 }
  else none

def ssiInterrupts : Option Core :=
  let crb := c.periph .x ssiCrb
  let sr := c.periph .x ssiSr
  if crb.getLsbD crbRie ∧ sr.getLsbD ssiSrRdf ∧ sr.getLsbD ssiSrRoe then
    some { c.setPeriph .x ssiSr (sr &&& (0xff - 1#32 <<< ssiSrRoe)) with interruptInstrFetch := 0x000e }
  else if crb.getLsbD crbRie ∧ sr.getLsbD ssiSrRdf ∧ ¬ sr.getLsbD ssiSrRoe then
    some { c with interruptInstrFetch := 0x000c }
  else if crb.getLsbD crbTie ∧ sr.getLsbD ssiSrTdf ∧ sr.getLsbD ssiSrTue then
    some { c.setPeriph .x ssiSr (sr &&& (0xff - 1#32 <<< ssiSrTue)) with interruptInstrFetch := 0x0012 }
  else if crb.getLsbD crbTie ∧ sr.getLsbD ssiSrTdf ∧ ¬ sr.getLsbD ssiSrTue then
    some { c with interruptInstrFetch := 0x0010 }
  else none

/-- The interrupt sources of `dsp_postexecute_interrupts`. -/
inductive Interrupt where
  | trace
  | swi
  | host
  | ssi
  deriving DecidableEq

def raiseHi : Option (Interrupt × Core) :=
  if c.ipl ≤ c.iplHi then c.hiInterrupts.map (Prod.mk .host) else none

def raiseSsi : Option (Interrupt × Core) :=
  if c.ipl ≤ c.iplSsi then c.ssiInterrupts.map (Prod.mk .ssi) else none

def raise : Option (Interrupt × Core) :=
  if (c.registers regSr).getLsbD srT then some (.trace, { c with interruptInstrFetch := 0x0004 })
  else if c.swiInter then some (.swi, { c with swiInter := false, interruptInstrFetch := 0x0006 })
  else if c.ipl = 3 then none
  -- the host interface goes first at equal levels
  else if c.iplSsi ≤ c.iplHi then c.raiseHi.or c.raiseSsi
  else c.raiseSsi.or c.raiseHi

def iplToRaise : Interrupt → BitVec 32
  | .trace => 3
  | .swi => 3
  | .host => c.iplHi
  | .ssi => c.iplSsi

def looksLikeJsr (inst : BitVec 32) : Prop := inst >>> 16 &&& bitmask 8 = 0xd ∨ bitOpcode inst = 0x1c

instance (inst : BitVec 32) : Decidable (looksLikeJsr inst) := inferInstanceAs (Decidable (_ ∨ _))

/-- Go to the vector. A long interrupt has a `JSR` there. -/
def accept (level : BitVec 32) (c : Core) : Core :=
  let instr1 := c.readMemoryP (c.interruptInstrFetch.setWidth 16)
  let instr2 := c.readMemoryP ((c.interruptInstrFetch + 1).setWidth 16)
  if looksLikeJsr instr1 ∨ looksLikeJsr instr2 then
    let c := { c with interruptState := .long }
    let c := c.stackPush (c.pc.setWidth 32) (c.registers regSr)
    let cleared := 1#32 <<< srLf ||| 1#32 <<< srT ||| 1#32 <<< srS1 ||| 1#32 <<< srS0 ||| 1#32 <<< srI0 ||| 1#32 <<< srI1
    { c with
      registers := (c.registers.clearSr cleared).setSr (level <<< srI0)
      pc := c.interruptInstrFetch.setWidth 16
      interruptInstrFetch := -1
      interruptSavePc := -1 }
  else
    { c with
      interruptState := .fast
      interruptSavePc := c.pc.setWidth 32
      pc := c.interruptInstrFetch.setWidth 16 }

def fastInterrupt : Core :=
  if c.interruptInstrFetch + 2 ≤ c.pc.setWidth 32 then
    { c with
      pc := if c.pc.setWidth 32 = c.interruptInstrFetch + 2 then c.interruptSavePc.setWidth 16 else c.pc
      interruptInstrFetch := -1
      interruptState := .none
      interruptSavePc := -1 }
  else c

def postexecuteInterrupts : Core :=
  if c.loopRep then c
  else if c.interruptState = .fast then c.fastInterrupt
  else match c.raise with
    | none => c
    | some (source, c') => c'.accept (c'.iplToRaise source)

def executeInstruction : Core := c.fetch.execute.postexecuteUpdatePc.postexecuteInterrupts

end Aranym.Dsp.Core
