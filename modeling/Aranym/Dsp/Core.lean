import Aranym.Dsp.Address

/-!
# The state of the DSP

The registers, the memories and the host port, through which the DSP and the CPU exchange words: a word is
written on one side, and is transferred when the register of the other side has been read.

Source: `dsp_core.h`, `dsp_core.c`, `dsp_cpu.c`.
-/

namespace Aranym.Dsp

open Function

inductive Space where
  | x
  | y
  | p
  deriving DecidableEq

inductive InterruptState where
  | none
  | fast
  | long
  deriving DecidableEq

/-- `dsp_core_t`, and the variables of the CPU that outlive a function. Of the external RAM only `ram[DSP_SPACE_P]`
is used. The two halves of the stack have `stackSize` entries, and `wild` tells that another one was used. -/
structure Core where
  pc : BitVec 16
  registers : Registers
  stackSsh : Nat → BitVec 16
  stackSsl : Nat → BitVec 16
  wild : Bool
  ram : BitVec 15 → BitVec 32
  rom : Space → BitVec 9 → BitVec 32
  ramint : Space → BitVec 9 → BitVec 32
  periph : Space → BitVec 6 → BitVec 32
  hostport : BitVec 3 → BitVec 8
  running : Bool
  loopRep : Bool
  swiInter : Bool
  bootstrapPos : BitVec 16
  interruptState : InterruptState
  interruptInstrFetch : BitVec 32
  interruptSavePc : BitVec 32
  pcOnRep : Bool
  curInst : BitVec 32
  curInstLen : Nat

variable (c : Core) (bit : Nat)

def stackSize : Nat := 15

/-- The state as `dsp_core_init` clears it; the ROM is left empty. -/
def Core.cleared : Core where
  pc := 0
  registers := fun _ => 0
  stackSsh := fun _ => 0
  stackSsl := fun _ => 0
  wild := false
  ram := fun _ => 0
  rom := fun _ _ => 0
  ramint := fun _ _ => 0
  periph := fun _ _ => 0
  hostport := fun _ => 0
  running := false
  loopRep := false
  swiInter := false
  bootstrapPos := 0
  interruptState := .none
  interruptInstrFetch := 0
  interruptSavePc := 0
  pcOnRep := false
  curInst := 0
  curInstLen := 0

/-! ## Registers of the host port -/

def cpuIcr : BitVec 3 := 0x0
def cpuCvr : BitVec 3 := 0x1
def cpuIsr : BitVec 3 := 0x2
def cpuIvr : BitVec 3 := 0x3
def cpuTx0 : BitVec 3 := 0x4
/-- `CPU_HOST_RXH` is the same register as `CPU_HOST_TXH`, and so on. -/
def cpuTxh : BitVec 3 := 0x5
def cpuTxm : BitVec 3 := 0x6
def cpuTxl : BitVec 3 := 0x7

def isrRxdf : Nat := 0x0
def isrTxde : Nat := 0x1
def isrTrdy : Nat := 0x2
def isrHf2 : Nat := 0x3
def isrHf3 : Nat := 0x4
def cvrHc : Nat := 0x7

def hostHcr : BitVec 6 := 0x28
def hostHsr : BitVec 6 := 0x29
/-- `DSP_HOST_HTX` is the same register. -/
def hostHrx : BitVec 6 := 0x2b
def ssiCrb : BitVec 6 := 0x2d
def ssiSr : BitVec 6 := 0x2e
def ipr : BitVec 6 := 0x3f

def hcrHrie : Nat := 0x0
def hcrHtie : Nat := 0x1
def hcrHcie : Nat := 0x2

def hsrHrdf : Nat := 0x0
def hsrHtde : Nat := 0x1
def hsrHcp : Nat := 0x2
def hsrHf0 : Nat := 0x3
def hsrHf1 : Nat := 0x4

def crbTie : Nat := 0xe
def crbRie : Nat := 0xf

def ssiSrTue : Nat := 0x4
def ssiSrRoe : Nat := 0x5
def ssiSrTdf : Nat := 0x6
def ssiSrRdf : Nat := 0x7

namespace Core

def setReg (n : RegNum) (value : BitVec 32) : Core :=
  { c with registers := update c.registers n value }

def setPeriph (space : Space) (n : BitVec 6) (value : BitVec 32) : Core :=
  { c with periph := update c.periph space (update (c.periph space) n value) }

def setHost (n : BitVec 3) (value : BitVec 8) : Core :=
  { c with hostport := update c.hostport n value }

def hsr : BitVec 32 := c.periph .x hostHsr

def isr : BitVec 8 := c.hostport cpuIsr

def clearHsr : Core := c.setPeriph .x hostHsr (c.hsr &&& (0xff - 1#32 <<< bit))

def setHsr : Core := c.setPeriph .x hostHsr (c.hsr ||| 1#32 <<< bit)

def clearIsr : Core := c.setHost cpuIsr (c.isr &&& (0xff - 1#8 <<< bit))

def setIsr : Core := c.setHost cpuIsr (c.isr ||| 1#8 <<< bit)

/-! ## Transfers through the host port -/

def hostportUpdateTrdy : Core :=
  let c := c.clearIsr isrTrdy
  if c.isr.getLsbD isrTxde ∧ ¬ c.hsr.getLsbD hsrHrdf then c.setIsr isrTrdy else c

def dsp2host : Core :=
  -- the host has not read the last word yet
  if c.isr.getLsbD isrRxdf then c
  -- nothing to transfer
  else if c.hsr.getLsbD hsrHtde then c
  else
    let htx := c.periph .x hostHrx
    let c := c.setHost cpuTxl (htx.setWidth 8)
    let c := c.setHost cpuTxm ((htx >>> 8).setWidth 8)
    let c := c.setHost cpuTxh ((htx >>> 16).setWidth 8)
    (c.setHsr hsrHtde).setIsr isrRxdf

def host2dsp : Core :=
  -- nothing to transfer
  if c.isr.getLsbD isrTxde then c
  -- the DSP has not read the last word yet
  else if c.hsr.getLsbD hsrHrdf then c
  else
    let word := (c.hostport cpuTxl).setWidth 32 ||| (c.hostport cpuTxm).setWidth 32 <<< 8 |||
      (c.hostport cpuTxh).setWidth 32 <<< 16
    let c := c.setPeriph .x hostHrx word
    ((c.setHsr hsrHrdf).setIsr isrTxde).hostportUpdateTrdy

def hostportDspread : Core := (c.clearHsr hsrHrdf).hostportUpdateTrdy.host2dsp

def hostportDspwrite : Core := (c.clearHsr hsrHtde).dsp2host

def hostportCpuread : Core := (c.clearIsr isrRxdf).dsp2host

def hostportCpuwrite : Core := (c.clearIsr isrTxde).hostportUpdateTrdy.host2dsp

/-! ## The side of the CPU -/

def readHost (addr : BitVec 3) (c : Core) : BitVec 8 × Core :=
  (c.hostport addr, if addr = cpuTxl then c.hostportCpuread else c)

def txWord : BitVec 32 :=
  (c.hostport cpuTxh).setWidth 32 <<< 16 ||| (c.hostport cpuTxm).setWidth 32 <<< 8 |||
    (c.hostport cpuTxl).setWidth 32

def writeHost (addr : BitVec 3) (value : BitVec 8) (c : Core) : Core :=
  if addr = cpuIcr then
    let icr := value &&& 0xfb
    let c := c.setHost cpuIcr icr
    let flags := 1#32 <<< hsrHf1 ||| 1#32 <<< hsrHf0
    c.setPeriph .x hostHsr (c.hsr &&& (0xff - flags) ||| icr.setWidth 32 &&& flags)
  else if addr = cpuCvr then
    let c := c.setHost cpuCvr (value &&& 0x9f)
    if value.getLsbD 7 then c.setHsr hsrHcp else c
  else if addr = cpuIsr ∨ addr = cpuTx0 then c
  else if addr = cpuIvr ∨ addr = cpuTxh ∨ addr = cpuTxm then c.setHost addr value
  else
    let c := c.setHost cpuTxl value
    -- before the program runs, it is what the words are
    if ¬ c.running then
      let c := { c with
        ramint := update c.ramint .p
          (update (c.ramint .p) (c.bootstrapPos.setWidth 9) c.txWord)
        bootstrapPos := c.bootstrapPos + 1 }
      if c.bootstrapPos = 0x200 then { c with running := true } else c
    else c.hostportCpuwrite

/-! ## Reset -/

end Core

end Aranym.Dsp
