import Mathlib.Data.BitVec

/-!
# The MFP

The interrupt controller: 16 sources, each of which can be enabled, pending, in service and masked, and
the flag by which the CPU is told to ask for a vector.

Source: `mfp.cpp`, `mfp.h`, `aranym_glue.cpp`.
-/

namespace Aranym.Mfp

variable (x : BitVec 16) (value : BitVec 8)

structure Timer where
  control : BitVec 8
  startData : BitVec 8
  currentData : BitVec 8
  state : Bool
  deriving DecidableEq

variable (t : Timer) (value : BitVec 8)

namespace Timer

def reset : Timer := ⟨0, 0, 0, false⟩

def isRunning : Bool := t.control &&& 0x0f ≠ 0

def setControl : Timer :=
  { t with control := value &&& 0x0f, state := if value &&& 0x10 ≠ 0 then false else t.state }

def getControl : BitVec 8 := t.control ||| if t.state then 0x20 else 0

def setData : Timer :=
  { t with startData := value, currentData := if t.isRunning then t.currentData else value }

def resetCounter : Timer := if t.isRunning then { t with state := true, currentData := t.startData } else t

def getData : BitVec 8 × Timer :=
  let t := if t.isRunning ∧ 2 < t.currentData then { t with currentData := t.currentData - 1 } else t
  (t.currentData, t)

end Timer

structure State where
  input : BitVec 8
  gpipData : BitVec 8
  activeEdge : BitVec 8
  dataDirection : BitVec 8
  irqEnable : BitVec 16
  irqPending : BitVec 16
  irqInservice : BitVec 16
  irqMask : BitVec 16
  timerA : Timer
  timerB : Timer
  timerC : Timer
  timerD : Timer
  timerCounter : Int
  vr : BitVec 32
  flag : Bool
  deriving DecidableEq

variable (m : State) (value : BitVec 8)

def vrVector : BitVec 32 := 0xf0
def vrSei : BitVec 32 := 0x08

namespace State

/-- `MFP::reset`. -/
def reset : State where
  input := 0xff
  gpipData := 0xff
  activeEdge := 0
  dataDirection := 0
  irqEnable := 0
  irqPending := 0
  irqInservice := 0
  irqMask := 0
  timerA := .reset
  timerB := .reset
  timerC := .reset
  timerD := .reset
  timerCounter := 0
  vr := 0x0100
  flag := m.flag

def triggerMFP (enable : Bool) : State := { m with flag := enable }

/-- The pending interrupts that the mask lets through. -/
def unmasked : BitVec 16 := m.irqPending &&& m.irqMask

/-! ## Requests -/

/-- A new request. One below what is in service is looked at when the service ends. -/
def request (i : BitVec 16) : State :=
  let m := { m with irqPending := m.irqPending ||| i }
  if m.irqMask &&& i = 0 then m
  else if m.irqInservice > i then m
  else m.triggerMFP true

def irq (level : Nat) (count : Int) : State :=
  let i : BitVec 16 := BitVec.twoPow 16 level
  let m := if level = 5 then { m with timerC := m.timerC.resetCounter } else m
  if m.irqEnable &&& i = 0 then m
  else
    let m := if level = 5 then { m with timerCounter := m.timerCounter + count } else m
    if m.irqPending &&& i ≠ 0 then m else m.request i

def mapGpipToIer : List (Nat × Nat) := [(0, 0), (1, 1), (2, 2), (3, 3), (4, 6), (5, 7), (6, 14), (7, 15)]

def setActiveEdge : State :=
  let m := mapGpipToIer.foldl (fun m (line : Nat × Nat) =>
    let i : BitVec 8 := BitVec.twoPow 8 line.1
    if m.activeEdge &&& i ≠ value &&& i ∧ m.dataDirection &&& i = 0 ∧ m.activeEdge &&& i ≠ m.input &&& i
    then m.irq line.2 1 else m) m
  { m with activeEdge := value }

def setGPIPbit (mask value : BitVec 32) : State :=
  let mask : BitVec 8 := mask.setWidth 8
  let value : BitVec 8 := value.setWidth 8
  let oldGPIP := m.gpipData
  let m := { m with input := m.input &&& ~~~mask ||| value &&& mask }
  let mask := mask &&& ~~~m.dataDirection
  let m := { m with gpipData := m.gpipData &&& ~~~mask ||| value &&& mask }
  mapGpipToIer.foldl (fun m (line : Nat × Nat) =>
    let i : BitVec 8 := BitVec.twoPow 8 line.1
    if oldGPIP &&& i = m.gpipData &&& i then m
    -- an edge bit of 1 asks for the change from 0 to 1
    else if m.activeEdge &&& i ≠ 0 then (if oldGPIP &&& i ≠ 0 then m else m.irq line.2 1)
    else if m.gpipData &&& i ≠ 0 then m
    else m.irq line.2 1) m

/-! ## Interrupts -/

def highest (x : BitVec 16) : Nat → Option Nat
  | 0 => none
  | n + 1 => if x.getLsbD n then some n else highest x n

/-- `MFP::doInterrupt`: the vector and the state after it. -/
def doInterrupt : BitVec 32 × State :=
  match highest m.unmasked 16 with
  | none => (0, m.triggerMFP false)
  | some j =>
    let i : BitVec 16 := BitVec.twoPow 16 j
    if m.irqInservice ≥ i then (0, m.triggerMFP false)
    else
      let vector := (m.vr &&& vrVector) + BitVec.ofNat 32 j
      -- timer C is served as often as it was requested
      let m := if j = 5 then { m with timerCounter := m.timerCounter - 1 } else m
      let m := if j ≠ 5 ∨ m.timerCounter ≤ 0
        then { m with irqPending := m.irqPending &&& ~~~i }.triggerMFP false else m
      if m.vr &&& vrSei ≠ 0 then (vector, { m with irqInservice := m.irqInservice ||| i })
      else if m.unmasked ≠ 0 then (vector, m.triggerMFP true)
      else (vector, m)

/-! ## Registers -/

def setHigh : BitVec 16 := x &&& 0x00ff ||| value.setWidth 16 <<< 8

def setLow : BitVec 16 := x &&& 0xff00 ||| value.setWidth 16

def andHigh : BitVec 16 := x &&& (value.setWidth 16 <<< 8 ||| 0xff)

def andLow : BitVec 16 := x &&& (0xff00 ||| value.setWidth 16)

def setEnable (enable : BitVec 16) : State :=
  { m with irqEnable := enable, irqPending := m.irqPending &&& enable }

def setPending (pending : BitVec 16) : State :=
  let m := { m with irqPending := pending }
  if m.unmasked = 0 then m.triggerMFP false else m

def setInservice (inservice : BitVec 16) : State :=
  let m := { m with irqInservice := inservice }
  if m.unmasked ≠ 0 then m.triggerMFP true else m

def setMask (mask : BitVec 16) : State :=
  let m := { m with irqMask := mask }
  m.triggerMFP (m.unmasked ≠ 0)

def setVr : State :=
  let m := { m with vr := value.setWidth 32 }
  if m.vr &&& vrSei ≠ 0 then m
  else
    let m := { m with irqInservice := 0 }
    m.triggerMFP (m.unmasked ≠ 0)

/-- `MFP::handleWrite`, by register offset. -/
def writeReg (addr : Nat) (value : BitVec 8) : State :=
  match addr with
  | 0x01 => { m with gpipData := m.gpipData &&& ~~~m.dataDirection ||| value &&& m.dataDirection }
  | 0x03 => m.setActiveEdge value
  | 0x05 => { m with
      dataDirection := value, gpipData := m.gpipData &&& value ||| m.input &&& ~~~value }
  | 0x07 => m.setEnable (setHigh m.irqEnable value)
  | 0x09 => m.setEnable (setLow m.irqEnable value)
  | 0x0b => m.setPending (andHigh m.irqPending value)
  | 0x0d => m.setPending (andLow m.irqPending value)
  | 0x0f => m.setInservice (andHigh m.irqInservice value)
  | 0x11 => m.setInservice (andLow m.irqInservice value)
  | 0x13 => m.setMask (setHigh m.irqMask value)
  | 0x15 => m.setMask (setLow m.irqMask value)
  | 0x17 => m.setVr value
  | 0x19 => { m with timerA := m.timerA.setControl value }
  | 0x1b => { m with timerB := m.timerB.setControl value }
  | 0x1d => { m with
      timerC := m.timerC.setControl (value >>> 4), timerD := m.timerD.setControl (value &&& 0x0f) }
  | 0x1f => { m with timerA := m.timerA.setData value }
  | 0x21 => { m with timerB := m.timerB.setData value }
  | 0x23 => { m with timerC := m.timerC.setData value }
  | 0x25 => { m with timerD := m.timerD.setData value }
  | _ => m

def readReg (busy : BitVec 8) (addr : Nat) : BitVec 8 × State :=
  match addr with
  | 0x01 => (m.gpipData &&& ~~~0x21 ||| busy, m)
  | 0x03 => (m.activeEdge, m)
  | 0x05 => (m.dataDirection, m)
  | 0x07 => ((m.irqEnable >>> 8).setWidth 8, m)
  | 0x09 => (m.irqEnable.setWidth 8, m)
  | 0x0b => (0x20, m)
  | 0x0d => (m.irqPending.setWidth 8, m)
  | 0x0f => ((m.irqInservice >>> 8).setWidth 8, m)
  | 0x11 => (m.irqInservice.setWidth 8, m)
  | 0x13 => ((m.irqMask >>> 8).setWidth 8, m)
  | 0x15 => (m.irqMask.setWidth 8, m)
  | 0x17 => (m.vr.setWidth 8, m)
  | 0x19 => (m.timerA.getControl, m)
  | 0x1b => (m.timerB.getControl, m)
  | 0x1d => (m.timerC.getControl <<< 4 ||| m.timerD.getControl, m)
  | 0x1f => (m.timerA.getData.1, { m with timerA := m.timerA.getData.2 })
  | 0x21 => (m.timerB.getData.1, { m with timerB := m.timerB.getData.2 })
  | 0x23 => (m.timerC.getData.1, { m with timerC := m.timerC.getData.2 })
  | 0x25 => (m.timerD.getData.1, { m with timerD := m.timerD.getData.2 })
  | 0x2d => (0x80, m)
  | _ => (0, m)

end State

structure Base where
  hwOffset : BitVec 32
  hwSize : BitVec 32

variable (base : Base) (value : BitVec 8)

def State.handleWrite (addr : BitVec 32) (value : BitVec 8) : State :=
  let addr := addr - base.hwOffset
  if addr > base.hwSize then m else m.writeReg addr.toNat value

def State.handleRead (busy : BitVec 8) (addr : BitVec 32) : BitVec 8 × State :=
  let addr := addr - base.hwOffset
  if addr > base.hwSize then (0, m) else m.readReg busy addr.toNat

/-! ## Runs -/

/-- What reaches the MFP from the CPU and from other devices. -/
inductive Op
  | read (busy : BitVec 8) (addr : BitVec 32)
  | write (addr : BitVec 32) (value : BitVec 8)
  | irq (level : Nat) (count : Int)
  | setGPIPbit (mask value : BitVec 32)
  | doInterrupt
  deriving DecidableEq

def Op.run (m : State) : Op → State
  | .read busy addr => (m.handleRead base busy addr).2
  | .write addr value => m.handleWrite base addr value
  | .irq level count => m.irq level count
  | .setGPIPbit mask value => m.setGPIPbit mask value
  | .doInterrupt => m.doInterrupt.2

def runOps (m : State) (ops : List Op) : State := ops.foldl (Op.run base) m

end Aranym.Mfp
