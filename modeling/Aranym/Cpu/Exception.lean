import Aranym.Cpu.Defs

/-!
# Exception processing

`MakeSR`, `MakeFromSR`, the exception frames, `Exception` and `ex_rte`.
-/

namespace Aranym.Cpu

open Aranym.Lib Aranym.Mmu

variable (format nr : Nat) (s : CpuState)

def spcflagBrk : BitVec 32 := 0x04

def spcflagTrace : BitVec 32 := 0x08

def spcflagDotrace : BitVec 32 := 0x10

def spcflagJitEndCompile : BitVec 32 := 0x40

/-! ## The status register -/

def srBit (b : Bool) (k : Nat) : BitVec 16 := (BitVec.ofBool b).setWidth 16 <<< k

def CpuState.srValue : BitVec 16 :=
  srBit s.t1 15 ||| srBit s.t0 14 ||| srBit s.s 13 ||| srBit s.m 12
    ||| (s.intmask.setWidth 16 <<< 8)
    ||| srBit s.flags.x 4 ||| srBit s.flags.n 3 ||| srBit s.flags.z 2 ||| srBit s.flags.v 1
    ||| srBit s.flags.c 0

def makeSR : CpuState := { s with sr := s.srValue }

def loadSR : CpuState :=
  { s with
    t1 := s.sr.getLsbD 15
    t0 := s.sr.getLsbD 14
    s := s.sr.getLsbD 13
    m := s.sr.getLsbD 12
    intmask := s.sr.extractLsb' 8 3
    flags := ⟨s.sr.getLsbD 4, s.sr.getLsbD 3, s.sr.getLsbD 2, s.sr.getLsbD 1, s.sr.getLsbD 0⟩ }

def switchStack (olds oldm : Bool) (s : CpuState) : CpuState :=
  if olds ≠ s.s then
    if olds then
      let s := if oldm then { s with msp := s.areg 7 } else { s with isp := s.areg 7 }
      s.setAreg 7 s.usp
    else
      let s := { s with usp := s.areg 7 }
      s.setAreg 7 (if s.m then s.msp else s.isp)
  else if olds ∧ oldm ≠ s.m then
    if oldm then
      let s := { s with msp := s.areg 7 }
      s.setAreg 7 s.isp
    else
      let s := { s with isp := s.areg 7 }
      s.setAreg 7 s.msp
  else s

def makeFromSR : CpuState :=
  let s' := switchStack s.s s.m (loadSR s)
  { s' with spcflags :=
      if s'.t1 ∨ s'.t0 then s'.spcflags ||| spcflagTrace else s'.spcflags &&& ~~~spcflagTrace }

def setpc (newpc : BitVec 32) (s : CpuState) : CpuState := { s with pc := newpc, faultPc := newpc }

/-! ## Exception frames -/

def excPushWord (w : BitVec 16) : CpuM Unit := do
  modify fun s => s.setAreg 7 (s.areg 7 - 2)
  putWord ((← get).areg 7) w

def excPushLong (l : BitVec 32) : CpuM Unit := do
  modify fun s => s.setAreg 7 (s.areg 7 - 4)
  putLong ((← get).areg 7) l

def excPushExtra (x0 x1 : BitVec 32) : CpuM Unit :=
  match format with
  | 4 => do
    excPushLong x1
    excPushLong x0
  | 3 => excPushLong x0
  | 2 => excPushLong x0
  | _ => pure ()

def formatWord : BitVec 16 := BitVec.ofNat 16 ((format <<< 12) + nr * 4)

def excMakeFrame (sr : BitVec 16) (currpc : BitVec 32) (nr : Nat) (x0 x1 : BitVec 32) : CpuM Unit := do
  excPushExtra format x0 x1
  excPushWord (formatWord format nr)
  excPushLong currpc
  excPushWord sr

/-! ## Exception -/

/-- The part of `Exception` that takes back an increment or decrement of a failed instruction. -/
def undoFixup : CpuState :=
  if s.fixup.flag then
    let s := s.setAreg s.fixup.reg s.fixup.value
    { s with fixup := { s.fixup with flag := false } }
  else s

def enterSupervisor : CpuState :=
  if s.s then s
  else
    let s := { s with usp := s.areg 7 }
    let s := s.setAreg 7 (if s.m then s.msp else s.isp)
    { s with s := true }

def busErrorPushes : CpuM Unit := do
  excPushLong 0
  excPushLong 0
  excPushLong 0
  excPushLong 0
  excPushLong 0
  excPushLong 0
  excPushLong 0
  excPushLong (← get).fault.wb3Data
  excPushLong (← get).fault.mmuFaultAddr
  excPushLong (← get).fault.mmuFaultAddr
  excPushWord 0
  excPushWord 0
  excPushWord (← get).fault.wb3Status
  modify fun s => { s with fault := { s.fault with wb3Status := 0 } }
  excPushWord (← get).fault.mmuSsw
  excPushLong (← get).fault.mmuFaultAddr

def busErrorFrame : CpuM Unit := do
  busErrorPushes
  let s ← get
  excMakeFrame 7 s.sr s.faultPc 2 0 0

def interruptFrames (currpc : BitVec 32) (nr : Nat) : CpuM Unit := do
  excMakeFrame 0 (← get).sr currpc nr 0 0
  modify fun s => { s with sr := s.sr ||| 0x2000, msp := s.areg 7 }
  modify fun s => s.setAreg 7 s.isp
  excMakeFrame 1 (← get).sr currpc nr 0 0

def isInterrupt : Bool := decide (24 ≤ nr ∧ nr < 32)

def exceptionFrame (oldpc currpc : BitVec 32) : CpuM Unit := do
  let s ← get
  if nr = 2 then tryCatch busErrorFrame fun _ => throw .doubleBusFault
  else if nr = 3 then
    excMakeFrame 2 s.sr s.lastAddrForException3 nr (s.lastFaultForException3 &&& 0xfffffffe) 0
  else if nr = 5 ∨ nr = 6 ∨ nr = 7 ∨ nr = 9 then excMakeFrame 2 s.sr currpc nr oldpc 0
  else if s.m ∧ isInterrupt nr then interruptFrames currpc nr
  else excMakeFrame 0 s.sr currpc nr 0 0

def exception (oldpc : BitVec 32) : CpuM Unit := do
  let currpc := (← get).pc
  modify makeSR
  modify undoFixup
  modify enterSupervisor
  exceptionFrame nr oldpc currpc
  let vector ← getLong ((← get).vbr + BitVec.ofNat 32 (4 * nr))
  modify (setpc vector)
  modify fun s => { s with
    t1 := false
    t0 := false
    m := false
    spcflags := (s.spcflags ||| spcflagJitEndCompile) &&& ~~~(spcflagTrace ||| spcflagDotrace) }

/-! ## RTE -/

def popWord : CpuM (BitVec 16) := do
  let w ← getWord ((← get).areg 7)
  modify fun s => s.setAreg 7 (s.areg 7 + 2)
  pure w

def popLong : CpuM (BitVec 32) := do
  let l ← getLong ((← get).areg 7)
  modify fun s => s.setAreg 7 (s.areg 7 + 4)
  pure l

/-- What `ex_rte` does with the format nibble of a frame: drop so many bytes and leave the loop, go
on with the next frame, or raise a format error. -/
inductive FrameFormat where
  | leave (bytes : BitVec 32)
  | throwaway
  | bad
deriving DecidableEq

def frameFormat (format : BitVec 16) : FrameFormat :=
  match (format &&& 0xF000).toNat with
  | 0x0000 => .leave 0
  | 0x1000 => .throwaway
  | 0x2000 => .leave 4
  | 0x7000 => .leave 52
  | 0x8000 => .leave 50
  | 0x9000 => .leave 12
  | 0xa000 => .leave 24
  | 0xb000 => .leave 84
  | _ => .bad

/-- `ex_rte`, with a bound on the number of frames it looks at; `false` when the bound is reached. -/
def exRte : Nat → CpuM Bool
  | 0 => pure false
  | fuel + 1 => do
    let newsr ← popWord
    let newpc ← popLong
    let format ← popWord
    match frameFormat format with
    | .leave bytes =>
      modify fun s => s.setAreg 7 (s.areg 7 + bytes)
      modify fun s => makeFromSR { s with sr := newsr }
      modify (setpc newpc)
      pure true
    | .throwaway =>
      modify fun s => makeFromSR { s with sr := newsr }
      exRte fuel
    | .bad => throw (.exception 14 0)

end Aranym.Cpu
