import Aranym.Cpu.Exception
import Aranym.Cpu.ReadCpu

/-!
# Operands

The instruction stream, the effective addresses and the fetch and the store of operands, as
`genamode2` and `genastore` generate them for the 68040 with the MMU.
-/

namespace Aranym.Cpu

open Aranym.Lib Aranym.Mmu

variable (dp : BitVec 16) (o v : BitVec 32) (mode : AMode) (r : Fin 8) (reg : BitVec 32) (size : Sz)
  (addr : BitVec 32)

/-! ## Sizes -/

def bitSize : Sz → Nat
  | .byte => 8
  | .word => 16
  | .long => 32

def bitMask : Sz → BitVec 32
  | .byte => 0xff
  | .word => 0xffff
  | .long => 0xffffffff

/-- The sign extension that the fetch of an operand applies. -/
def signed (v : BitVec 32) : BitVec 32 :=
  match size with
  | .byte => (v.setWidth 8).signExtend 32
  | .word => (v.setWidth 16).signExtend 32
  | .long => v

def regNo (r : BitVec 32) : Fin 8 := ⟨r.toNat % 8, Nat.mod_lt _ (by decide)⟩

/-- What `(An)+` and `-(An)` add to and take from the register; `areg_byteinc` for bytes. -/
def aregInc (r : Fin 8) : BitVec 32 :=
  match size with
  | .byte => if r = 7 then 2 else 1
  | .word => 2
  | .long => 4

/-! ## The instruction stream -/

def getIbyte : CpuM (BitVec 8) := do
  let s ← get
  memGet .fetchFault (fun m a => m a) .byte (s.pc + o + 1) s.s false

def getIword : CpuM (BitVec 16) := do
  let s ← get
  memGet .fetchFault Memory.getWord .word (s.pc + o) s.s false

def getIlong : CpuM (BitVec 32) := do
  let s ← get
  memGet .fetchFault Memory.getLong .long (s.pc + o) s.s false

def incpc (n : BitVec 32) : CpuM Unit := modify fun s => { s with pc := s.pc + n }

def nextIword : CpuM (BitVec 16) := do
  let w ← getIword 0
  incpc 2
  pure w

def nextIlong : CpuM (BitVec 32) := do
  let l ← getIlong 0
  incpc 4
  pure l

def addPcOffset (n : BitVec 32) : CpuM Unit := modify fun s => { s with pcOffset := s.pcOffset + n }

def genNextibyte : CpuM (BitVec 8) := do
  let b ← getIbyte (← get).pcOffset
  addPcOffset 2
  pure b

def genNextiword : CpuM (BitVec 16) := do
  let w ← getIword (← get).pcOffset
  addPcOffset 2
  pure w

def genNextilong : CpuM (BitVec 32) := do
  let l ← getIlong (← get).pcOffset
  addPcOffset 4
  pure l

def syncPc : CpuM Unit := modify fun s => { s with pc := s.pc + s.pcOffset, pcOffset := 0 }

def genSetFaultPc : CpuM Unit := do
  syncPc
  modify fun s => { s with faultPc := s.pc }

def jumpTo (newpc : BitVec 32) : CpuM Unit := modify fun s => { setpc newpc s with pcOffset := 0 }

/-! ## Data accesses -/

inductive Xlate where
  | log
  | sfc
  | dfc
deriving DecidableEq

variable (x : Xlate) (o v : BitVec 32) (mode : AMode) (r : Fin 8) (reg : BitVec 32) (size : Sz)
  (addr : BitVec 32)

def Xlate.space (s : CpuState) : Bool × Bool :=
  match x with
  | .log => (s.s, true)
  | .sfc => (s.sfc &&& 4 != 0, s.sfc &&& 3 != 2)
  | .dfc => (s.dfc &&& 4 != 0, s.dfc &&& 3 != 2)

def getMem : CpuM (BitVec 32) := do
  let (super, data) := x.space (← get)
  match size with
  | .byte =>
    let v ← memGet .readFault (fun m a => m a) .byte addr super data
    pure (v.signExtend 32)
  | .word =>
    let v ← memGet .readFault Memory.getWord .word addr super data
    pure (v.signExtend 32)
  | .long => memGet .readFault Memory.getLong .long addr super data

def putMem (v : BitVec 32) : CpuM Unit := do
  let (super, data) := x.space (← get)
  match size with
  | .byte => memPut Memory.putByte .byte addr (v.setWidth 8) super data
  | .word => memPut Memory.putWord .word addr (v.setWidth 16) super data
  | .long => memPut Memory.putLong .long addr v super data

/-! ## Effective addresses -/

def dispIndex (s : CpuState) : BitVec 32 :=
  let regd := s.regs ((dp.extractLsb' 12 4).toFin)
  let regd := if dp.getLsbD 11 then regd else signed .word regd
  regd <<< (dp.extractLsb' 9 2).toNat

def dispBase : CpuM (BitVec 32) := do
  if dp &&& 0x30 = 0x20 then
    let d ← nextIword
    pure (d.signExtend 32)
  else if dp &&& 0x30 = 0x30 then nextIlong
  else pure 0

def dispOuter : CpuM (BitVec 32) := do
  if dp &&& 0x3 = 0x2 then
    let d ← nextIword
    pure (d.signExtend 32)
  else if dp &&& 0x3 = 0x3 then nextIlong
  else pure 0

def getDispEa020 (base : BitVec 32) (dp : BitVec 16) : CpuM (BitVec 32) := do
  let regd := dispIndex dp (← get)
  if dp.getLsbD 8 then do
    let base := if dp.getLsbD 7 then 0 else base
    let regd := if dp.getLsbD 6 then 0 else regd
    let bd ← dispBase dp
    let outer ← dispOuter dp
    let base := base + bd
    let base := if dp.getLsbD 2 then base else base + regd
    let base ← (if dp &&& 0x3 = 0 then pure base else getMem .log .long base)
    let base := if dp.getLsbD 2 then base + regd else base
    pure (base + outer)
  else pure (base + (dp.setWidth 8).signExtend 32 + regd)

def AMode.isMem : AMode → Bool
  | .aind | .aipi | .apdi | .ad16 | .ad8r | .absw | .absl | .pc16 | .pc8r => true
  | _ => false

def AMode.isIncDec : AMode → Bool
  | .aipi | .apdi => true
  | _ => false

/-- The address of a memory operand. With `movem` the caller handles `-(An)`. -/
def genEa (movem : Bool) : CpuM (BitVec 32) :=
  match mode with
  | .aind => do pure ((← get).areg (regNo reg))
  | .aipi => do pure ((← get).areg (regNo reg))
  | .apdi => do
    let a := (← get).areg (regNo reg)
    pure (if movem then a else a - aregInc size (regNo reg))
  | .ad16 => do
    let d ← genNextiword
    pure ((← get).areg (regNo reg) + d.signExtend 32)
  | .ad8r => do
    syncPc
    let dp ← nextIword
    getDispEa020 ((← get).areg (regNo reg)) dp
  | .pc16 => do
    let s ← get
    let d ← genNextiword
    pure (s.pc + s.pcOffset + d.signExtend 32)
  | .pc8r => do
    syncPc
    let tmppc := (← get).pc
    let dp ← nextIword
    getDispEa020 tmppc dp
  | .absw => do
    let d ← genNextiword
    pure (d.signExtend 32)
  | .absl => genNextilong
  | _ => pure 0

/-! ## Operands -/

/-- `GENA_GETV_NO_FETCH`, `GENA_GETV_FETCH` and `GENA_GETV_FETCH_ALIGN`; the last one differs from the
first only where address errors are generated. -/
inductive Getv where
  | noFetch
  | fetch
  | fetchAlign
deriving DecidableEq

structure Operand where
  val : BitVec 32
  addr : BitVec 32
deriving DecidableEq

def setFixup : CpuM Unit := modify fun s => { s with fixup := ⟨true, r, s.areg r⟩ }

def adjustAreg (fixup : Bool) : CpuM Unit :=
  match mode with
  | .aipi => do
    doIf fixup (setFixup r)
    modify fun s => s.setAreg r (s.areg r + aregInc size r)
  | .apdi => do
    doIf fixup (setFixup r)
    modify fun s => s.setAreg r addr
  | _ => pure ()

def genReg (getv : Getv) : CpuM Operand :=
  match mode with
  | .dreg => do
    let s ← get
    pure ⟨if getv = .fetch then signed size (s.dreg (regNo reg)) else 0, 0⟩
  | .areg => do
    let s ← get
    pure ⟨if getv = .fetch then signed size (s.areg (regNo reg)) else 0, 0⟩
  | .imm =>
    match size with
    | .byte => do pure ⟨(← genNextibyte).signExtend 32, 0⟩
    | .word => do pure ⟨(← genNextiword).signExtend 32, 0⟩
    | .long => do pure ⟨← genNextilong, 0⟩
  | .imm0 => do pure ⟨(← genNextibyte).signExtend 32, 0⟩
  | .imm1 => do pure ⟨(← genNextiword).signExtend 32, 0⟩
  | .imm2 => do pure ⟨← genNextilong, 0⟩
  | .immi => pure ⟨reg, 0⟩
  | _ => pure ⟨0, 0⟩

def genamode2 (getv : Getv) (movem : Bool) (x : Xlate) (fixup : Bool) : CpuM Operand :=
  if mode.isMem then do
    let addr ← genEa mode reg size movem
    let val ← (if getv = .fetch then getMem x size addr else pure 0)
    doIf (movem = false) (adjustAreg mode (regNo reg) size addr fixup)
    pure ⟨val, addr⟩
  else genReg mode reg size getv

/-- `genamode2` with `fixup` 2. -/
def clearFixup : CpuM Unit :=
  if mode.isIncDec then modify fun s => { s with fixup := { s.fixup with flag := false } }
  else pure ()

def genamode (getv : Getv) : CpuM Operand := genamode2 mode reg size getv false .log false

def mergeLow (old new : BitVec 32) : BitVec 32 := (old &&& ~~~bitMask size) ||| (new &&& bitMask size)

def setDregPart (r : Fin 8) (v : BitVec 32) : CpuM Unit :=
  modify fun s => s.setDreg r (mergeLow size (s.dreg r) v)

def genastoreX (x : Xlate) : CpuM Unit :=
  match mode with
  | .dreg => setDregPart size (regNo reg) v
  | .areg => modify fun s => s.setAreg (regNo reg) (signed size v)
  | _ =>
    if mode.isMem then do
      genSetFaultPc
      putMem x size addr v
    else pure ()

def genastore : CpuM Unit := genastoreX v mode reg size addr .log

end Aranym.Cpu
