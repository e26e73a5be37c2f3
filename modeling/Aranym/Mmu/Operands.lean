import Aranym.Mmu.Access

/-!
# Operands that cross a page

`get_word`, `get_long`, `put_word` and `put_long`, the `sfc_` and `dfc_` functions of `MOVES`, and the quad
accesses. A misaligned operand that crosses a 4K page is split into bytes or words, and a fault in one of
them is turned into one of the whole operand.
-/

namespace Aranym.Mmu

open Aranym.Lib

variable {δ : Type}

/-- `is_unaligned`: misaligned, and across a page. -/
def isUnaligned (addr size : BitVec 32) : Bool :=
  addr &&& (size - 1) != 0 && (addr ^^^ (addr + size - 1)) &&& 0x1000 != 0

def mmuSswMa : BitVec 16 := 0x0800

def FaultInfo.misaligned (f : FaultInfo) (addr : BitVec 32) : FaultInfo :=
  { f with mmuFaultAddr := addr, mmuSsw := f.mmuSsw ||| mmuSswMa }

def catchGet {α : Type} (addr : BitVec 32) (p : MmuM δ α) : MmuM δ α :=
  tryCatch p fun e => do
    modify fun m => { m with fault := m.fault.misaligned addr }
    throw e

def catchPut (addr val : BitVec 32) (p : MmuM δ Unit) : MmuM δ Unit :=
  tryCatch p fun e => do
    modify fun m => { m with fault := { m.fault with wb3Data := val } }
    modify fun m => if m.fault.mmuFaultAddr ≠ addr then { m with fault := m.fault.misaligned addr } else m
    throw e

def byteArg (v : BitVec 32) : BitVec 32 := v &&& 0xff

def wordArg (v : BitVec 32) : BitVec 32 := v &&& 0xffff

/-! ## Split accesses -/

def getWordUnaligned (getByte : BitVec 32 → MmuM δ (BitVec 32)) (addr : BitVec 32) : MmuM δ (BitVec 32) := do
  let h ← getByte addr
  catchGet addr do
    let l ← getByte (addr + 1)
    pure ((h <<< 8) ||| l)

def getLongUnaligned (getByte getWord : BitVec 32 → MmuM δ (BitVec 32)) (addr : BitVec 32) :
    MmuM δ (BitVec 32) :=
  if addr &&& 1 = 0 then do
    let h ← getWord addr
    catchGet addr do
      let l ← getWord (addr + 2)
      pure ((h <<< 16) ||| l)
  else do
    let b₀ ← getByte addr
    catchGet addr do
      let b₁ ← getByte (addr + 1)
      let b₂ ← getByte (addr + 2)
      let b₃ ← getByte (addr + 3)
      pure ((((((b₀ <<< 8) ||| b₁) <<< 8) ||| b₂) <<< 8) ||| b₃)

def putWordBytes (putByte : BitVec 32 → BitVec 32 → MmuM δ Unit) (addr val : BitVec 32) : MmuM δ Unit := do
  putByte addr (byteArg (val >>> 8))
  putByte (addr + 1) (byteArg val)

def putLongParts (putByte putWord : BitVec 32 → BitVec 32 → MmuM δ Unit) (addr val : BitVec 32) :
    MmuM δ Unit :=
  if addr &&& 1 = 0 then do
    putWord addr (wordArg (val >>> 16))
    putWord (addr + 2) (wordArg val)
  else do
    putByte addr (byteArg (val >>> 24))
    putByte (addr + 1) (byteArg (val >>> 16))
    putByte (addr + 2) (byteArg (val >>> 8))
    putByte (addr + 3) (byteArg val)

section

variable (cfg : Config) (hw : Hardware δ)

variable (addr val : BitVec 32) (data : Bool)

/-! ## Accesses of the CPU -/

def mmuGetWordUnaligned : MmuM δ (BitVec 32) :=
  getWordUnaligned (fun a => mmuGetByte cfg hw a data .word) addr

def mmuGetLongUnaligned : MmuM δ (BitVec 32) :=
  getLongUnaligned (fun a => mmuGetByte cfg hw a data .long) (fun a => mmuGetWord cfg hw a data .long) addr

def mmuPutWordUnaligned (val : BitVec 16) (data : Bool) : MmuM δ Unit :=
  catchPut addr (val.setWidth 32)
    (putWordBytes (fun a v => mmuPutByte cfg hw a v data .word) addr (val.setWidth 32))

def mmuPutLongUnaligned : MmuM δ Unit :=
  catchPut addr val (putLongParts (fun a v => mmuPutByte cfg hw a v data .long)
    (fun a v => mmuPutWord cfg hw a v data .long) addr val)

def getWord : MmuM δ (BitVec 32) :=
  if isUnaligned addr 2 then mmuGetWordUnaligned cfg hw addr data else mmuGetWord cfg hw addr data .word

/-- `get_long`, and `get_ilong` with `data` false. -/
def getLong : MmuM δ (BitVec 32) :=
  if isUnaligned addr 4 then mmuGetLongUnaligned cfg hw addr data else mmuGetLong cfg hw addr data .long

def putWord (val : BitVec 16) (data : Bool) : MmuM δ Unit :=
  if isUnaligned addr 2 then mmuPutWordUnaligned cfg hw addr val data
  else mmuPutWord cfg hw addr (val.setWidth 32) data .word

def putLong : MmuM δ Unit :=
  if isUnaligned addr 4 then mmuPutLongUnaligned cfg hw addr val data
  else mmuPutLong cfg hw addr val data .long

/-! ## Accesses of `MOVES` -/

def mmuGetUser (w : Sz) (read : Memory 32 → BitVec 32 → BitVec 32) (addr : BitVec 32) (super data : Bool)
    (size : Sz) : MmuM δ (BitVec 32) := do
  let action ← mmuAccess cfg hw addr super data false
  performGet hw w read addr super data size action

def mmuPutUser (w : Sz) (store : Memory 32 → BitVec 32 → BitVec 32 → Memory 32) (addr val : BitVec 32)
    (super data : Bool) (size : Sz) : MmuM δ Unit := do
  let action ← mmuAccess cfg hw addr super data true
  performPut hw w store addr val super data size action

def mmuGetUserByte := mmuGetUser cfg hw .byte readByte
def mmuGetUserWord := mmuGetUser cfg hw .word readWord
def mmuGetUserLong := mmuGetUser cfg hw .long readLong
def mmuPutUserByte := mmuPutUser cfg hw .byte storeByte
def mmuPutUserWord := mmuPutUser cfg hw .word storeWord
def mmuPutUserLong := mmuPutUser cfg hw .long storeLong

def fcSpace (fc : BitVec 3) : Bool × Bool := (fc &&& 4 != 0, fc &&& 3 != 2)

def sfcGetWord (sfc : BitVec 3) (addr : BitVec 32) : MmuM δ (BitVec 32) :=
  let super := (fcSpace sfc).1
  let data := (fcSpace sfc).2
  if isUnaligned addr 2 then getWordUnaligned (fun a => mmuGetUserByte cfg hw a super data .word) addr
  else mmuGetUserWord cfg hw addr super data .word

def sfcGetLong (sfc : BitVec 3) (addr : BitVec 32) : MmuM δ (BitVec 32) :=
  let super := (fcSpace sfc).1
  let data := (fcSpace sfc).2
  if isUnaligned addr 4 then
    getLongUnaligned (fun a => mmuGetUserByte cfg hw a super data .long)
      (fun a => mmuGetUserWord cfg hw a super data .long) addr
  else mmuGetUserLong cfg hw addr super data .long

def dfcPutWord (dfc : BitVec 3) (addr : BitVec 32) (val : BitVec 16) : MmuM δ Unit :=
  let super := (fcSpace dfc).1
  let data := (fcSpace dfc).2
  catchPut addr (val.setWidth 32)
    (if isUnaligned addr 2 then
      putWordBytes (fun a v => mmuPutUserByte cfg hw a v super data .word) addr (val.setWidth 32)
    else mmuPutUserWord cfg hw addr (val.setWidth 32) super data .word)

def dfcPutLong (dfc : BitVec 3) (addr val : BitVec 32) : MmuM δ Unit :=
  let super := (fcSpace dfc).1
  let data := (fcSpace dfc).2
  catchPut addr val
    (if isUnaligned addr 4 then
      putLongParts (fun a v => mmuPutUserByte cfg hw a v super data .long)
        (fun a v => mmuPutUserWord cfg hw a v super data .long) addr val
    else mmuPutUserLong cfg hw addr val super data .long)

/-! ## Quads -/

def readQuad (m : Memory 32) (a : BitVec 32) : BitVec 64 := m.getLong a ++ m.getLong (a + 4)

def storeQuad (m : Memory 32) (a : BitVec 32) (v : BitVec 64) : Memory 32 :=
  (m.putLong a (v.extractLsb' 32 32)).putLong (a + 4) (v.extractLsb' 0 32)

/-- `mmu_get_quad`: declared to return `uae_u32`. -/
def mmuGetQuad : MmuM δ (BitVec 32) := do
  let m ← get
  let cl := l1Slot m.regs.s data false addr
  if mmuUserLookup m m.regs.s data false addr then do
    logBus (.ramGet ((m.l1 cl).phys + addr))
    pure ((readQuad m.ram ((m.l1 cl).phys + addr)).setWidth 32)
  else do
    let v ← mmuGetQuadSlow cfg hw addr m.regs.s data cl
    pure (v.setWidth 32)

def mmuPutQuad (val : BitVec 64) (data : Bool) : MmuM δ Unit := do
  let m ← get
  let cl := l1Slot m.regs.s data true addr
  if mmuUserLookup m m.regs.s data true addr then do
    logBus (.ramPut ((m.l1 cl).phys + addr))
    modify fun m => { m with ram := storeQuad m.ram ((m.l1 cl).phys + addr) val }
  else mmuPutQuadSlow cfg hw addr val m.regs.s data cl

end

end Aranym.Mmu
