import Aranym.Mmu.Translate

/-!
# Memory accesses and flushes

The slow paths `mmu_get_*_slow` and `mmu_put_*_slow`, the inline fast paths in front of them, and
the ATC flushes.
-/

namespace Aranym.Mmu

open Aranym.Lib Function

variable {δ : Type}

variable (m : Memory 32) (a v : BitVec 32)

/-! ## Slow paths -/

/-- What an access comes to. -/
inductive Action where
  | ram (phys : BitVec 32)
  | hw (phys : BitVec 32)
  | busError
deriving DecidableEq

def Machine.redo (m : Machine δ) (addr : BitVec 32) (cl : L1Slot) : Action :=
  if (m.l1 cl).hw then .hw ((m.l1 cl).phys + addr) else .busError

def mmuSlow (cfg : Config) (hw : Hardware δ) (addr : BitVec 32) (super data write : Bool)
    (cl : L1Slot) : MmuM δ Action := do
  let m ← get
  if (m.l1 cl).tag = ~~~atcTag addr then
    pure (m.redo addr cl)
  else
    let filled ← mmuFillAtcL1 cfg hw addr super data write cl
    let m ← get
    if filled then pure (.ram ((m.l1 cl).phys + addr)) else pure (m.redo addr cl)

def mmuGetFc (super data : Bool) : BitVec 16 := (if super then 4 else 0) ||| (if data then 1 else 2)

def FaultInfo.record (f : FaultInfo) (addr : BitVec 32) (fc : BitVec 16) (write : Bool) (size : Sz) :
    FaultInfo :=
  let sizeBits : BitVec 16 := match size with
    | .byte => 0x20
    | .word => 0x40
    | .long => 0
  let ssw := (fc &&& 7) ||| sizeBits
  { f with
    wb3Status := if write then 0x80 ||| ssw else 0
    mmuFaultAddr := addr
    mmuSsw := ssw ||| (if write then 0 else 0x100) ||| 0x400 }

def mmuBusError {α : Type} (addr : BitVec 32) (fc : BitVec 16) (write : Bool) (size : Sz) : MmuM δ α := do
  modify fun m => { m with fault := m.fault.record addr fc write size }
  throw ⟨2⟩

def logBus (op : BusOp) : MmuM δ Unit := modify fun m => { m with busLog := m.busLog ++ [op] }

/-- What a read of width `w` does once its action is known. The requested size `size` is wider than
`w` when an unaligned access is split. -/
def performGet (hw : Hardware δ) (w : Sz) (read : Memory 32 → BitVec 32 → BitVec 32)
    (addr : BitVec 32) (super data : Bool) (size : Sz) : Action → MmuM δ (BitVec 32)
  | .ram phys => do
    logBus (.ramGet phys)
    let m ← get
    pure (read m.ram phys)
  | .hw phys => do
    logBus (.hwGet phys)
    liftDev phys (hw.get w phys)
  | .busError => mmuBusError addr (mmuGetFc super data) false size

def performPut (hw : Hardware δ) (w : Sz) (store : Memory 32 → BitVec 32 → BitVec 32 → Memory 32)
    (addr val : BitVec 32) (super data : Bool) (size : Sz) : Action → MmuM δ Unit
  | .ram phys => do
    logBus (.ramPut phys)
    modify fun m => { m with ram := store m.ram phys val }
  | .hw phys => do
    logBus (.hwPut phys)
    liftDev phys (hw.put w phys val)
  | .busError => do
    modify fun m => { m with fault := { m.fault with wb3Data := val } }
    mmuBusError addr (mmuGetFc super data) true size

def mmuGetSlow (cfg : Config) (hw : Hardware δ) (w : Sz) (read : Memory 32 → BitVec 32 → BitVec 32)
    (addr : BitVec 32) (super data : Bool) (size : Sz) (cl : L1Slot) : MmuM δ (BitVec 32) := do
  let action ← mmuSlow cfg hw addr super data false cl
  performGet hw w read addr super data size action

def mmuPutSlow (cfg : Config) (hw : Hardware δ) (w : Sz)
    (store : Memory 32 → BitVec 32 → BitVec 32 → Memory 32) (addr val : BitVec 32)
    (super data : Bool) (size : Sz) (cl : L1Slot) : MmuM δ Unit := do
  let action ← mmuSlow cfg hw addr super data true cl
  performPut hw w store addr val super data size action

def readByte : BitVec 32 := (m a).setWidth 32
def readWord : BitVec 32 := (m.getWord a).setWidth 32
def readLong : BitVec 32 := m.getLong a
def storeByte : Memory 32 := m.putByte a (v.setWidth 8)
def storeWord : Memory 32 := m.putWord a (v.setWidth 16)
def storeLong : Memory 32 := m.putLong a v

section SlowPaths

variable (cfg : Config) (hw : Hardware δ)

def mmuGetByteSlow := mmuGetSlow cfg hw .byte readByte
def mmuGetWordSlow := mmuGetSlow cfg hw .word readWord
def mmuGetLongSlow := mmuGetSlow cfg hw .long readLong
def mmuPutByteSlow := mmuPutSlow cfg hw .byte storeByte
def mmuPutWordSlow := mmuPutSlow cfg hw .word storeWord
def mmuPutLongSlow := mmuPutSlow cfg hw .long storeLong

def mmuGetQuadSlow (addr : BitVec 32) (super data : Bool) (cl : L1Slot) : MmuM δ (BitVec 64) := do
  let h ← mmuGetLongSlow cfg hw addr super data .long cl
  let l ← mmuGetLongSlow cfg hw (addr + 4) super data .long cl
  pure (h ++ l)

def mmuPutQuadSlow (addr : BitVec 32) (val : BitVec 64) (super data : Bool) (cl : L1Slot) : MmuM δ Unit := do
  mmuPutLongSlow cfg hw addr (val.extractLsb' 32 32) super data .long cl
  mmuPutLongSlow cfg hw (addr + 4) (val.extractLsb' 0 32) super data .long cl

end SlowPaths

/-! ## Lookup and fast paths -/

/-- The line of the first-level cache that an access uses. -/
def l1Slot (super data write : Bool) (addr : BitVec 32) : L1Slot := ⟨l1Row super data write, atcL1Index addr⟩

/-- `mmu_user_lookup` (and `mmu_lookup`, where `super` is the current mode): does the slot hit? -/
def mmuUserLookup (m : Machine δ) (super data write : Bool) (addr : BitVec 32) : Bool :=
  (m.l1 (l1Slot super data write addr)).tag == atcTag addr

def mmuAccess (cfg : Config) (hw : Hardware δ) (addr : BitVec 32) (super data write : Bool) :
    MmuM δ Action := do
  let m ← get
  let cl := l1Slot super data write addr
  if mmuUserLookup m super data write addr then
    pure (.ram ((m.l1 cl).phys + addr))
  else
    mmuSlow cfg hw addr super data write cl

section FastPaths

variable (cfg : Config) (hw : Hardware δ)

def mmuGet (w : Sz) (read : Memory 32 → BitVec 32 → BitVec 32) (addr : BitVec 32) (data : Bool)
    (size : Sz) : MmuM δ (BitVec 32) := do
  let m ← get
  let action ← mmuAccess cfg hw addr m.regs.s data false
  performGet hw w read addr m.regs.s data size action

def mmuPut (w : Sz) (store : Memory 32 → BitVec 32 → BitVec 32 → Memory 32) (addr val : BitVec 32)
    (data : Bool) (size : Sz) : MmuM δ Unit := do
  let m ← get
  let action ← mmuAccess cfg hw addr m.regs.s data true
  performPut hw w store addr val m.regs.s data size action

def mmuGetByte := mmuGet cfg hw .byte readByte
def mmuGetWord := mmuGet cfg hw .word readWord
def mmuGetLong := mmuGet cfg hw .long readLong
def mmuPutByte := mmuPut cfg hw .byte storeByte
def mmuPutWord := mmuPut cfg hw .word storeWord
def mmuPutLong := mmuPut cfg hw .long storeLong

end FastPaths

/-! ## Flushes -/

/-- `if (global || !l[i].global) l[i].tag = 0x8000`. -/
def AtcLine.flush (l : AtcLine) (global : Bool) : AtcLine :=
  if global || !l.global then { l with tag := emptyTag } else l

/-- One of the loops of `mmu_flush_atc` over L1: from row `row`, `n` rows at index `i`. Stepping past
the last row is an access outside `atc_l1`. -/
def flushL1Rows (global : Bool) (i : Fin 256) :
    Nat → Nat → (Fin 8 → Fin 256 → AtcLine) → Option (Fin 8 → Fin 256 → AtcLine)
  | 0, _, l1 => some l1
  | n + 1, row, l1 =>
    if h : row < 8 then
      flushL1Rows global i n (row + 1)
        (update l1 ⟨row, h⟩
          (update (l1 ⟨row, h⟩) i ((l1 ⟨row, h⟩ i).flush global)))
    else none

def xorOne {n : Nat} [NeZero n] (i : Fin n) : Fin n := Fin.ofNat n (i.val ^^^ 1)

def Machine.flushL2 (m : Machine δ) (super global : Bool) (j : Fin 4096) : Machine δ :=
  m.setL2 super j ((m.atcL2 super j).flush global)

/-- `mmu_flush_atc`; `none` when it writes outside `atc_l1`. -/
def mmuFlushAtc (m : Machine δ) (addr : BitVec 32) (super global : Bool) : Option (Machine δ) := do
  let row := 4 * super.toNat
  let i := atcL1Index addr
  let l1 ← flushL1Rows global i 4 row m.atcL1
  -- the second loop goes on from where the first one left the pointer
  let l1 ← if m.regs.mmuPagesize8k then flushL1Rows global (xorOne i) 4 (row + 4) l1 else some l1
  let j := atcL2Index addr
  let m' := { m with atcL1 := l1 }.flushL2 super global j
  some (if m.regs.mmuPagesize8k then m'.flushL2 super global (xorOne j) else m')

end Aranym.Mmu
