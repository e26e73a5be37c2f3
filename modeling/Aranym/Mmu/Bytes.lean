import Aranym.Mmu.Misaligned
import Aranym.Mmu.Lemmas.Fresh
import Aranym.Mmu.Walk

/-!
# Operands as bytes

A word or long read or written byte by byte, and the states in which all these bytes are in RAM.
-/

namespace Aranym.Mmu

open Aranym.Lib

variable {δ : Type}

def Sz.bytes : Sz → Nat
  | .byte => 1
  | .word => 2
  | .long => 4

section

variable (cfg : Config) (hw : Hardware δ) (data : Bool)

def getBytes : Nat → BitVec 32 → BitVec 32 → MmuM δ (BitVec 32)
  | 0, _, acc => pure acc
  | n + 1, addr, acc => do
    let b ← mmuGetByte cfg hw addr data .byte
    getBytes n (addr + 1) ((acc <<< 8) ||| b)

def putBytes (val : BitVec 32) : Nat → BitVec 32 → MmuM δ Unit
  | 0, _ => pure ()
  | n + 1, addr => do
    mmuPutByte cfg hw addr (byteArg (val >>> (8 * n))) data .byte
    putBytes val n (addr + 1)

def getOperand (w : Sz) (addr : BitVec 32) : MmuM δ (BitVec 32) :=
  match w with
  | .byte => mmuGetByte cfg hw addr data .byte
  | .word => getWord cfg hw addr data
  | .long => getLong cfg hw addr data

def putOperand (w : Sz) (addr val : BitVec 32) : MmuM δ Unit :=
  match w with
  | .byte => mmuPutByte cfg hw addr (byteArg val) data .byte
  | .word => putWord cfg hw addr (val.setWidth 16) data
  | .long => putLong cfg hw addr val data

/-! ## States in which the bytes are in RAM -/

def Action.isRam : Action → Bool
  | .ram _ => true
  | .hw _ | .busError => false

/-- Each byte of the read finds RAM. -/
def RamGets : Nat → BitVec 32 → Machine δ → Prop
  | 0, _, _ => True
  | n + 1, addr, m =>
    (m.access cfg hw addr m.regs.s data false).action.isRam = true ∧
      RamGets n (addr + 1) (final (mmuGetByte cfg hw addr data .byte m))

/-- Each byte of the write finds RAM. -/
def RamPuts (val : BitVec 32) : Nat → BitVec 32 → Machine δ → Prop
  | 0, _, _ => True
  | n + 1, addr, m =>
    (m.access cfg hw addr m.regs.s data true).action.isRam = true ∧
      RamPuts val n (addr + 1) (final (mmuPutByte cfg hw addr (byteArg (val >>> (8 * n))) data .byte m))

/-! ## What the writes do to memory -/

/-- The access searches the tables: its L1 slot and its L2 line leave it open, and no register decides it. -/
def Machine.searches (m : Machine δ) (addr : BitVec 32) (super write : Bool) : Bool :=
  let slot := m.l1 (l1Slot super data write addr)
  slot.tag != atcTag addr && slot.tag != ~~~atcTag addr &&
    !(m.atcL2 super (atcL2Index addr)).decides addr data write &&
    mmuMatchTtr m.regs addr super data == .noMatch && m.regs.mmuEnabled

/-- The bits of the byte `q` that a search for the access may set: used and modified bits of the descriptors it
comes to. -/
def Machine.searchBits (m : Machine δ) (addr : BitVec 32) (super write : Bool) (q : BitVec 32) : BitVec 8 :=
  if m.searches data addr super write then Memory.byteOf (m.walkMask cfg hw addr super write) q else 0

def Action.phys : Action → BitVec 32
  | .ram p | .hw p => p
  | .busError => 0

/-- Where the bytes go. -/
def putPlaces (val : BitVec 32) : Nat → BitVec 32 → Machine δ → List (BitVec 32)
  | 0, _, _ => []
  | n + 1, addr, m =>
    (m.access cfg hw addr m.regs.s data true).action.phys ::
      putPlaces val n (addr + 1) (final (mmuPutByte cfg hw addr (byteArg (val >>> (8 * n))) data .byte m))

/-- The descriptor bits that a write sets on its way. -/
def putBits (val : BitVec 32) : Nat → BitVec 32 → Machine δ → BitVec 32 → BitVec 8
  | 0, _, _, _ => 0
  | n + 1, addr, m, q =>
    m.searchBits cfg hw data addr m.regs.s true q |||
      putBits val n (addr + 1) (final (mmuPutByte cfg hw addr (byteArg (val >>> (8 * n))) data .byte m)) q

/-- A read of `addr` is served from `p`, and a search on the way leaves what is there. -/
def Machine.ReadsFrom (m : Machine δ) (w : Sz) (addr p : BitVec 32) : Prop :=
  ∃ m', mmuAccess cfg hw addr m.regs.s data false m = .ok (.ram p) m' ∧ w.read m'.ram p = w.read m.ram p

end

structure Machine.Hits (m : Machine δ) (addr : BitVec 32) (data write : Bool) (off : BitVec 32) : Prop where
  tag : (m.l1 (l1Slot m.regs.s data write addr)).tag = atcTag addr
  phys : (m.l1 (l1Slot m.regs.s data write addr)).phys = off

end Aranym.Mmu
