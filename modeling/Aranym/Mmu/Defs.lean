import Aranym.Lib.Memory
import Aranym.Lib.Program

/-!
# State of the full MMU emulation

The data of `cpummu.h` and `memory-uae.h`: lines of the address translation cache (ATC), its two
levels, the MMU registers, physical memory and the hardware registers behind it. Host pointers
into an ATC array are row and index; the hardware register functions `HWget_*` and `HWput_*` are
a parameter, because the devices are no part of the MMU.
-/

namespace Aranym.Mmu

open Aranym.Lib Function

/-- `m68k_exception`, the thrown vector. -/
structure M68kException where
  prb : Nat
deriving DecidableEq

inductive Sz where
  | byte
  | word
  | long
deriving DecidableEq

/-! ## ATC lines -/

/-- `struct mmu_atc_line`. -/
structure AtcLine where
  tag : BitVec 16
  tt : Bool
  validData : Bool
  validInst : Bool
  global : Bool
  modified : Bool
  writeProtect : Bool
  hw : Bool
  busFault : Bool
  phys : BitVec 32
deriving DecidableEq

def AtcLine.valid (l : AtcLine) (data : Bool) : Bool := if data then l.validData else l.validInst

def emptyTag : BitVec 16 := 0x8000

def AtcLine.empty : AtcLine := ⟨emptyTag, false, false, false, false, false, false, false, false, 0⟩

def atcTag (addr : BitVec 32) : BitVec 16 := (addr >>> 18).setWidth 16

def atcL1Index (addr : BitVec 32) : Fin 256 := ⟨(addr >>> 12).toNat % 256, Nat.mod_lt _ (by decide)⟩

def atcL2Index (addr : BitVec 32) : Fin 4096 :=
  ⟨((addr >>> 12) ^^^ (addr >>> 20)).toNat % 4096, Nat.mod_lt _ (by decide)⟩

/-- Row of `atc_l1` for `[super][data][rw]`; a row has `ATC_L1_SIZE` lines and rows are adjacent. -/
def l1Row (super data write : Bool) : Fin 8 :=
  ⟨4 * super.toNat + 2 * data.toNat + write.toNat, by cases super <;> cases data <;> cases write <;> decide⟩

structure L1Slot where
  row : Fin 8
  idx : Fin 256
deriving DecidableEq

/-! ## Registers and machine -/

structure MmuRegs where
  urp : BitVec 32
  srp : BitVec 32
  itt0 : BitVec 32
  itt1 : BitVec 32
  dtt0 : BitVec 32
  dtt1 : BitVec 32
  mmuEnabled : Bool
  mmuPagesize8k : Bool
  s : Bool
deriving DecidableEq

structure FaultInfo where
  mmuFaultAddr : BitVec 32
  mmuSsw : BitVec 16
  wb3Status : BitVec 16
  wb3Data : BitVec 32
deriving DecidableEq

inductive BusOp where
  | ramGet (phys : BitVec 32)
  | ramPut (phys : BitVec 32)
  | hwGet (phys : BitVec 32)
  | hwPut (phys : BitVec 32)
deriving DecidableEq

/-- Memory configuration: size of FastRAM in bytes, start of the video RAM, and whether the first
2 kB are reserved to the supervisor (`PROTECT2K`). -/
structure Config where
  fastRamSize : Nat
  videoRamBase : BitVec 32
  protect2k : Bool
deriving DecidableEq

/-- The hardware register space: `HWget_b/w/l` and `HWput_b/w/l` over a device state `δ`. -/
structure Hardware (δ : Type) where
  get : Sz → BitVec 32 → EStateM M68kException δ (BitVec 32)
  put : Sz → BitVec 32 → BitVec 32 → EStateM M68kException δ Unit

/-- The machine as the memory functions see it. `busLog` lists the operand accesses performed. -/
structure Machine (δ : Type) where
  regs : MmuRegs
  atcL1 : Fin 8 → Fin 256 → AtcLine
  atcL2 : Bool → Fin 4096 → AtcLine
  ram : Memory 32
  dev : δ
  fault : FaultInfo
  busLog : List BusOp

abbrev MmuM (δ : Type) := EStateM M68kException (Machine δ)

variable {δ : Type}

def Machine.l1 (m : Machine δ) (cl : L1Slot) : AtcLine := m.atcL1 cl.row cl.idx

def Machine.setL1 (m : Machine δ) (cl : L1Slot) (l : AtcLine) : Machine δ :=
  { m with atcL1 := update m.atcL1 cl.row (update (m.atcL1 cl.row) cl.idx l) }

def Machine.setL2 (m : Machine δ) (super : Bool) (idx : Fin 4096) (l : AtcLine) : Machine δ :=
  { m with atcL2 := update m.atcL2 super (update (m.atcL2 super) idx l) }

/-- Run a device function for the register at `addr` on the device part of the machine. `BUS_ERROR`
records the address before it throws. -/
def liftDev {α : Type} (addr : BitVec 32) (f : EStateM M68kException δ α) : MmuM δ α := fun m =>
  match f m.dev with
  | .ok a d => .ok a { m with dev := d }
  | .error e d => .error e { m with dev := d, fault := { m.fault with mmuFaultAddr := addr } }

end Aranym.Mmu
