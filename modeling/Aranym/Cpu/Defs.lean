import Aranym.Mmu.Access

/-!
# CPU state

The part of `regs` and `fixup` that exceptions and instruction handlers work on, and the memory as the
CPU sees it. Which accesses raise a bus error is given by `Bus`: it stands for the MMU and the memory
map behind `get_*` and `put_*`.
-/

namespace Aranym.Cpu

open Aranym.Lib Aranym.Mmu

variable (addr : BitVec 32) (r : Fin 8) (v : BitVec 32)

inductive Flag where
  | x
  | n
  | z
  | v
  | c
deriving DecidableEq

/-- `struct flag_struct`. -/
@[ext]
structure Flags where
  x : Bool
  n : Bool
  z : Bool
  v : Bool
  c : Bool
deriving DecidableEq

def Flags.get (f : Flags) : Flag → Bool
  | .x => f.x
  | .n => f.n
  | .z => f.z
  | .v => f.v
  | .c => f.c

def Flags.set (g : Flags) (f : Flag) (b : Bool) : Flags :=
  match f with
  | .x => { g with x := b }
  | .n => { g with n := b }
  | .z => { g with z := b }
  | .v => { g with v := b }
  | .c => { g with c := b }

theorem Flags.ext_get {f g : Flags} (h : ∀ i, f.get i = g.get i) : f = g :=
  Flags.ext (h .x) (h .n) (h .z) (h .v) (h .c)

/-- `struct fixup`: the value an address register gets back when the instruction faults. -/
structure Fixup where
  flag : Bool
  reg : Fin 8
  value : BitVec 32
deriving DecidableEq

structure Access where
  addr : BitVec 32
  size : Sz
  super : Bool
  data : Bool
  write : Bool
deriving DecidableEq

abbrev Bus := Access → Bool

structure CtrlRegs where
  cacr : BitVec 32
  caar : BitVec 32
  tc : BitVec 32
  itt0 : BitVec 32
  itt1 : BitVec 32
  dtt0 : BitVec 32
  dtt1 : BitVec 32
  mmusr : BitVec 32
  urp : BitVec 32
  srp : BitVec 32
deriving DecidableEq

/-- `struct regstruct` and the memory and bus around it. -/
structure CpuState where
  /-- `regs.regs`: `D0`-`D7`, then `A0`-`A7`. -/
  regs : Fin 16 → BitVec 32
  usp : BitVec 32
  isp : BitVec 32
  msp : BitVec 32
  sr : BitVec 16
  t1 : Bool
  t0 : Bool
  s : Bool
  m : Bool
  intmask : BitVec 3
  flags : Flags
  pc : BitVec 32
  /-- `m68k_pc_offset`: what the handler has read of its instruction and not yet added to `pc`. -/
  pcOffset : BitVec 32
  faultPc : BitVec 32
  vbr : BitVec 32
  sfc : BitVec 32
  dfc : BitVec 32
  ctrl : CtrlRegs
  stopped : Bool
  spcflags : BitVec 32
  fixup : Fixup
  fault : FaultInfo
  lastAddrForException3 : BitVec 32
  lastFaultForException3 : BitVec 32
  mem : Memory 32
  bus : Bus

variable (s : CpuState) (r : Fin 8) (v : BitVec 32)

/-- Why an instruction does not complete: a bus error on its way to the handler (of an operand read,
an operand write or an instruction fetch), a call of `Exception`, a bus error while the frame of
a bus error is built, which ends the emulation, the `siglongjmp` of `rts68000`, an `RTE` that has
looked at as many frames as its bound allows, or a division that the host has no quotient for. -/
inductive Trap where
  | readFault
  | writeFault
  | fetchFault
  | exception (nr : Nat) (oldpc : BitVec 32)
  | doubleBusFault
  | hostReturn
  | unfinished
  | noQuotient
deriving DecidableEq

abbrev CpuM := EStateM Trap CpuState

/-! ## Registers -/

def aregIdx : Fin 16 := ⟨8 + r.val, by omega⟩

def dregIdx : Fin 16 := ⟨r.val, by omega⟩

namespace CpuState

def areg : BitVec 32 := s.regs (aregIdx r)

def dreg : BitVec 32 := s.regs (dregIdx r)

def setReg (r : Fin 16) (v : BitVec 32) : CpuState := { s with regs := Function.update s.regs r v }

def setAreg : CpuState := s.setReg (aregIdx r) v

def setDreg : CpuState := s.setReg (dregIdx r) v

def setFlag (f : Flag) (b : Bool) : CpuState := { s with flags := s.flags.set f b }

@[simp] theorem regs_setReg_self (r : Fin 16) (v : BitVec 32) :
    (s.setReg r v).regs r = v := Function.update_self ..

theorem regs_setReg_of_ne {r x} (h : x ≠ r) (v : BitVec 32) :
    (s.setReg r v).regs x = s.regs x := Function.update_of_ne h ..

theorem areg_setAreg (x : Fin 8) (v : BitVec 32) :
    (s.setAreg r v).areg x = if x = r then v else s.areg x := by
  by_cases h : x = r
  · rw [if_pos h, h]; exact s.regs_setReg_self ..
  · rw [if_neg h]; refine s.regs_setReg_of_ne (fun heq => h ?_) v; simpa [aregIdx, Fin.ext_iff] using heq

@[simp] theorem areg_setAreg_self : (s.setAreg r v).areg r = v := by simp [areg, setAreg, setReg]

@[simp] theorem setAreg_setAreg (w : BitVec 32) : (s.setAreg r v).setAreg r w = s.setAreg r w := by
  simp [setAreg, setReg]

end CpuState

/-! ## Memory -/

def busError {α : Type} (t : Trap) (a : Access) : CpuM α := do
  modify fun s => { s with
    fault := s.fault.record a.addr (mmuGetFc a.super a.data) a.write a.size }
  throw t

def memGet {α : Type} (t : Trap) (read : Memory 32 → BitVec 32 → α) (size : Sz)
    (addr : BitVec 32) (super data : Bool) : CpuM α := do
  let s ← get
  if s.bus ⟨addr, size, super, data, false⟩ then busError t ⟨addr, size, super, data, false⟩
  else pure (read s.mem addr)

/-- A write of the size `size`. One that faults leaves its value in `wb3_data`. -/
def memPut {w : Nat} (store : Memory 32 → BitVec 32 → BitVec w → Memory 32) (size : Sz)
    (addr : BitVec 32) (v : BitVec w) (super data : Bool) : CpuM Unit := do
  let s ← get
  if s.bus ⟨addr, size, super, data, true⟩ then do
    modify fun s => { s with fault := { s.fault with wb3Data := v.setWidth 32 } }
    busError .writeFault ⟨addr, size, super, data, true⟩
  else modify fun s => { s with mem := store s.mem addr v }

def getWord : CpuM (BitVec 16) := do
  memGet .readFault Memory.getWord .word addr (← get).s true

def getLong : CpuM (BitVec 32) := do
  memGet .readFault Memory.getLong .long addr (← get).s true

def putWord (v : BitVec 16) : CpuM Unit := do
  memPut Memory.putWord .word addr v (← get).s true

def putLong : CpuM Unit := do
  memPut Memory.putLong .long addr v (← get).s true

def Bus.Grants (b : Bus) (addr : BitVec 32) (size : Sz) (write : Bool) : Prop :=
  b ⟨addr, size, true, true, write⟩ = false

/-- A supervisor program with the mode bit `m`, all of whose memory is accessible. Its stack
pointers are `USP = 0x3000`, `ISP = 0x1000` and `MSP = 0x2000`. -/
def sampleState (m : Bool) : CpuState where
  regs := fun r => if r = 15 then (if m then 0x2000 else 0x1000) else 0
  usp := 0x3000
  isp := 0x1000
  msp := 0x2000
  sr := 0
  t1 := false
  t0 := false
  s := true
  m := m
  intmask := 3
  flags := ⟨false, true, false, false, true⟩
  pc := 0xe00000
  pcOffset := 0
  faultPc := 0xe00000
  vbr := 0
  sfc := 0
  dfc := 0
  ctrl := ⟨0, 0, 0, 0, 0, 0, 0, 0, 0, 0⟩
  stopped := false
  spcflags := 0
  fixup := ⟨false, 0, 0⟩
  fault := ⟨0, 0, 0, 0⟩
  lastAddrForException3 := 0
  lastFaultForException3 := 0
  mem := fun _ => 0
  bus := fun _ => false

end Aranym.Cpu
