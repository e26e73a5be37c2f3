import Aranym.Cpu.Handlers

/-!
# Restart after a bus error

An operand read that raises a bus error ends the instruction. `Exception` undoes the recorded fixup
and builds a frame; when the program returns from it, the instruction is executed again.
-/

namespace Aranym.Cpu

open Aranym.Lib Aranym.Mmu

variable (opc : BitVec 16) (i : Instr) (s : CpuState) (size : Sz) (m : Memory 32) (addr : BitVec 32)

/-- The state in which an instruction that started in `s` and ended in `t` is executed again: the
registers and the memory as `Exception` finds them, the program counter of the frame, and accesses
as `bus` grants them after the repair. The copy of the status register, the fixup and the fault record
are no part of what a program sees. -/
def restart (t : CpuState) (bus : Bus) : CpuState :=
  { undoFixup t with
    pc := t.faultPc
    pcOffset := s.pcOffset
    sr := s.sr
    fixup := s.fixup
    fault := s.fault
    bus := bus }

/-- `Exception` gives the address registers back as they were, and whatever the instruction would have done with the page
in memory, if it had ended normally, it does when it is executed again. -/
structure Restartable (handler : CpuM Unit) (s t : CpuState) : Prop where
  aregs : ∀ r, (undoFixup t).areg r = s.areg r
  rerun : ∀ bus u, handler { s with bus := bus } = .ok () u → handler (restart s t bus) = .ok () u

/-- The instructions with an operand `(An)+` or `-(An)` that their handlers access, and those that
use `(A7)+` or `-(A7)` without such an operand. The operands of the FPU and the MMU instructions are
accessed outside the generated code. -/
def usesIncDec (m : Mnemo) (smode dmode : AMode) : Bool :=
  match m with
  | .fpp | .fscc | .fsave | .frestore | .mmuop => false
  | .unlk | .rtd | .rtr | .rts | .link | .pea => true
  | _ => smode.isIncDec || dmode.isIncDec

def Instr.usesIncDec : Bool := Cpu.usesIncDec i.mnemo i.smode i.dmode

/-! ## The states that allow a restart -/

/-- A read at the address ends in a bus error. -/
def ReadFaults : Prop := s.bus ⟨addr, size, s.s, true, false⟩ = true

instance ReadFaults.decidable (s : CpuState) (size : Sz) (addr : BitVec 32) :
    Decidable (ReadFaults s size addr) := inferInstanceAs (Decidable (_ = true))

/-- The operand at an address, sign-extended. -/
def memVal : BitVec 32 :=
  match size with
  | .byte => (m addr).signExtend 32
  | .word => (m.getWord addr).signExtend 32
  | .long => m.getLong addr

/-- A `MOVEM` from memory loads, before the first read that faults, no address register with
another value. -/
def LoadsKeepAregs (size : Sz) : List (Fin 16) → BitVec 32 → CpuState → Prop
  | [], _, _ => True
  | r :: rs, addr, s =>
    ReadFaults s size addr ∨
      (8 ≤ r.val → memVal size s.mem addr = s.regs r)
        ∧ LoadsKeepAregs size rs (addr + movemStep size) s

def lineCopied (mems memd : BitVec 32) (n : Nat) (m : Memory 32) : Memory 32 :=
  fun a => if (a - memd).toNat < n then m (mems + (a - memd)) else m a

/-- How many bytes of a line have been copied at the first read that faults, from the offset `k` on
with `c` longs to come. -/
def copiedBytes (s : CpuState) (mems : BitVec 32) : Nat → Nat → Nat
  | 0, k => k
  | c + 1, k =>
    if ReadFaults s .long (mems + BitVec.ofNat 32 k) then k else copiedBytes s mems c (k + 4)

def move16Addr (mode : AMode) (reg : BitVec 32) (m : Memory 32) (s : CpuState) : BitVec 32 :=
  if mode = .absl then lineAddr (m.getLong (s.pc + 2)) else lineAddr (s.areg (regNo reg))

def move16Decode (s : CpuState) : BitVec 32 × BitVec 32 × Option (Fin 8) :=
  if opc &&& 0xfff8 = 0xf620 then
    let dstreg := numField ((m.getWord (s.pc + 2)).setWidth 32) 12
    (lineAddr (s.areg (regNo i.sreg)), lineAddr (s.areg dstreg), some dstreg)
  else (move16Addr i.smode i.sreg m s, move16Addr i.dmode i.dreg m s, none)

def KeepsOwnWords : Prop :=
  let (mems, memd, _) := move16Decode opc i s.mem s
  move16Decode opc i (lineCopied mems memd (copiedBytes s mems 4 0) s.mem) s = move16Decode opc i s.mem s

/-- The states in which an instruction whose operand read raises a bus error can be restarted:
`CMPM` has changed the register of its source once its second read faults, `UNLK` has moved `A7`, and
`MOVEM` may have loaded address registers. -/
def CanRestart : Prop :=
  match i.mnemo with
  | .cmpm => ReadFaults s i.size (s.areg (regNo i.sreg))
  | .unlk => s.areg 7 = signed i.size (s.areg (regNo i.sreg))
  | .mvmel => LoadsKeepAregs i.size (movemRegs (s.mem.getWord (s.pc + 2))) (s.areg (regNo i.dreg)) s
  | .move16 => KeepsOwnWords opc i s
  | _ => True

/-! ## `MOVEM` from memory -/

def resident : Bus := fun _ => false

/-- After the read fault that left `t`, the instruction executed again with all pages resident ends with
the registers of an execution from `s` without the fault. -/
def SameRegsAfterFault (handler : CpuM Unit) (s t : CpuState) : Prop :=
  ∃ u v, handler { s with bus := resident } = .ok () u
    ∧ handler (restart s t resident) = .ok () v ∧ v.regs = u.regs

def movemOperands : CpuM (BitVec 16 × BitVec 32) := do
  let mask ← genNextiword
  let src ← genamode2 i.dmode i.dreg i.size .fetchAlign true .log false
  pure (mask, src.addr)

def movemAddr : BitVec 32 :=
  match movemOperands i (entered { s with bus := resident }) with
  | .ok r _ => r.2
  | .error _ _ => 0

def loadedRegs (s : CpuState) (size : Sz) :
    List (Fin 16) → BitVec 32 → (Fin 16 → BitVec 32) → Fin 16 → BitVec 32
  | [], _, regs => regs
  | r :: rs, addr, regs =>
    if ReadFaults s size addr then regs
    else loadedRegs s size rs (addr + movemStep size) (Function.update regs r (memVal size s.mem addr))

def movemRegsAtFault : Fin 16 → BitVec 32 :=
  match movemOperands i (entered s) with
  | .ok r _ => loadedRegs s i.size (movemRegs r.1) r.2 s.regs
  | .error _ _ => s.regs

def movemElem (k : Nat) : BitVec 32 := memVal size m (addr + BitVec.ofNat 32 k * movemStep size)

/-- The elements are the same from the address that the registers at the fault give, which in the mode
`(An)+` is the same itself. -/
def MovemCanRestart : Prop :=
  let addr := movemAddr i s
  let addr' := movemAddr i { s with regs := movemRegsAtFault i s }
  (i.dmode = .aipi → addr' = addr)
    ∧ ∀ k < (movemRegs (s.mem.getWord (s.pc + 2))).length,
      movemElem i.size s.mem addr' k = movemElem i.size s.mem addr k

end Aranym.Cpu
