import Aranym.Cpu.Chains

/-!
# Shifts and rotates

Each of them has a form that shifts a data register by a count and one that shifts memory by one bit.
-/

namespace Aranym.Cpu

open Aranym.Mmu

inductive Shift where
  | asr
  | asl
  | lsr
  | lsl
  | ror
  | rol
  | roxr
  | roxl
deriving DecidableEq

def Shift.reg : Shift → Sz → Bool → BitVec 32 → BitVec 32 → FlagOp (BitVec 32)
  | .asr => opAsr
  | .asl => opAsl
  | .lsr => opLsr
  | .lsl => opLsl
  | .ror => opRor
  | .rol => opRol
  | .roxr => opRoxr
  | .roxl => opRoxl

def Shift.mem : Shift → Sz → BitVec 32 → FlagOp (BitVec 32)
  | .asr => opAsrw
  | .asl => opAslw
  | .lsr => opLsrw
  | .lsl => opLslw
  | .ror => opRorw
  | .rol => opRolw
  | .roxr => opRoxrw
  | .roxl => opRoxlw

def Shift.isRox : Shift → Bool
  | .roxr | .roxl => true
  | _ => false

variable {size : Sz}

def Shift.step (sh : Shift) (p : Flags × Elem size) : Flags × Elem size := onElem size (sh.mem size) p.1 p.2

def Shift.after (sh : Shift) (f : Flags) (e : Elem size) (k : Nat) : Flags × Elem size := sh.step^[k] (f, e)

/-- A shift by `k` is `k` shifts by one bit. `V` collects the changes of the sign in `ASL`, and a shift by
zero leaves `X` in `C` or clears it. -/
structure Shifted (sh : Shift) (k : Nat) (f : Flags) (e : Elem size) (out : Flags × Elem size) : Prop where
  value : out.2 = (sh.after f e k).2
  x : out.1.x = (sh.after f e k).1.x
  n : out.1.n = out.2.msb
  z : out.1.z = (out.2 == 0#_)
  v : out.1.v = true ↔ sh = .asl ∧ ∃ j < k, (sh.after f e j).2.msb ≠ (sh.after f e (j + 1)).2.msb
  flags : 0 < k → out.1.n = (sh.after f e k).1.n ∧ out.1.z = (sh.after f e k).1.z ∧ out.1.c = (sh.after f e k).1.c
  zero : k = 0 → out.1.c = (sh.isRox && f.x)

/-! ## The instructions -/

/-- The count is a data register or an immediate of 1 to 8. -/
def Instr.CountSource (i : Instr) : Prop :=
  i.smode = .dreg ∧ i.sourceIsImm18 = false ∨
    i.smode = .immi ∧ i.sourceIsImm18 = true ∧ 1 ≤ i.sreg.toNat ∧ i.sreg.toNat ≤ 8

/-- The shift count: the immediate, or the register modulo 64. -/
def Instr.count (i : Instr) (s : CpuState) : Nat :=
  if i.sourceIsImm18 then i.sreg.toNat else (s.dreg (regNo i.sreg)).toNat % 64

end Aranym.Cpu
