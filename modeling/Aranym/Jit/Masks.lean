import Aranym.Cpu.Handlers
import Aranym.Jit.Flags

/-!
# The flag masks of `table68k` and the handlers

What it means that the masks of an opcode describe a run of its handler, and the runs that they do
describe.
-/

namespace Aranym.Jit

open Aranym.Cpu

/-- `dead` and `live` describe the run of `handler` from `s` to `t`: a flag in `dead` and not in `live`
gets a value that does not depend on its old value, and a flag outside `dead` is unchanged. -/
structure Described (handler : CpuM Unit) (dead live : BitVec 8) (s t : CpuState) : Prop where
  forgets : ∀ f ∈ flagSet dead, f ∉ flagSet live → ∀ b t', handler (s.setFlag f b) = .ok () t' →
    t'.flags.get f = t.flags.get f
  keeps : ∀ f ∉ flagSet dead, t.flags.get f = s.flags.get f

def QuotientFits (result : BitVec 32 → BitVec 32 → Option (BitVec 32)) (i : Cpu.Instr) (s : CpuState) :
    Prop := ∀ src dst u, divOperands i (entered s) = .ok (src, dst) u → (result src dst).isSome

def LongQuotientFits (i : Cpu.Instr) (s : CpuState) : Prop :=
  ∀ extra src u, longOperands i (entered s) = .ok (extra, src) u →
    (divlResult (extra.setWidth 16) src (u.dreg (numField extra 12))
      (u.dreg (numField extra 0))).isSome

/-- The runs that the masks describe: `CHK`, `CHK2` and the decimal instructions keep flags that their
lines declare as set, a division whose quotient does not fit keeps `Z`, and the reset by `EmulOp`
clears the flags. -/
def MasksHold (opc : BitVec 16) (i : Cpu.Instr) (s : CpuState) : Prop :=
  match i.mnemo with
  | .chk | .chk2 | .sbcd | .abcd | .nbcd => False
  | .divu => QuotientFits divuResult i s
  | .divs => QuotientFits divsResult i s
  | .divl => LongQuotientFits i s
  | .emulop => opc = M68K_EMUL_RESET → s.flags = ⟨false, false, false, false, false⟩
  | _ => True

end Aranym.Jit
