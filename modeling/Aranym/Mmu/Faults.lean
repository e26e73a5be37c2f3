import Aranym.Mmu.Lemmas.Misaligned
import Aranym.Mmu.Theorems

/-!
# The access-error record of word and long operands

A fault the MMU raises is recorded for the whole operand, in whichever part of it the access failed.
-/

namespace Aranym.Mmu

open Aranym.Lib

variable {δ : Type} (cfg : Config) (hw : Hardware δ)

/-- A faulting access records the operand exactly when the MMU refused it, or when the record a hardware
register's bus error leaves happens to fit. -/
theorem operandFault_recorded_iff (x : OperandAccess) (m m' : Machine δ) (e : M68kException)
    (h : x.run cfg hw m = .error e m') :
    ∃ f, x.firstFault cfg hw x.parts m = some f ∧ (x.Recorded m f m'.fault ↔ x.Fits m f) := by
  obtain ⟨f, hf, hfault⟩ := x.run_error h
  refine ⟨f, hf, ?_⟩
  rw [hfault]
  exact x.recorded_iff_fits hf

def stramEndWrite : OperandAccess := ⟨.cpu true, .putLong 0x12345678, 0x00dffffe⟩

theorem stramEndWrite_recorded_iff :
    ∃ f, stramEndWrite.firstFault sampleConfig quietHardware stramEndWrite.parts (resetMachine mmuOffRegs) =
        some f ∧ (stramEndWrite.Recorded (resetMachine mmuOffRegs) f
          (final (stramEndWrite.run sampleConfig quietHardware (resetMachine mmuOffRegs))).fault ↔
        stramEndWrite.Fits (resetMachine mmuOffRegs) f) :=
  operandFault_recorded_iff sampleConfig quietHardware stramEndWrite (resetMachine mmuOffRegs) _ ⟨2⟩ rfl

/-- A misaligned word in the mirror of the hardware registers, where no device is. -/
def registerRead : OperandAccess := ⟨.cpu true, .getWord, 0xffff8701⟩

/-- The fault address recorded for the register is not the operand's: it is the physical one. -/
theorem registerRead_records_physical_address :
    ∃ f m', registerRead.run sampleConfig unclaimedHardware (resetMachine mmuOffRegs) = .error ⟨2⟩ m' ∧
      registerRead.firstFault sampleConfig unclaimedHardware registerRead.parts (resetMachine mmuOffRegs) = some f ∧
      m'.fault.mmuFaultAddr = 0x00ff8701 ∧ ¬registerRead.Recorded (resetMachine mmuOffRegs) f m'.fault := by
  refine ⟨_, _, rfl, rfl, rfl, fun h => ?_⟩
  have haddr := h.addr
  revert haddr
  decide

end Aranym.Mmu
