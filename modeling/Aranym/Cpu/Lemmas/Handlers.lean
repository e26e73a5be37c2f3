import Aranym.Cpu.Lemmas.Status

/-!
# Handlers that keep the condition codes
-/

namespace Aranym.Cpu

open Aranym.Lib Aranym.Mmu

variable {ext : Ext} {i : Instr} {opcode : BitVec 16}

variable (size : Sz) (rs : List (Fin 16)) (addr : BitVec 32)

/-! ## Moves -/

theorem genMvprm_noStatus : NoStatus (genMvprm i) := by
  refine .genamode fun _ => .bind genNextiword_noStatus fun _ => ?_
  refine .get_bind rfl fun _ => ?_
  apply NoStatus.ite
  · exact .bind (putMem_noStatus ..) fun _ => putMem_noStatus ..
  · refine .bind (putMem_noStatus ..) fun _ => .bind (putMem_noStatus ..) fun _ => ?_
    exact .bind (putMem_noStatus ..) fun _ => putMem_noStatus ..

theorem genMvpmr_noStatus : NoStatus (genMvpmr i) := by
  refine .bind genNextiword_noStatus fun _ => .get_bind rfl fun _ => ?_
  refine .genamode fun _ => ?_
  refine .bind (getMem_noStatus ..) fun _ => .bind (getMem_noStatus ..) fun _ => ?_
  apply NoStatus.ite
  · exact genastore_noStatus ..
  · refine .bind (getMem_noStatus ..) fun _ => .bind (getMem_noStatus ..) fun _ => ?_
    exact genastore_noStatus ..

theorem genExg_noStatus : NoStatus (genExg i) :=
  .genamode fun _ => .genamode fun _ => .bind (genastore_noStatus ..) fun _ => genastore_noStatus ..

theorem movemLoad_noStatus : NoStatus (movemLoad size rs addr) := by
  induction rs generalizing addr with
  | nil => exact .pure _
  | cons r rs ih => exact .bind (getMem_noStatus ..) fun _ => .bind (.modify rfl) fun _ => ih _

theorem genmovemel_noStatus : NoStatus (genmovemel i) := by
  refine .bind genNextiword_noStatus fun _ => .bind (genamode2_noStatus ..) fun _ => ?_
  exact .bind (movemLoad_noStatus ..) fun _ => .doIf (.modify rfl)

theorem movemStore_noStatus : NoStatus (movemStore size rs addr) := by
  induction rs generalizing addr with
  | nil => exact .pure _
  | cons r rs ih =>
    refine .get_bind rfl fun _ => ?_
    exact .bind (putMem_noStatus ..) fun _ => ih _

theorem movemStoreDown_noStatus : NoStatus (movemStoreDown size rs addr) := by
  induction rs generalizing addr with
  | nil => exact .pure _
  | cons r rs ih =>
    refine .get_bind rfl fun _ => ?_
    exact .bind (putMem_noStatus ..) fun _ => ih _

theorem genmovemle_noStatus : NoStatus (genmovemle i) := by
  refine .bind genNextiword_noStatus fun _ => .bind (genamode2_noStatus ..) fun _ => ?_
  refine .bind syncPc_noStatus fun _ => ?_
  apply NoStatus.ite
  · exact .bind (movemStoreDown_noStatus ..) fun _ => .modify rfl
  · exact movemStore_noStatus ..

theorem genMoves_noStatus : NoStatus (genMoves i) := by
  refine .genamode fun _ => ?_
  apply NoStatus.ite
  · refine .get_bind rfl fun _ => ?_
    exact .bind (genamode2_noStatus ..) fun _ => genastoreX_noStatus ..
  · refine .bind (genamode2_noStatus ..) fun _ => ?_
    exact .bind (.ite (.modify rfl) (setDregPart_noStatus ..)) fun _ => syncPc_noStatus

theorem move16Line_noStatus (mems memd : BitVec 32) : NoStatus (move16Line mems memd) := by
  refine .bind (getMem_noStatus ..) fun _ => .bind (putMem_noStatus ..) fun _ => ?_
  refine .bind (getMem_noStatus ..) fun _ => .bind (putMem_noStatus ..) fun _ => ?_
  refine .bind (getMem_noStatus ..) fun _ => .bind (putMem_noStatus ..) fun _ => ?_
  exact .bind (getMem_noStatus ..) fun _ => putMem_noStatus ..

theorem incAreg_noStatus (r : Fin 8) (n : BitVec 32) : NoStatus (incAreg r n) := .modify rfl

theorem genMove16_noStatus : NoStatus (genMove16 i opcode) := by
  apply NoStatus.ite
  · refine .get_bind rfl fun _ => .bind genNextiword_noStatus fun _ => ?_
    refine .get_bind rfl fun _ => .bind (move16Line_noStatus ..) fun _ => ?_
    exact .bind (.doIf (incAreg_noStatus ..)) fun _ => incAreg_noStatus ..
  · refine .bind (genamode2_noStatus ..) fun _ => .bind (genamode2_noStatus ..) fun _ => ?_
    refine .bind (move16Line_noStatus ..) fun _ => .bind (.doIf (incAreg_noStatus ..)) fun _ => ?_
    exact .doIf (incAreg_noStatus ..)

theorem genPack_noStatus : NoStatus (genPack i) := by
  apply NoStatus.ite
  · refine .bind genNextiword_noStatus fun _ => .get_bind rfl fun _ => ?_
    exact setDregPart_noStatus ..
  · refine .get_bind rfl fun _ => ?_
    refine .bind (getMem_noStatus ..) fun _ => .bind (getMem_noStatus ..) fun _ => ?_
    refine .bind genNextiword_noStatus fun _ => ?_
    refine .bind (.modify rfl) fun _ => .bind (.modify rfl) fun _ => ?_
    refine .bind genSetFaultPc_noStatus fun _ => .get_bind rfl fun _ => ?_
    exact putMem_noStatus ..

theorem genUnpk_noStatus : NoStatus (genUnpk i) := by
  apply NoStatus.ite
  · refine .bind genNextiword_noStatus fun _ => .get_bind rfl fun _ => ?_
    exact setDregPart_noStatus ..
  · refine .get_bind rfl fun _ => ?_
    refine .bind (getMem_noStatus ..) fun _ => .bind genNextiword_noStatus fun _ => ?_
    refine .bind (.modify rfl) fun _ => .bind (.modify rfl) fun _ => ?_
    refine .bind genSetFaultPc_noStatus fun _ => .get_bind rfl fun _ => ?_
    exact putMem_noStatus ..

/-! ## Control registers -/

theorem opIllg_throws (ext : Ext) (opcode : BitVec 16) (s : CpuState) : ∃ e t, opIllg ext opcode s = .error e t := by
  unfold opIllg
  rw [bind_ok (get_apply s)]
  split
  · split
    · exact ⟨_, _, rfl⟩
    · split <;> exact ⟨_, _, rfl⟩
  · split <;> exact ⟨_, _, rfl⟩

theorem opIllg_keepsFlags : KeepsFlags (opIllg ext opcode) := by
  refine ⟨fun {s t a} hrun => ?_⟩
  obtain ⟨e, t', h⟩ := opIllg_throws ext opcode s
  rw [h] at hrun
  cases hrun

theorem genMvr2usp_noStatus : NoStatus (genMvr2usp i) := .genamode fun _ => .modify rfl

theorem genMvusp2r_noStatus : NoStatus (genMvusp2r i) :=
  .genamode fun _ => .get_bind rfl fun _ => genastore_noStatus ..

theorem genMovec2_keepsFlags : KeepsFlags (genMovec2 ext i) := by
  refine .genamode fun _ => .get_bind fun s => ?_
  split
  · exact .modify fun _ => rfl
  · exact opIllg_keepsFlags

theorem move2c_flags {regno v s s'} (h : move2c ext regno v s = some s') : s'.flags = s.flags := by
  unfold move2c at h
  split at h <;> cases h <;> first | rfl | (dsimp only; split <;> rfl)

theorem genMove2c_keepsFlags : KeepsFlags (genMove2c ext i) := by
  refine .bind (genamode_noStatus ..).keepsFlags fun src => ⟨fun {s t a} hrun => ?_⟩
  rw [bind_ok (get_apply s)] at hrun
  cases hc : move2c ext (movecNo src.val) (s.regs (regField src.val 12)) s with
  | some s' => rw [hc] at hrun; cases hrun; exact move2c_flags hc
  | none => rw [hc] at hrun; exact opIllg_keepsFlags.run hrun

theorem genMvsr2_keepsFlags : KeepsFlags (genMvsr2 i) := by
  refine .genamode fun _ => .bind (.modify fun _ => rfl) fun _ => ?_
  exact .get_bind fun _ => (genastore_noStatus ..).keepsFlags

/-! ## Control flow -/

theorem pushReturn_noStatus : NoStatus pushReturn :=
  .get_bind rfl fun _ =>
    .bind (putMem_noStatus ..) fun _ => .modify rfl

theorem branchBy_noStatus (disp : BitVec 32) : NoStatus (branchBy disp) := .modify rfl

theorem genTrap_noStatus : NoStatus (genTrap i) :=
  .genamode fun _ => .bind genSetFaultPc_noStatus fun _ => .throw _

theorem genRtd_noStatus : NoStatus (genRtd i) :=
  .genamode fun _ => .genamode fun _ => .bind (.modify rfl) fun _ => jumpTo_noStatus _

theorem genLink_noStatus : NoStatus (genLink i) := by
  refine .genamode fun _ => .genamode fun _ => ?_
  refine .genamode fun _ => .get_bind rfl fun _ => ?_
  refine .bind (genastore_noStatus ..) fun _ => .bind (.modify rfl) fun _ => ?_
  exact genastore_noStatus ..

theorem genUnlk_noStatus : NoStatus (genUnlk i) :=
  .genamode fun _ => .bind (.modify rfl) fun _ => .genamode fun _ => genastore_noStatus ..

theorem genRts_noStatus : NoStatus genRts :=
  .get_bind rfl fun _ => .bind (getMem_noStatus ..) fun _ => .bind (jumpTo_noStatus _) fun _ => .modify rfl

theorem genTrapv_keepsFlags : KeepsFlags genTrapv :=
  .get_bind fun _ => .bind syncPc_noStatus.keepsFlags fun _ => .get_bind fun _ => .ite (.throw _) (.pure _)

theorem genJsr_noStatus : NoStatus (genJsr i) :=
  .genamode fun _ => .bind pushReturn_noStatus fun _ => jumpTo_noStatus _

theorem genJmp_noStatus : NoStatus (genJmp i) := .genamode fun _ => jumpTo_noStatus _

theorem genBsr_noStatus : NoStatus (genBsr i) :=
  .genamode fun _ => .bind pushReturn_noStatus fun _ => branchBy_noStatus _

theorem genBcc_keepsFlags : KeepsFlags (genBcc i) :=
  .genamode fun _ => .get_bind fun _ => .ite (branchBy_noStatus _).keepsFlags (.pure _)

theorem genLea_noStatus : NoStatus (genLea i) := .genamode fun _ => .genamode fun _ => genastore_noStatus ..

theorem genPea_noStatus : NoStatus (genPea i) := .genamode fun _ => .genamode fun _ => genastore_noStatus ..

theorem genDbcc_keepsFlags : KeepsFlags (genDbcc i) := by
  refine .genamode fun _ => ?_
  refine .genamode fun _ => .get_bind fun _ => ?_
  refine .ite (.pure _) (.bind (genastore_noStatus ..).keepsFlags fun _ => ?_)
  exact .doIf (branchBy_noStatus _).keepsFlags

theorem genScc_keepsFlags : KeepsFlags (genScc i) :=
  .genamode fun _ => .get_bind fun _ => (genastore_noStatus ..).keepsFlags

theorem genDummy_noStatus : NoStatus (genDummy i) := .doIf (.genamode fun _ => .pure _)

theorem genTrapcc_keepsFlags : KeepsFlags (genTrapcc i) := by
  refine .get_bind fun _ => .bind genDummy_noStatus.keepsFlags fun _ => ?_
  refine .bind syncPc_noStatus.keepsFlags fun _ => .get_bind fun _ => ?_
  exact .ite (.throw _) (.pure _)

theorem checkPrivilege_noStatus : NoStatus (checkPrivilege i) := .get_bind rfl fun _ => .doIf (.throw _)

/-! ## The FPU and the host -/

/-- What lies outside the model leaves the condition codes alone. -/
structure Ext.KeepsFlags (ext : Ext) : Prop where
  fpu : ∀ mnemo opcode pc extra, Cpu.KeepsFlags (ext.fpu mnemo opcode pc extra)
  atariReset : Cpu.KeepsFlags ext.atariReset
  emulOp : ∀ opcode, Cpu.KeepsFlags (ext.emulOp opcode)

variable (hext : ext.KeepsFlags)

include hext

theorem genFpuExtra_keepsFlags : KeepsFlags (genFpuExtra ext i opcode) :=
  .genamode fun _ => .bind syncPc_noStatus.keepsFlags fun _ => hext.fpu ..

theorem genFtrapcc_keepsFlags : KeepsFlags (genFtrapcc ext i opcode) := by
  refine .bind syncPc_noStatus.keepsFlags fun _ => .get_bind fun _ => ?_
  refine .bind genNextiword_noStatus.keepsFlags fun _ => ?_
  refine .bind genDummy_noStatus.keepsFlags fun _ => .bind syncPc_noStatus.keepsFlags fun _ => ?_
  exact hext.fpu ..

theorem genFbcc_keepsFlags : KeepsFlags (genFbcc ext i opcode) := by
  refine .bind syncPc_noStatus.keepsFlags fun _ => .get_bind fun _ => ?_
  refine .genamode fun _ => .bind syncPc_noStatus.keepsFlags fun _ => ?_
  exact hext.fpu ..

theorem genFsave_keepsFlags : KeepsFlags (genFsave ext i opcode) :=
  .bind syncPc_noStatus.keepsFlags fun _ => hext.fpu ..

end Aranym.Cpu
