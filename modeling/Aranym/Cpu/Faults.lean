import Aranym.Cpu.Lemmas.Rte
import Aranym.Cpu.Lemmas.Movem

/-!
# Instructions that fault half way
-/

namespace Aranym.Cpu

open Aranym.Lib Aranym.Mmu

/-! ## `RTE` -/

/-- A failed instruction left the stack pointer, the status register and `pc` as before. -/
structure Undone (s t : CpuState) : Prop where
  areg_seven : t.areg 7 = s.areg 7
  sr : t.srValue = s.srValue
  pc : t.pc = s.pc

/-- An exception in the middle of `RTE` finds the registers from before if the first read from the stack
faults. Otherwise they have changed, unless the loop has gone once round the address space. -/
theorem rte_undone_iff (fuel : Nat) (s t : CpuState) (e : Trap) (h : exRte fuel s = .error e t) :
    (ReadFaults s .word (s.areg 7) → Undone s t) ∧
      (fuel < 2 ^ 29 → Undone s t → ReadFaults s .word (s.areg 7)) := by
  constructor
  · intro hfault
    cases fuel with
    | zero => cases h
    | succ fuel =>
      obtain ⟨-, f, rfl⟩ | ⟨hread, -⟩ := exRte_error_cases h
      · exact ⟨by simp [CpuState.areg, CpuState.setAreg, CpuState.setReg], rfl, rfl⟩
      · exact absurd hfault hread
  · intro hfuel hundone
    by_contra hread
    obtain ⟨c, hpos, hle, hactive⟩ := exRte_moves h hread
    -- with the status register from before, `A7` is the same stack pointer
    obtain ⟨-, -, hs, hm, -⟩ := sameSR_of_srValue_eq hundone.sr
    rw [← hs, ← hm, ← CpuState.areg_seven_eq_active, hundone.areg_seven, hs, hm, ← CpuState.areg_seven_eq_active] at hactive
    have hzero : BitVec.ofNat 32 c = 0 := by have := hactive.symm; grind
    have hc : c % 2 ^ 32 = 0 := by simpa using congrArg BitVec.toNat hzero
    omega

def oneFrame (format : BitVec 8) : CpuState :=
  { sampleState false with mem := fun a => if a = 0x1006 then format else 0 }

theorem rte_undone_of_fault : ∃ t, exRte 1 { oneFrame 0 with bus := fun _ => true } = .error .readFault t ∧
    Undone { oneFrame 0 with bus := fun _ => true } t :=
  ⟨_, rfl, (rte_undone_iff 1 { oneFrame 0 with bus := fun _ => true } _ _ rfl).1 rfl⟩

/-- `RTE` on a frame of the format 3. -/
theorem rte_format_error_moves_stack :
    ∃ t, exRte 1 (oneFrame 0x30) = .error (.exception 14 0) t ∧ ¬Undone (oneFrame 0x30) t := by
  refine ⟨_, rfl, fun h => ?_⟩
  have hsp : (0x1008 : BitVec 32) = 0x1000 := h.areg_seven
  exact absurd hsp (by decide)

/-! ## `MOVEM` from memory -/

theorem lines_mvmel : ∀ d ∈ defs68k, ∀ m ∈ d.mnemo.mnemos, ∀ sm ∈ d.src.modes,
    ∀ dm ∈ d.dst.modes, (m != .mvmel || dm.isMem) = true := by decide +kernel

/-- A `MOVEM` from memory whose reads fault gives the right registers when it is executed again, if the
registers it has loaded by then lead to the same elements. -/
theorem movem_sameRegs_iff (ext : Ext) (fuel : Nat) (opc : BitVec 16) (i : Instr) (s t : CpuState)
    (hi : table68k opc = some i) (hmn : i.mnemo = .mvmel) (hpc : s.faultPc = s.pc)
    (hfix : s.fixup.flag = false) (h : cpufunctbl ext fuel opc s = .error .readFault t) :
    SameRegsAfterFault (cpufunctbl ext fuel opc) s t ↔ MovemCanRestart i s := by
  have hmode := modes_of_check (fun m _ dm => m != .mvmel || dm.isMem) lines_mvmel hi
  have hmem : i.dmode.isMem = true := by simpa [hmn] using hmode
  have hrun := cpufunctbl_of_readFault hi h
  rw [hrun] at h ⊢
  exact genmovemel_sameRegs_iff hmn hmem hpc hfix h

def secondFaults (mask : BitVec 16) : CpuState :=
  { sampleState false with
    mem := fun a =>
      if a = 0xe00002 then mask.extractLsb' 8 8 else if a = 0xe00003 then mask.setWidth 8
      else if a = 3 then 0x10 else if a = 7 then 7 else 0
    bus := fun a => a.data && a.addr == 4 }

theorem movem_data_restarts : ∃ t, cpufunctbl Ext.idle 0 0x4cd0 (secondFaults 0x0003) = .error .readFault t
    ∧ SameRegsAfterFault (cpufunctbl Ext.idle 0 0x4cd0) (secondFaults 0x0003) t :=
  ⟨_, rfl, (movem_sameRegs_iff Ext.idle 0 0x4cd0 _ _ _ rfl rfl rfl rfl rfl).2
    ⟨fun _ => rfl, fun _ _ => rfl⟩⟩

/-- `MOVEM.L (A0),A0/A1`: executed again, it reads from the address that it has loaded into `A0`. -/
theorem movem_base_not_restarted :
    ∃ t, cpufunctbl Ext.idle 0 0x4cd0 (secondFaults 0x0300) = .error .readFault t
      ∧ ¬SameRegsAfterFault (cpufunctbl Ext.idle 0 0x4cd0) (secondFaults 0x0300) t := by
  refine ⟨_, rfl, ?_⟩
  rintro ⟨u, v, hu, hv, hregs⟩
  cases hu
  cases hv
  have ha1 : (0 : BitVec 32) = 7 := congrFun hregs 9
  exact absurd ha1 (by decide)

end Aranym.Cpu
