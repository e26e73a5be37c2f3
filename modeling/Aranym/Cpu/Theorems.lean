import Aranym.Cpu.Lemmas.RoundTrip
import Aranym.Cpu.Lemmas.Move16

/-!
# Theorems about exception processing

`Exception` followed by `RTE`, over the three stack pointers of the architecture, and the restart of
an instruction after a bus error.
-/

namespace Aranym.Cpu

open Aranym.Lib Aranym.Lib.Memory Aranym.Mmu

variable {s : CpuState} {nr : Nat} {oldpc : BitVec 32}

/-! ## Exception and RTE -/

/-- `Exception` and the `RTE` of its handler give back the status register, the program counter of
the frame, `A7` and the stack pointers. The stack pointers before the exception are those after the
undo of an interrupted instruction's register update. -/
def Restores (nr : Nat) (oldpc : BitVec 32) (s : CpuState) : Prop :=
  ∃ s₁ s₂, exception nr oldpc s = .ok () s₁ ∧ (∀ fuel, 2 ≤ fuel → exRte fuel s₁ = .ok true s₂) ∧
    s₂.srValue = s.srValue ∧ s₂.pc = pushedPc nr s ∧ s₂.areg 7 = (undoFixup s).areg 7 ∧
    s₂.stackPtrs = (undoFixup s).stackPtrs

def twoFrames (nr : Nat) (s : CpuState) : Bool := s.m && isInterrupt nr

/-- The frames and the vector can be reached, and two frames do not overlap. -/
structure StackAccessible (nr : Nat) (s : CpuState) : Prop where
  frame : s.bus.StackOk ((undoFixup s).stackPtrs.active true s.m) (extraBytes nr + 8)
  interrupt : twoFrames nr s → s.bus.StackOk (undoFixup s).stackPtrs.isp 8
  apart : twoFrames nr s → ∀ i < 8, Outside ((undoFixup s).stackPtrs.isp - 8) 8
    ((undoFixup s).stackPtrs.msp - 8 + BitVec.ofNat 32 i)
  vector : s.bus.Grants (s.vbr + BitVec.ofNat 32 (4 * nr)) .long false

theorem Restores.of_run {s₁ s₂} (h₁ : exception nr oldpc s = .ok () s₁)
    (h₂ : ∀ fuel, 2 ≤ fuel → exRte fuel s₁ = .ok true s₂) (hsr : s₂.SameSR s) (hpc : s₂.pc = pushedPc nr s) :
    Restores nr oldpc s ↔ s₂.stackPtrs = (undoFixup s).stackPtrs := by
  constructor
  · rintro ⟨t₁, t₂, ht₁, ht₂, -, -, -, hptr⟩
    obtain rfl : s₁ = t₁ := by rw [h₁] at ht₁; exact (EStateM.Result.ok.inj ht₁).2
    have h := ht₂ 2 (le_refl 2)
    rw [h₂ 2 (le_refl 2)] at h
    rw [(EStateM.Result.ok.inj h).2]; exact hptr
  · intro hptr
    refine ⟨s₁, s₂, h₁, h₂, hsr.srValue_eq, hpc, ?_, hptr⟩
    have hmode : (undoFixup s).s = s.s ∧ (undoFixup s).m = s.m := by
      unfold undoFixup
      split <;> exact ⟨rfl, rfl⟩
    rw [s₂.areg_seven_eq_active, (undoFixup s).areg_seven_eq_active, hptr, hsr.2.2.1,
      hsr.2.2.2.1, hmode.1, hmode.2]

theorem restores_one_frame (hnr : nr < 256) (h : StackAccessible nr s) (htwo : twoFrames nr s = false) :
    Restores nr oldpc s ↔ { (undoFixup s).stackPtrs with
        isp := (undoFixup s).stackPtrs.active true s.m, msp := s.msp } = (undoFixup s).stackPtrs := by
  have he := frameState_of s
  have h7 : (frameState s).areg 7 = (undoFixup s).stackPtrs.active true s.m := by
    rw [CpuState.areg_seven_eq_active, he.stackPtrs_eq, he.s_eq, he.m_eq]
  have hok : (frameState s).bus.StackOk ((frameState s).areg 7) (extraBytes nr + 8) := by
    rw [he.bus_eq, h7]; exact h.frame
  have hint : ¬((frameState s).m ∧ isInterrupt nr) := by rw [he.m_eq]; simpa [twoFrames] using htwo
  obtain ⟨t, ht, hp, hf⟩ := exceptionFrame_ok nr oldpc he.s_eq hint hok
  rw [he.pc_eq] at ht
  rw [he.sr_eq, he.pushedPc_eq] at hf
  obtain ⟨vector, hexc⟩ := exception_ok ht (hp.s_eq.trans he.s_eq) (by
    have hvbr : t.vbr = s.vbr := by rw [hp.rest]; exact he.vbr_eq
    rw [hp.bus_eq, hvbr, he.bus_eq]
    exact h.vector)
  obtain ⟨u, hu, hpc, hptr, hsr⟩ := exRte_takeVector hp hf (frameFormat_formatOf nr hnr) he.s_eq hok
  have hrun : ∀ fuel, 2 ≤ fuel → exRte fuel (takeVector vector t) = .ok true u := by
    intro fuel hfuel
    obtain ⟨k, rfl⟩ := Nat.exists_eq_add_of_le' hfuel; exact hu (k + 1)
  rw [Restores.of_run hexc hrun (hsr s rfl) hpc, hptr, he.stackPtrs_eq, h7, he.msp_eq]

theorem restores_two_frames (hnr : nr < 256) (h : StackAccessible nr s)
    (htwo : twoFrames nr s = true) : Restores nr oldpc s := by
  obtain ⟨hm, hint⟩ : s.m = true ∧ isInterrupt nr = true := by simpa [twoFrames] using htwo
  have he := frameState_of s
  have h7 : (frameState s).areg 7 = (undoFixup s).stackPtrs.msp := by
    rw [CpuState.areg_seven_eq_active, he.stackPtrs_eq, he.s_eq, he.m_eq, hm]; rfl
  have hisp : (frameState s).isp = (undoFixup s).stackPtrs.isp := by
    rw [← he.stackPtrs_eq]; simp [CpuState.stackPtrs, he.m_eq, hm]
  have hmok : (frameState s).bus.StackOk ((frameState s).areg 7) 8 := by
    have := h.frame
    rw [hm] at this
    rw [he.bus_eq, h7]; exact this.mono (by omega)
  have hiok : (frameState s).bus.StackOk (frameState s).isp 8 := by
    rw [he.bus_eq, hisp]; exact h.interrupt htwo
  obtain ⟨t, ht, hof⟩ := interruptFrames_ok nr s.pc he.s_eq hmok hiok (by
    rw [h7, hisp]
    exact h.apart htwo)
  have hrange : 24 ≤ nr ∧ nr < 32 := by simpa [isInterrupt] using hint
  have hframe : exceptionFrame nr oldpc s.pc (frameState s) = .ok () t := by
    rw [exceptionFrame, bind_ok (get_apply _), if_neg (by omega), if_neg (by omega),
      if_neg (by omega), if_pos ⟨by rw [he.m_eq, hm], hint⟩]
    exact ht
  obtain ⟨vector, hexc⟩ := exception_ok hframe hof.s_eq (by
    rw [hof.bus_eq, hof.vbr_eq, he.bus_eq, he.vbr_eq]
    exact h.vector)
  obtain ⟨u, hu, hpc, hptr, hsr⟩ := exRte_interrupted vector hnr hof he.s_eq
    (he.m_eq.trans hm) hm he.sr_eq hmok hiok
  have hrun : ∀ fuel, 2 ≤ fuel → exRte fuel (takeVector vector t) = .ok true u := by
    intro fuel hfuel
    obtain ⟨k, rfl⟩ := Nat.exists_eq_add_of_le' hfuel; exact hu k
  have hpc' : u.pc = pushedPc nr s := by rw [hpc, pushedPc, if_neg (by omega), if_neg (by omega)]
  exact (Restores.of_run hexc hrun hsr hpc').2 (hptr.trans he.stackPtrs_eq)

/-- The stack pointers are given back exactly when `M` is clear, the exception is an interrupt, or
the interrupt stack pointer and the saved master stack pointer are both the master stack pointer. -/
theorem exception_rte_restores_iff (nr : Nat) (oldpc : BitVec 32) (s : CpuState) (hnr : nr < 256)
    (h : StackAccessible nr s) : Restores nr oldpc s ↔ s.m = false ∨ isInterrupt nr = true ∨
      ((undoFixup s).stackPtrs.isp = (undoFixup s).stackPtrs.msp ∧ s.msp = (undoFixup s).stackPtrs.msp) := by
  cases htwo : twoFrames nr s with
  | true =>
    have hint : isInterrupt nr = true := by simp only [twoFrames, Bool.and_eq_true] at htwo; exact htwo.2
    exact iff_of_true (restores_two_frames hnr h htwo) (.inr (.inl hint))
  | false =>
    rw [restores_one_frame hnr h htwo, StackPtrs.ext_iff]
    cases hm : s.m with
    | false =>
      have hmsp : s.msp = (undoFixup s).stackPtrs.msp := by
        unfold undoFixup
        split <;> simp [CpuState.stackPtrs, CpuState.setAreg, CpuState.setReg, hm]
      simp [StackPtrs.active, hmsp]
    | true =>
      have hint : isInterrupt nr = false := by simpa [twoFrames, hm] using htwo
      simp [StackPtrs.active, hint, eq_comm]

theorem stackAccessible_sampleState (m : Bool) : StackAccessible 32 (sampleState m) where
  frame := fun _ _ _ _ => rfl
  interrupt := fun _ _ _ _ _ => rfl
  apart := by
    intro h; simp [twoFrames, isInterrupt] at h
  vector := rfl

theorem exception_rte_restores_trap : Restores 32 0 (sampleState false) :=
  (exception_rte_restores_iff 32 0 (sampleState false) (by decide)
    (stackAccessible_sampleState false)).2 (.inl rfl)

/-- A `TRAP` from a program on the master stack: `RTE` returns with the master stack pointer in
`ISP`. -/
theorem trap_on_master_stack_not_restored :
    StackAccessible 32 (sampleState true) ∧ ¬Restores 32 0 (sampleState true) := by
  refine ⟨stackAccessible_sampleState true, ?_⟩
  rw [restores_one_frame (by decide) (stackAccessible_sampleState true) rfl]
  decide

/-! ## Restart after a bus error -/

/-- An instruction with `(An)+` or `-(An)` whose operand read raises a bus error can be restarted,
but for `CMPM`, `UNLK`, `MOVEM` and `MOVE16` only from some states. -/
theorem readFault_restartable_iff (ext : Ext) (fuel : Nat) (opc : BitVec 16) (i : Instr)
    (s t : CpuState) (hi : table68k opc = some i) (huse : i.usesIncDec = true)
    (hpc : s.faultPc = s.pc) (hfix : s.fixup.flag = false)
    (h : cpufunctbl ext fuel opc s = .error .readFault t) :
    Restartable (cpufunctbl ext fuel opc) s t ↔ CanRestart opc i s := by
  have hmodes := table68k_modesAllowed hi huse
  have hrun := cpufunctbl_of_readFault hi h
  rw [hrun] at h ⊢
  obtain ⟨-, hbody⟩ := genOpcode_readFault h
  by_cases hm : i.mnemo ∈ [.cmpm, .unlk, .mvmel, .move16]
  · rcases (by simpa using hm : i.mnemo = .cmpm ∨ i.mnemo = .unlk ∨ i.mnemo = .mvmel ∨ i.mnemo = .move16)
      with hmn | hmn | hmn | hmn
    · simp only [hmn, modesAllowed, Bool.and_eq_true, beq_iff_eq] at hmodes
      simp only [genBody, hmn] at hbody
      simpa only [CanRestart, hmn] using
        genCmp_cmpm_restartable hmodes.1 hmodes.2 hpc hfix hbody
    · simp only [hmn, modesAllowed, beq_iff_eq] at hmodes
      simp only [genBody, hmn] at hbody
      simpa only [CanRestart, hmn] using genUnlk_restartable hmodes hpc hfix hbody
    · simp only [hmn, modesAllowed, beq_iff_eq] at hmodes
      simpa only [CanRestart, hmn] using genmovemel_restartable hmn hmodes hpc hfix h
    · rw [hmn] at hmodes; simpa only [CanRestart, hmn] using genMove16_restartable hmn hmodes hpc hfix h
  · have hview := genBody_view (s := entered s) hmodes hm hfix hbody
    have hkept := hview.trans (view_update s s.pc 2 s.sr s.fault)
    refine iff_of_true (restartable_of_view hpc hfix hkept) ?_
    unfold CanRestart
    split <;> simp_all

/-- Operand reads at address 0 raise a bus error. `A0` is 0 and `A7` is not. -/
def nullFaults : CpuState := { sampleState false with bus := fun a => a.data && a.addr == 0 }

theorem tst_restartable : ∃ i t, table68k 0x4a18 = some i
    ∧ cpufunctbl Ext.idle 0 0x4a18 nullFaults = .error .readFault t
    ∧ Restartable (cpufunctbl Ext.idle 0 0x4a18) nullFaults t :=
  ⟨_, _, rfl, rfl,
    (readFault_restartable_iff Ext.idle 0 0x4a18 _ nullFaults _ rfl rfl rfl rfl rfl).2 trivial⟩

/-- `CMPM.B (A7)+,(A0)+` when the second read faults: `A7` stays incremented. -/
theorem cmpm_not_restartable : ∃ i t, table68k 0xb10f = some i ∧ i.usesIncDec = true
    ∧ cpufunctbl Ext.idle 0 0xb10f nullFaults = .error .readFault t
    ∧ ¬Restartable (cpufunctbl Ext.idle 0 0xb10f) nullFaults t := by
  refine ⟨_, _, rfl, rfl, rfl, fun h => ?_⟩
  have ha7 : (0x1002 : BitVec 32) = 0x1000 := h.aregs 7
  exact absurd ha7 (by decide)

end Aranym.Cpu
