import Aranym.Cpu.Exception

/-!
# The three stack pointers

The architecture has separate stack pointers `USP`, `ISP` and `MSP`, and `A7` stands for the one that `S` and `M`
select.
-/

namespace Aranym.Cpu

open Aranym.Lib Aranym.Mmu BitVec

@[ext]
structure StackPtrs where
  usp : BitVec 32
  isp : BitVec 32
  msp : BitVec 32
deriving DecidableEq

variable (p : StackPtrs) (s t : CpuState)

namespace StackPtrs

def active (s m : Bool) : BitVec 32 := if s then (if m then p.msp else p.isp) else p.usp

def setActive (s m : Bool) (v : BitVec 32) : StackPtrs :=
  if s then (if m then { p with msp := v } else { p with isp := v }) else { p with usp := v }

@[simp] theorem active_setActive (s m : Bool) (v : BitVec 32) : (p.setActive s m v).active s m = v := by
  cases s <;> cases m <;> rfl

end StackPtrs

namespace CpuState

/-- The three stack pointers, wherever `A7` holds one of them. -/
def stackPtrs : StackPtrs where
  usp := if s.s then s.usp else s.areg 7
  isp := if s.s && !s.m then s.areg 7 else s.isp
  msp := if s.s && s.m then s.areg 7 else s.msp

theorem areg_seven_eq_active : s.areg 7 = s.stackPtrs.active s.s s.m := by
  rcases hs : s.s <;> rcases hm : s.m <;> simp [stackPtrs, StackPtrs.active, hs, hm]

theorem stackPtrs_setAreg_seven (v : BitVec 32) :
    (s.setAreg 7 v).stackPtrs = s.stackPtrs.setActive s.s s.m v := by
  rcases hs : s.s <;> rcases hm : s.m <;>
    simp [stackPtrs, StackPtrs.setActive, setAreg, setReg, areg, hs, hm]

end CpuState

/-! ## Changes of mode -/

theorem stackPtrs_enterSupervisor : (enterSupervisor s).stackPtrs = s.stackPtrs := by
  rcases hs : s.s <;> rcases hm : s.m <;>
    simp [enterSupervisor, CpuState.stackPtrs, CpuState.setAreg, CpuState.setReg, CpuState.areg, hs, hm]

theorem stackPtrs_switchStack (s' : CpuState) (hregs : s'.regs = s.regs) (husp : s'.usp = s.usp)
    (hisp : s'.isp = s.isp) (hmsp : s'.msp = s.msp) : (switchStack s.s s.m s').stackPtrs = s.stackPtrs := by
  rcases hs : s.s <;> rcases hm : s.m <;> rcases hs' : s'.s <;> rcases hm' : s'.m <;>
    simp [switchStack, CpuState.stackPtrs, CpuState.setAreg, CpuState.setReg, CpuState.areg, hs, hm,
      hs', hm', hregs, husp, hisp, hmsp]

theorem stackPtrs_makeFromSR : (makeFromSR s).stackPtrs = s.stackPtrs :=
  stackPtrs_switchStack s (loadSR s) rfl rfl rfl rfl

/-! ## The status register -/

@[simp] theorem getElem_srBit (b : Bool) (k : Nat) {i} (hi : i < 16) :
    (srBit b k)[i] = (decide (i = k) && b) := by
  simp only [srBit, getElem_shiftLeft, getElem_setWidth, getLsbD_ofBool]
  rcases Nat.lt_trichotomy i k with h | h | h
  · simp [h, Nat.ne_of_lt h]
  · simp [h]
  · have h0 : i - k ≠ 0 := by omega
    simp [Nat.ne_of_gt h, h0]

def CpuState.SameSR : Prop :=
  s.t1 = t.t1 ∧ s.t0 = t.t0 ∧ s.s = t.s ∧ s.m = t.m ∧ s.intmask = t.intmask ∧ s.flags = t.flags

theorem CpuState.SameSR.srValue_eq {s t : CpuState} (h : s.SameSR t) : s.srValue = t.srValue := by
  obtain ⟨h1, h2, h3, h4, h5, h6⟩ := h
  simp [CpuState.srValue, h1, h2, h3, h4, h5, h6]

theorem loadSR_srValue (h : s.sr = t.srValue) : (loadSR s).SameSR t := by
  refine ⟨?_, ?_, ?_, ?_, ?_, ?_⟩
  · simp [loadSR, h, CpuState.srValue]
  · simp [loadSR, h, CpuState.srValue]
  · simp [loadSR, h, CpuState.srValue]
  · simp [loadSR, h, CpuState.srValue]
  · simp only [loadSR, h]
    ext i hi
    have hcases : i = 0 ∨ i = 1 ∨ i = 2 := by omega
    rcases hcases with rfl | rfl | rfl <;> simp [CpuState.srValue]
  · simp [loadSR, h, CpuState.srValue]

theorem switchStack_sameSR (olds oldm : Bool) (s : CpuState) : (switchStack olds oldm s).SameSR s := by
  unfold switchStack
  split <;> split <;> (try split) <;> exact ⟨rfl, rfl, rfl, rfl, rfl, rfl⟩

theorem makeFromSR_sameSR (h : s.sr = t.srValue) : (makeFromSR s).SameSR t := by
  obtain ⟨h1, h2, h3, h4, h5, h6⟩ := switchStack_sameSR s.s s.m (loadSR s)
  obtain ⟨g1, g2, g3, g4, g5, g6⟩ := loadSR_srValue s t h
  exact ⟨h1.trans g1, h2.trans g2, h3.trans g3, h4.trans g4, h5.trans g5, h6.trans g6⟩

end Aranym.Cpu
