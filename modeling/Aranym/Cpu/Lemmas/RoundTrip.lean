import Aranym.Cpu.Lemmas.Frame

/-!
# From an exception back to the interrupted program

The states that `Exception` leaves behind, and the state after `ex_rte`.
-/

namespace Aranym.Cpu

open Aranym.Lib Aranym.Lib.Memory Aranym.Mmu

variable {s t : CpuState} {nr : Nat} {oldpc : BitVec 32}

def frameState (s : CpuState) : CpuState := enterSupervisor (undoFixup (makeSR s))

def takeVector (vector : BitVec 32) (s : CpuState) : CpuState :=
  { setpc vector s with
    t1 := false
    t0 := false
    m := false
    spcflags := (s.spcflags ||| spcflagJitEndCompile) &&& ~~~(spcflagTrace ||| spcflagDotrace) }

structure FrameStateOf (s e : CpuState) : Prop where
  s_eq : e.s = true
  m_eq : e.m = s.m
  msp_eq : e.msp = s.msp
  sr_eq : e.sr = s.srValue
  pc_eq : e.pc = s.pc
  pushedPc_eq : ∀ nr, pushedPc nr e = pushedPc nr s
  vbr_eq : e.vbr = s.vbr
  bus_eq : e.bus = s.bus
  stackPtrs_eq : e.stackPtrs = (undoFixup s).stackPtrs

theorem frameState_of (s : CpuState) : FrameStateOf s (frameState s) := by
  have hstack : (frameState s).stackPtrs = (undoFixup s).stackPtrs := by
    rw [frameState, stackPtrs_enterSupervisor]
    unfold undoFixup
    rcases hf : s.fixup.flag <;> simp only [makeSR, hf] <;> rfl
  refine ⟨?_, ?_, ?_, ?_, ?_, ?_, ?_, ?_, hstack⟩ <;>
  · unfold frameState enterSupervisor undoFixup
    rcases hf : s.fixup.flag <;> rcases hs : s.s <;>
      simp [makeSR, hf, hs, CpuState.setAreg, CpuState.setReg, pushedPc]

theorem exception_ok (hframe : exceptionFrame nr oldpc s.pc (frameState s) = .ok () t)
    (ht : t.s = true) (hv : t.bus.Grants (t.vbr + BitVec.ofNat 32 (4 * nr)) .long false) :
    ∃ vector, exception nr oldpc s = .ok () (takeVector vector t) := by
  refine ⟨t.mem.getLong (t.vbr + BitVec.ofNat 32 (4 * nr)), ?_⟩
  rw [exception, bind_ok (get_apply s), bind_ok (modify_apply ..), bind_ok (modify_apply ..),
    bind_ok (modify_apply ..)]
  change (exceptionFrame nr oldpc s.pc >>= _) (frameState s) = _
  rw [bind_ok hframe, bind_ok (get_apply t), bind_ok (getLong_ok ht hv)]
  rfl

/-! ## One frame -/

theorem exRte_takeVector {e sr pc vector format n} (hp : Pushed (n + 8) e t)
    (hf : FrameAt t.mem (t.areg 7) sr pc format)
    (hfmt : frameFormat format = .leave (BitVec.ofNat 32 n)) (hs : e.s = true)
    (hok : e.bus.StackOk (e.areg 7) (n + 8)) :
    ∃ u, (∀ fuel, exRte (fuel + 1) (takeVector vector t) = .ok true u) ∧ u.pc = pc ∧
      u.stackPtrs = { e.stackPtrs with isp := e.areg 7, msp := e.msp } ∧
      ∀ v : CpuState, sr = v.srValue → u.SameSR v := by
  have hr : FrameReadable t.bus (t.areg 7) := by
    rw [hp.bus_eq, hp.areg_seven]; exact hok.frameReadable (by omega)
  have hback : t.areg 7 + 8 + BitVec.ofNat 32 n = e.areg 7 := by
    rw [hp.areg_seven, Nat.add_comm n 8, BitVec.ofNat_add, BitVec.add_assoc]
    exact BitVec.sub_add_cancel ..
  have hts : t.s = true := hp.s_eq.trans hs
  have husp : t.usp = e.usp := by rw [hp.rest]; rfl
  have hmsp : t.msp = e.msp := by rw [hp.rest]; rfl
  refine ⟨_, fun fuel => exRte_leave fuel (s := takeVector vector t) hts hr hf hfmt, rfl, ?_, ?_⟩
  · change (makeFromSR _).stackPtrs = _
    rw [stackPtrs_makeFromSR]
    -- the mode bits are now `S = 1` and `M = 0`, whatever `M` was when the frame was pushed
    change ((takeVector vector t).setAreg 7 (t.areg 7 + 8 + BitVec.ofNat 32 n)).stackPtrs = _
    rw [CpuState.stackPtrs_setAreg_seven, hback]
    ext1 <;> simp [CpuState.stackPtrs, StackPtrs.setActive, takeVector, setpc, hts, hs, husp, hmsp]
  · intro v hv; exact makeFromSR_sameSR _ v hv

/-! ## Two frames -/

structure InterruptedOf (e t : CpuState) (pc : BitVec 32) (nr : Nat) : Prop where
  s_eq : t.s = true
  vbr_eq : t.vbr = e.vbr
  bus_eq : t.bus = e.bus
  usp_eq : t.usp = e.usp
  msp_eq : t.msp = e.areg 7 - 8
  areg_seven : t.areg 7 = e.isp - 8
  throwaway : FrameAt t.mem (t.areg 7) (e.sr ||| 0x2000) pc (formatWord 1 nr)
  master : FrameAt t.mem (e.areg 7 - 8) e.sr pc (formatWord 0 nr)

theorem interruptFrames_ok {e} (nr : Nat) (pc : BitVec 32) (hs : e.s = true)
    (hm : e.bus.StackOk (e.areg 7) 8) (hi : e.bus.StackOk e.isp 8)
    (hapart : ∀ i < 8, Outside (e.isp - 8) 8 (e.areg 7 - 8 + BitVec.ofNat 32 i)) :
    ∃ t, interruptFrames pc nr e = .ok () t ∧ InterruptedOf e t pc nr := by
  obtain ⟨a, ha, hpa, hfa⟩ := excMakeFrame_ok 0 e.sr pc nr .pure hs hm
  have haisp : a.isp = e.isp := by rw [hpa.rest]; rfl
  have hasr : a.sr = e.sr := by rw [hpa.rest]; rfl
  -- the state with the interrupt stack in `A7`
  obtain ⟨b, hb⟩ : ∃ b : CpuState, b = ({ a with sr := a.sr ||| 0x2000, msp := a.areg 7 } :
    CpuState).setAreg 7 a.isp := ⟨_, rfl⟩
  have hb7 : b.areg 7 = e.isp := by rw [hb, CpuState.areg_setAreg_self, haisp]
  have hbs : b.s = true := by rw [hb]; exact hpa.s_eq.trans hs
  have hbbus : b.bus = e.bus := by rw [hb]; exact hpa.bus_eq
  obtain ⟨c, hc, hpc, hfc⟩ := excMakeFrame_ok 1 (e.sr ||| 0x2000) pc nr .pure hbs
    (by rw [hbbus, hb7]; exact hi)
  have hrun : interruptFrames pc nr e = .ok () c := by
    rw [interruptFrames, bind_ok (get_apply e)]
    refine (bind_ok ha).trans ?_
    rw [bind_ok (modify_apply ..), bind_ok (modify_apply ..), bind_ok (get_apply _)]
    rw [← hasr, hb] at hc; exact hc
  have hkeep : AgreeOn (e.areg 7 - 8) 8 c.mem a.mem := by
    intro i hi
    have hout := hapart i hi
    rw [← hb7] at hout
    rw [hpc.outside _ hout, hb]; rfl
  refine ⟨c, hrun, hpc.s_eq.trans hbs, ?_, hpc.bus_eq.trans hbbus, ?_, ?_, ?_, hfc, ?_⟩
  · rw [hpc.rest, hb, hpa.rest]; rfl
  · rw [hpc.rest, hb, hpa.rest]; rfl
  · rw [hpc.rest, hb]; exact hpa.areg_seven
  · rw [hpc.areg_seven, hb7]; rfl
  · rw [hpa.areg_seven] at hfa; exact hfa.congr hkeep

theorem srValue_or_super (s : CpuState) :
    s.srValue ||| 0x2000 = ({ s with s := true } : CpuState).srValue := by
  have hbit : (0x2000 : BitVec 16) = srBit true 13 := rfl
  rw [hbit]
  ext i hi
  by_cases h13 : i = 13 <;> simp [CpuState.srValue, h13]

theorem makeFromSR_bus (s : CpuState) : (makeFromSR s).bus = s.bus := by
  unfold makeFromSR switchStack
  split <;> split <;> (try split) <;> rfl

theorem makeFromSR_mem (s : CpuState) : (makeFromSR s).mem = s.mem := by
  unfold makeFromSR switchStack
  split <;> split <;> (try split) <;> rfl

theorem exRte_interrupted {e pc} (vector : BitVec 32) (hnr : nr < 256)
    (hint : InterruptedOf e t pc nr) (hs : e.s = true) (hm : e.m = true) (hsm : s.m = true)
    (hsr : e.sr = s.srValue) (hmok : e.bus.StackOk (e.areg 7) 8) (hiok : e.bus.StackOk e.isp 8) :
    ∃ u, (∀ fuel, exRte (fuel + 2) (takeVector vector t) = .ok true u) ∧ u.pc = pc ∧
      u.stackPtrs = e.stackPtrs ∧ u.SameSR s := by
  have hthrow := frameFormat_throwaway nr hnr
  have hr : FrameReadable t.bus (t.areg 7) := by
    rw [hint.bus_eq, hint.areg_seven]; exact hiok.frameReadable (le_refl 8)
  have hback : t.areg 7 + 8 = e.isp := by rw [hint.areg_seven]; exact BitVec.sub_add_cancel ..
  -- the throwaway frame selects the master stack
  have h₁ := fun fuel =>
    exRte_throwaway (s := takeVector vector t) (fuel + 1) hint.s_eq hr hint.throwaway hthrow
  obtain ⟨w, hw⟩ : ∃ w : CpuState, w = makeFromSR { (takeVector vector t).setAreg 7
    ((takeVector vector t).areg 7 + 8) with sr := e.sr ||| 0x2000 } := ⟨_, rfl⟩
  simp only [← hw] at h₁
  have hwsr : w.SameSR { s with s := true } := by
    rw [hw]; exact makeFromSR_sameSR _ _ (by rw [hsr]; exact srValue_or_super s)
  have hwptr : w.stackPtrs = { e.stackPtrs with msp := e.areg 7 - 8 } := by
    rw [hw, stackPtrs_makeFromSR]
    change ((takeVector vector t).setAreg 7 (t.areg 7 + 8)).stackPtrs = _
    rw [CpuState.stackPtrs_setAreg_seven, hback]
    ext1 <;> simp [CpuState.stackPtrs, StackPtrs.setActive, takeVector, setpc, hint.s_eq, hs, hm,
      hint.usp_eq, hint.msp_eq]
  have hw7 : w.areg 7 = e.areg 7 - 8 := by
    rw [w.areg_seven_eq_active, hwptr, hwsr.2.2.1, hwsr.2.2.2.1]; simp [StackPtrs.active, hsm]
  have hwmem : w.mem = t.mem := by rw [hw, makeFromSR_mem]; rfl
  have hwbus : w.bus = e.bus := by rw [hw, makeFromSR_bus]; exact hint.bus_eq
  -- the frame on the master stack ends the loop
  have h₂ := fun fuel => exRte_leave (s := w) fuel hwsr.2.2.1
    (by rw [hwbus, hw7]; exact hmok.frameReadable (le_refl 8))
    (by rw [hwmem, hw7]; exact hint.master)
    (frameFormat_short nr hnr)
  refine ⟨_, fun fuel => (h₁ fuel).trans (h₂ fuel), rfl, ?_, makeFromSR_sameSR _ s hsr⟩
  change (makeFromSR _).stackPtrs = _
  rw [stackPtrs_makeFromSR]
  change (w.setAreg 7 (w.areg 7 + 8 + 0)).stackPtrs = _
  have hback' : w.areg 7 + 8 + 0 = e.areg 7 := by rw [hw7, add_zero]; exact BitVec.sub_add_cancel ..
  rw [CpuState.stackPtrs_setAreg_seven, hback', hwptr, hwsr.2.2.1, hwsr.2.2.2.1]
  ext1 <;> simp [CpuState.stackPtrs, StackPtrs.setActive, hs, hm, hsm]

end Aranym.Cpu
