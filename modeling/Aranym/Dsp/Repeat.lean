import Aranym.Dsp.Simultaneous
import Aranym.Dsp.Cpu

/-!
# The repetition of an instruction

`REP` counts in `LC` and keeps its old value in `LCSAVE`. The instruction after it stays the current one until the
count is 0, and no interrupt is taken meanwhile.
-/

namespace Aranym.Dsp

open BitVec Function

namespace Core

variable {c s : Core}

theorem registers_setReg (s : Core) (n : RegNum) (value : BitVec 32) : (s.setReg n value).registers n = value := by
  dsimp only [setReg]
  rw [update_self]

theorem registers_setReg_ne {n k} (h : k ≠ n) (s : Core) (value : BitVec 32) :
    (s.setReg n value).registers k = s.registers k := by
  dsimp only [setReg]
  rw [update_of_ne h]

theorem setReg_setReg (s : Core) (n : RegNum) (value value' : BitVec 32) :
    (s.setReg n value).setReg n value' = s.setReg n value' := by
  rw [setReg, setReg, setReg]
  dsimp only
  rw [update_idem]

/-! ## `REP` itself -/

def IsRep (c : Core) : Prop :=
  c.fetch.curInst >>> 16 &&& bitmask 8 = 6 ∧ c.fetch.curInst.getLsbD 5 ∧ c.fetch.loopMode ≠ 4

instance (c : Core) : Decidable c.IsRep := inferInstanceAs (Decidable (_ ∧ _ ∧ _))

def loopOperand (c : Core) : BitVec 32 :=
  if c.loopMode = 0 then (c.readMemory c.memspace (c.field.setWidth 16)).1
  else if c.loopMode = 2 then ((c.calcEa c.field).2.2.readMemory c.memspace ((c.calcEa c.field).1.setWidth 16)).1
  else if c.loopMode = 6 then (c.readSource c.field).1
  else c.loopImm

def lcSaved (c : Core) : Core := c.fetch.setReg regLcsave (c.registers regLc)

/-- How often a `REP` repeats; a count of zero is 65536. -/
def repTimes (c : Core) : Nat :=
  if c.lcSaved.loopOperand.toNat % 2 ^ 16 = 0 then 2 ^ 16 else c.lcSaved.loopOperand.toNat % 2 ^ 16

theorem repTimes_spec (c : Core) : 0 < c.repTimes ∧ c.repTimes ≤ 2 ^ 16 ∧
    c.lcSaved.loopOperand.toNat % 2 ^ 16 = c.repTimes % 2 ^ 16 := by
  unfold repTimes
  split <;> omega

theorem loopCount_spec (hmode : c.loopMode ≠ 4) : ∃ c' value, Prepared c c' ∧
    c.loopCount (BitVec.allOnes 32) = c'.setReg regLc value ∧ value.toNat % 2 ^ 16 = c.loopOperand.toNat % 2 ^ 16 := by
  unfold loopCount loopOperand
  split
  · rename_i h
    rw [if_pos h]
    refine ⟨_, (c.readMemory _ _).1 &&& BitVec.allOnes 32, prepared_readMemory _ _ c, rfl, ?_⟩
    rw [and_allOnes]
  · rename_i h
    rw [h, if_neg (by decide), if_pos rfl]
    have hprep := (prepared_calcEa c.field c).trans
      (prepared_readMemory c.memspace ((c.calcEa c.field).1.setWidth 16) (c.calcEa c.field).2.2)
    refine ⟨_, ((c.calcEa c.field).2.2.readMemory c.memspace ((c.calcEa c.field).1.setWidth 16)).1 &&& BitVec.allOnes 32,
      hprep, rfl, ?_⟩
    rw [and_allOnes]
  · contradiction
  · rename_i h
    rw [h, if_neg (by decide), if_neg (by decide), if_pos rfl]
    refine ⟨_, (c.readSource _).1 &&& bitmask 16, prepared_readSource _ c, rfl, ?_⟩
    rw [toNat_and_bitmask _ (by decide), Nat.mod_mod]
  · rename_i h0 h2 _ h6; rw [if_neg h0, if_neg h2, if_neg h6]; exact ⟨_, _, .refl c, rfl, rfl⟩

theorem execute_of_isRep (h : c.IsRep) : c.fetch.execute = c.fetch.rep := by
  obtain ⟨hop, hbit, -⟩ := h
  have hne : c.fetch.curInst &&& 0xfe4000 ≠ 0x080000 := by
    intro h
    have h3 := congrArg (BitVec.getLsbD · 3) hop
    have h19 := congrArg (BitVec.getLsbD · 19) h
    simp [bitmask] at h3 h19
    grind
  unfold execute
  rw [hop, if_pos ⟨by decide, hne⟩]
  show c.fetch.opcode8h6 = _
  rw [opcode8h6, if_pos hbit]

/-- The core after the `REP` itself. -/
def repStarted (c : Core) : Core :=
  let s := c.fetch.execute.repeatInstruction
  { s with pc := s.pc + BitVec.ofNat 16 s.curInstLen }

structure Repeating (old : BitVec 32) (s : Core) : Prop where
  loopRep : s.loopRep = true
  pcOnRep : s.pcOnRep = false
  lcsave : s.registers regLcsave = old

theorem repeatInstruction_first (hrep : s.loopRep = true) (hon : s.pcOnRep = true) : s.repeatInstruction =
    { s.setReg regLc (if s.registers regLc = 0 then 0x010000 else s.registers regLc) with pcOnRep := false } := by
  rw [repeatInstruction, if_pos hrep, if_pos hon]
  split
  · rfl
  · rw [setReg, update_eq_self]

theorem repStarted_spec (h : c.IsRep) : Repeating (c.registers regLc) c.repStarted ∧
    (c.repStarted.registers regLc).toNat % 2 ^ 16 = c.repTimes % 2 ^ 16 := by
  obtain ⟨c', value, hprep, hcount, hvalue⟩ := @loopCount_spec c.lcSaved h.2.2
  have hrep : c.fetch.rep = { c'.setReg regLc value with pcOnRep := true, loopRep := true } := by
    rw [← hcount]; rfl
  have hfirst := @repeatInstruction_first c.fetch.rep (by rw [hrep]) (by rw [hrep])
  have hlc : c.fetch.rep.registers regLc = value := by rw [hrep, registers_setReg]
  have hlcsave : c.fetch.rep.registers regLcsave = c.registers regLc := by
    rw [hrep, registers_setReg_ne (by decide), hprep.special regLcsave (by decide) (by decide), lcSaved, registers_setReg]
  rw [hlc] at hfirst
  have hloop : c.fetch.rep.loopRep = true := by rw [hrep]
  unfold repStarted
  rw [execute_of_isRep h, hfirst, ← (repTimes_spec c).2.2, ← hvalue]
  refine ⟨⟨hloop, rfl, ?_⟩, ?_⟩
  · dsimp only; rw [registers_setReg_ne (by decide), hlcsave]
  · dsimp only
    rw [registers_setReg]
    split
    · rename_i h0; rw [h0]; rfl
    · rfl

/-! ## The repeated instruction -/

def once (s : Core) : Core := s.fetch.execute

/-- The instruction at the program counter is a single word, does not use the loop counter, and does not change the flow
of the program. -/
structure Repeatable (s : Core) : Prop where
  lc : ∀ lc, (s.setReg regLc lc).once = s.once.setReg regLc lc
  length : s.once.curInstLen = 1
  pc : s.once.pc = s.pc
  loopRep : s.once.loopRep = s.loopRep
  pcOnRep : s.once.pcOnRep = s.pcOnRep
  lcsave : s.once.registers regLcsave = s.registers regLcsave

/-- The next instruction ends the body of a `DO` loop. -/
def AtLoopEnd (s : Core) : Prop := (s.registers regSr).getLsbD srLf ∧ s.pc.setWidth 32 = s.registers regLa + 1

theorem loopEnd_of_not (h : ¬ s.AtLoopEnd) : s.loopEnd = s := by
  unfold loopEnd
  split
  · rename_i hlf; rw [if_neg fun hla => h ⟨hlf, hla⟩]
  · rfl

def counting (s : Core) (lc : BitVec 32) (len : Nat) : Core := { s.setReg regLc lc with curInstLen := len }

theorem Repeating.once {old} (h : Repeating old s) (hs : s.Repeatable) : Repeating old s.once :=
  ⟨hs.loopRep.trans h.loopRep, hs.pcOnRep.trans h.pcOnRep, hs.lcsave.trans h.lcsave⟩

theorem decrement_count {lc m} (hm : 0 < m) (hmax : m ≤ 2 ^ 16) (hlc : lc.toNat % 2 ^ 16 = m % 2 ^ 16) :
    ((lc - 1) &&& bitmask 16).toNat = m - 1 := by
  have hsub : (lc - 1).toNat = (2 ^ 32 - 1 + lc.toNat) % 2 ^ 32 := toNat_sub ..
  rw [toNat_and_bitmask _ (by decide), hsub]
  omega

theorem repeatInstruction_once {old lc len m} (hs : s.Repeatable) (h : Repeating old s) (hm : 0 < m)
    (hmax : m ≤ 2 ^ 16) (hlc : lc.toNat % 2 ^ 16 = m % 2 ^ 16) : (s.counting lc len).once.repeatInstruction =
      if m = 1 then { s.once.setReg regLc old with loopRep := false } else s.once.counting ((lc - 1) &&& bitmask 16) 0 := by
  have hdec := decrement_count hm hmax hlc
  have hfetch : (s.counting lc len).once = (s.setReg regLc lc).once := rfl
  have hrep : (s.once.setReg regLc lc).loopRep = true := hs.loopRep.trans h.loopRep
  have hon : (s.once.setReg regLc lc).pcOnRep = false := hs.pcOnRep.trans h.pcOnRep
  rw [hfetch, hs.lc, repeatInstruction, if_pos hrep, if_neg (by rw [hon]; decide), registers_setReg, setReg_setReg]
  generalize (lc - 1) &&& bitmask 16 = lc' at hdec
  dsimp only
  rw [registers_setReg]
  by_cases h1 : m = 1
  · have hzero : ¬ lc' > 0 := by rw [gt_iff_lt, lt_def, hdec, h1]; decide
    rw [if_neg hzero, if_pos h1, registers_setReg_ne (by decide), hs.lcsave, h.lcsave]
    exact congrArg (fun s : Core => { s with loopRep := false }) (setReg_setReg s.once regLc lc' old)
  · have hpos : lc' > 0 := by rw [gt_iff_lt, lt_def, hdec]; show 0 < m - 1; omega
    rw [if_pos hpos, if_neg h1]; rfl

theorem executeInstruction_counting {t : Core} {old lc : BitVec 32} (h : t.once.repeatInstruction = s.counting lc 0)
    (hs : Repeating old s) (hnot : ¬ s.AtLoopEnd) : t.executeInstruction = s.counting lc 0 := by
  have hupdate : t.fetch.execute.postexecuteUpdatePc = s.counting lc 0 := by
    have hpc : { s.counting lc 0 with pc := (s.counting lc 0).pc + BitVec.ofNat 16 0 } = s.counting lc 0 := by
      rw [BitVec.add_zero]
    have hend : ¬ (s.counting lc 0).AtLoopEnd := by
      intro h
      apply hnot
      rw [AtLoopEnd, counting] at h
      dsimp only at h; rwa [registers_setReg_ne (by decide), registers_setReg_ne (by decide)] at h
    rw [← loopEnd_of_not hend]
    exact (congrArg (fun u : Core => { u with pc := u.pc + BitVec.ofNat 16 u.curInstLen }.loopEnd) h).trans
      (congrArg loopEnd hpc)
  have hloop : (s.counting lc 0).loopRep = true := hs.loopRep
  rw [executeInstruction, hupdate, postexecuteInterrupts, if_pos hloop]

/-! ## The repetition -/

section Run

variable (hrep : c.IsRep) (hbody : ∀ k < c.repTimes, (once^[k] c.repStarted).Repeatable)
  (hend : ∀ k < c.repTimes, ¬ (once^[k] c.repStarted).AtLoopEnd)
include hrep hbody

theorem repeating_iterate {k} (hk : k ≤ c.repTimes) : Repeating (c.registers regLc) (once^[k] c.repStarted) ∧
    (once^[k] c.repStarted).pc = c.repStarted.pc := by
  induction k with
  | zero => exact ⟨(repStarted_spec hrep).1, rfl⟩
  | succ k ih =>
    obtain ⟨hrepeating, hpc⟩ := ih (by omega)
    rw [iterate_succ_apply']
    exact ⟨hrepeating.once (hbody k hk), (hbody k hk).pc.trans hpc⟩

include hend

theorem counting_iterate {k : Nat} (hk : k < c.repTimes) : ∃ lc len,
    executeInstruction^[k + 1] c = (once^[k] c.repStarted).counting lc len ∧
      lc.toNat % 2 ^ 16 = (c.repTimes - k) % 2 ^ 16 := by
  induction k with
  | zero =>
    obtain ⟨hrepeating, hlc⟩ := repStarted_spec hrep
    refine ⟨_, c.repStarted.curInstLen, ?_, hlc⟩
    have hexec : c.executeInstruction = c.repStarted.loopEnd.postexecuteInterrupts := rfl
    rw [iterate_one, hexec, @loopEnd_of_not c.repStarted (hend 0 hk), postexecuteInterrupts,
      if_pos hrepeating.loopRep, counting, setReg, iterate_zero_apply, update_eq_self]
  | succ k ih =>
    have hk' : k < c.repTimes := by omega
    obtain ⟨lc, len, hrun, hlc⟩ := ih hk'
    have hmax : c.repTimes - k ≤ 2 ^ 16 := (Nat.sub_le ..).trans (repTimes_spec c).2.1
    have hdec := decrement_count (by omega) hmax hlc
    have hstep := @repeatInstruction_once _ _ lc len _ (hbody k hk') (repeating_iterate hrep hbody hk'.le).1
      (show 0 < c.repTimes - k by omega) hmax hlc
    have hnext := (repeating_iterate hrep hbody hk.le).1
    have hnot := hend (k + 1) hk
    rw [if_neg (by omega)] at hstep
    rw [iterate_succ_apply'] at hnot hnext
    refine ⟨(lc - 1) &&& bitmask 16, 0, ?_, ?_⟩
    · rw [iterate_succ_apply', hrun, iterate_succ_apply' once]
      exact executeInstruction_counting hstep hnext hnot
    · rw [hdec]; omega

end Run

/-- `REP` executes the next instruction as often as it says. No interrupt is taken meanwhile, and after the last
repetition the program goes on with the old loop counter. -/
theorem rep_repeats (c : Core) (hrep : c.IsRep) (hbody : ∀ k < c.repTimes, (once^[k] c.repStarted).Repeatable)
    (hend : ∀ k < c.repTimes, ¬ (once^[k] c.repStarted).AtLoopEnd) :
    (∀ k < c.repTimes, ∃ lc len, executeInstruction^[k + 1] c = (once^[k] c.repStarted).counting lc len) ∧
    executeInstruction^[c.repTimes + 1] c = postexecuteInterrupts (loopEnd
      { (once^[c.repTimes] c.repStarted).setReg regLc (c.registers regLc) with
        loopRep := false, pc := c.repStarted.pc + 1 }) := by
  refine ⟨fun k hk => ?_, ?_⟩
  · obtain ⟨lc, len, hrun, -⟩ := counting_iterate hrep hbody hend hk; exact ⟨lc, len, hrun⟩
  · obtain ⟨n, hn⟩ := Nat.exists_eq_succ_of_ne_zero (repTimes_spec c).1.ne'
    have hk : n < c.repTimes := by omega
    obtain ⟨lc, len, hrun, hlc⟩ := counting_iterate hrep hbody hend hk
    obtain ⟨hrepeating, hpc⟩ := repeating_iterate hrep hbody hk.le
    have hstep := @repeatInstruction_once _ _ lc len 1 (hbody n hk) hrepeating (by decide) (by decide)
      (by rw [hlc, show c.repTimes - n = 1 by omega])
    rw [if_pos rfl] at hstep
    have hnext : (once (once^[n] c.repStarted)).pc + BitVec.ofNat 16 (once (once^[n] c.repStarted)).curInstLen
        = c.repStarted.pc + 1 := by
      rw [(hbody n hk).pc, (hbody n hk).length, hpc]; rfl
    rw [hn, iterate_succ_apply', hrun, iterate_succ_apply' once, ← hnext]
    exact congrArg (fun u : Core => { u with pc := u.pc + BitVec.ofNat 16 u.curInstLen }.loopEnd.postexecuteInterrupts) hstep

/-! ## Operations of the ALU -/

def aluWord (op : BitVec 8) : BitVec 32 := 0x200000 ||| op.setWidth 32

theorem once_aluWord {op} (hop : aluOp (aluWord op) ≠ .undefined) (h : s.readMemoryP s.pc = aluWord op) :
    s.once = { s with
      curInst := aluWord op, curInstLen := 1, registers := (aluOp (aluWord op)).run (aluWord op) s.registers } := by
  have hbits : ∀ op, ¬ aluWord op >>> 16 &&& bitmask 8 < 0x10 ∧ 0x200000 ||| aluWord op &&& 0xff = aluWord op := by
    decide
  have hfetch : s.fetch.withoutMoves = s.fetch := by
    rw [withoutMoves, fetch, h]
    dsimp only
    rw [(hbits op).2]
  have hinst : s.fetch.curInst = aluWord op := h
  have hparallel : s.fetch.parallel = s.fetch.alu := by
    rw [parallel_eq, ← parmoveRead_all, ← hfetch, parmoveRead_withoutMoves]; rfl
  unfold once execute
  rw [hinst, if_neg fun h => (hbits op).1 h.1, hparallel, alu, hinst, if_neg hop]
  rfl

theorem repeatable_aluWord {op} (hop : aluOp (aluWord op) ≠ .undefined)
    (h : s.readMemoryP s.pc = aluWord op) : s.Repeatable := by
  have honce := once_aluWord hop h
  refine ⟨fun lc => ?_, ?_, ?_, ?_, ?_, ?_⟩
  · have hsame : (s.setReg regLc lc).readMemoryP (s.setReg regLc lc).pc = aluWord op := h
    have hrun := @Unseen.run s.registers _ _ _ (.other (show 0x10 ≤ regLc by decide) (by decide) lc) (.refl (aluWord op))
      (aluOp (aluWord op))
    rw [once_aluWord hop hsame, honce]
    dsimp only [setReg]
    rw [hrun]
  all_goals rw [honce]
  exact run_other _ (by decide) (by decide)

end Core

/-- `REP #2` and `ASL A`. -/
def aslProgram : Core :=
  let c := ({ Core.cleared with pc := 0x100 }.setRamint .p 0x100 0x0602a0).setRamint .p 0x101 0x200032
  (c.setReg regA0 5).setReg regLc 7

theorem asl_repeated : aslProgram.repTimes = 2 ∧ (Core.once^[2] aslProgram.repStarted).registers regA0 = 20 ∧
    Core.executeInstruction^[3] aslProgram = Core.postexecuteInterrupts (Core.loopEnd
      { (Core.once^[2] aslProgram.repStarted).setReg regLc 7 with loopRep := false, pc := 0x102 }) := by
  have htimes : aslProgram.repTimes = 2 := by decide
  refine ⟨htimes, by decide, ?_⟩
  have h := (Core.rep_repeats aslProgram (by decide) (fun k hk => ?_) (fun k hk => ?_)).2
  · rw [htimes] at h; exact h
  · have hk : k = 0 ∨ k = 1 := by omega
    refine Core.repeatable_aluWord (show aluOp (Core.aluWord 0x32) ≠ .undefined by decide) ?_
    rcases hk with rfl | rfl <;> decide
  · have hk : k = 0 ∨ k = 1 := by omega
    have hlf : ¬ ((Core.once^[k] aslProgram.repStarted).registers regSr).getLsbD srLf := by
      rcases hk with rfl | rfl <;> decide
    exact fun h => hlf h.1

/-- `REP #2` and `JMP $150`: the jump is executed once, and the `NOP` at its target is the second repetition. With
`REP #2` at the last address of a loop, the loop goes on and `ASL A` is not executed. -/
theorem jump_not_repeated :
    (let c := ({ Core.cleared with pc := 0x100 }.setRamint .p 0x100 0x0602a0).setRamint .p 0x101 0x0c0150
    c.IsRep ∧ c.repTimes = 2 ∧ (Core.executeInstruction^[2] c).pc = 0x150 ∧ (Core.executeInstruction^[2] c).loopRep = true ∧
      (Core.executeInstruction^[3] c).pc = 0x151 ∧ (Core.executeInstruction^[3] c).loopRep = false) ∧
    let c := (aslProgram.setReg regLa 0x100).setReg regSr 0x8000
    c.IsRep ∧ c.repTimes = 2 ∧ c.repStarted.AtLoopEnd ∧ c.executeInstruction.pc = 0 ∧
      (Core.executeInstruction^[3] c).registers regA0 = 5 := by
  unfold Core.AtLoopEnd
  decide

end Aranym.Dsp
