import Aranym.Dsp.Transfers

/-!
# Parallel moves are simultaneous with the operation of the ALU

The words that the moves store are the ones from before the operation, and the operation gives what it gives without
them.
-/

namespace Aranym.Dsp

open List Function Nat

namespace Core

variable {c : Core}

theorem parallel_eq (c : Core) : c.parallel = c.moved.foldl writeDest c.parmoveRead.2.alu := by
  rw [← parmoveRead_all, parallel, parmoveWrite, Moves.all, foldl_append]

theorem moved_low (c : Core) : ∀ m ∈ c.moved, m.1.Low := by
  rw [← parmoveRead_all]
  exact parmoveRead_low c

/-! ## The operation of the ALU -/

theorem alu_registers (c : Core) : c.alu.registers = (aluOp c.curInst).run c.curInst c.registers := by
  rw [alu]
  split
  · rename_i h; rw [h]; rfl
  · rfl

/-- The same instruction without its parallel moves. -/
def withoutMoves (c : Core) : Core := { c with curInst := 0x200000 ||| c.curInst &&& 0xff }

theorem getLsbD_withoutMoves (c : Core) {i} (hi : i < 8) :
    c.withoutMoves.curInst.getLsbD i = c.curInst.getLsbD i := by
  have hbits : ∀ i < 8, (0x200000#32).getLsbD i = false ∧ (0xff#32).getLsbD i = true := by decide
  obtain ⟨h1, h2⟩ := hbits i hi
  have hinst : c.withoutMoves.curInst = 0x200000#32 ||| c.curInst &&& 0xff#32 := rfl
  rw [hinst, BitVec.getLsbD_or, BitVec.getLsbD_and, h1, h2, Bool.and_true, Bool.false_or]

theorem field_withoutMoves (c : Core) {a k} (hk : a + k ≤ 8) :
    c.withoutMoves.curInst >>> a &&& bitmask k = c.curInst >>> a &&& bitmask k :=
  field_congr (by omega) fun i hi => getLsbD_withoutMoves c (by omega)

theorem sameOp_withoutMoves (c : Core) : SameOp c.curInst c.withoutMoves.curInst := by
  have hone : (1 : BitVec 32) = bitmask 1 := by decide
  refine ⟨?_, field_withoutMoves c (by decide), ?_, getLsbD_withoutMoves c (by decide), getLsbD_withoutMoves c (by decide)⟩
  · rw [destreg, destreg, hone, field_withoutMoves c (by decide)]
  · rw [divSource, divSource, field_withoutMoves c (by decide)]

theorem aluOp_withoutMoves (c : Core) : aluOp c.withoutMoves.curInst = aluOp c.curInst := by
  have hlow := field_withoutMoves c (show 0 + 8 ≤ 8 by decide)
  rw [BitVec.ushiftRight_zero, BitVec.ushiftRight_zero] at hlow
  rw [aluOp, aluOp, hlow]

theorem parmoveRead_withoutMoves (c : Core) : c.withoutMoves.parmoveRead = (⟨[], []⟩, c.withoutMoves) := by
  have hlow := toNat_and_bitmask_lt c.curInst (show 8 < 32 by decide)
  have hinst : c.withoutMoves.curInst.toNat = 2 ^ 21 + (c.curInst &&& bitmask 8).toNat := by
    have hor := two_pow_add_eq_or_of_lt (hlow.trans (show 2 ^ 8 < 2 ^ 21 by decide)) 1
    rw [Nat.mul_one] at hor
    rw [hor]; exact BitVec.toNat_or ..
  have h2 : (c.withoutMoves.curInst >>> 20 &&& bitmask 4).toNat = 2 := by
    rw [toNat_and_bitmask _ (by decide), BitVec.toNat_ushiftRight, shiftRight_eq_div_pow, hinst]
    omega
  have hmove : c.withoutMoves.curInst >>> 8 &&& 0xffff = 0x2000 := by
    apply BitVec.eq_of_toNat_eq
    refine (toNat_and_bitmask (c.withoutMoves.curInst >>> 8) (show 16 < 32 by decide)).trans ?_
    rw [BitVec.toNat_ushiftRight, shiftRight_eq_div_pow, hinst]
    show _ = 0x2000
    omega
  unfold parmoveRead
  rw [h2]
  show c.withoutMoves.pm2 = _
  rw [pm2, if_pos hmove]

theorem withoutMoves_parallel (c : Core) :
    c.withoutMoves.parallel.registers = (aluOp c.curInst).run c.curInst c.registers := by
  rw [parallel_eq, ← parmoveRead_all, parmoveRead_withoutMoves]
  refine (alu_registers c.withoutMoves).trans ?_
  rw [aluOp_withoutMoves]
  exact Unseen.id.run (sameOp_withoutMoves c) _

theorem alu_parmoveRead (c : Core) : ∃ g, Unseen g ∧
    c.parmoveRead.2.alu.registers = g c.withoutMoves.parallel.registers ∧ c.parmoveRead.2.alu.romOn = c.romOn := by
  have hprep := prepared_parmoveRead c
  obtain ⟨g, hg, hreg⟩ := hprep.unseen
  have hrun : c.parmoveRead.2.alu.registers = g c.withoutMoves.parallel.registers := by
    rw [alu_registers, hprep.curInst, hreg, hg.run (.refl _), withoutMoves_parallel]
  refine ⟨g, hg, hrun, ?_⟩
  have homr : c.parmoveRead.2.alu.registers regOmr = c.registers regOmr := by
    rw [alu_registers, run_other _ (by decide) (by decide), hprep.special regOmr (by decide) (by decide)]
  rw [romOn, romOn, homr]

/-! ## The order of two addresses -/

structure SameAddress (numreg : BitVec 3) (r r' : Registers) : Prop where
  rn : r' (regR numreg) = r (regR numreg)
  nn : r' (regN numreg) = r (regN numreg)
  mn : r' (regM numreg) = r (regM numreg)

theorem sameAddress_update {n k} (hne : k ≠ n) (value : BitVec 32) (r : Registers) :
    SameAddress k r (update r (regR n) value) := by
  have htable : ∀ k n : BitVec 3, k ≠ n → regR k ≠ regR n ∧ regN k ≠ regR n ∧ regM k ≠ regR n := by decide
  obtain ⟨hr, hn, hm⟩ := htable k n hne
  exact ⟨update_of_ne hr _ _, update_of_ne hn _ _, update_of_ne hm _ _⟩

def Postupdates (eaMode : BitVec 6) : Prop := ∃ F : Registers → BitVec 32,
  (∀ r r', SameAddress (eaMode.setWidth 3) r r' → F r' = F r) ∧ ∀ c : Core, c.calcEa eaMode =
    (c.registers (regR (eaMode.setWidth 3)), false,
      { c with registers := update c.registers (regR (eaMode.setWidth 3)) (F c.registers) })

theorem postupdates_of {eaMode} (modifier : BitVec 32 → BitVec 16) (h : ∀ c : Core, c.calcEa eaMode =
    (c.registers (regR (eaMode.setWidth 3)), false,
      c.updateRn (eaMode.setWidth 3) (modifier (c.registers (regN (eaMode.setWidth 3)))))) : Postupdates eaMode := by
  refine ⟨fun r => Dsp.updateRn (eaMode.setWidth 3) (modifier (r (regN (eaMode.setWidth 3)))) r
    (regR (eaMode.setWidth 3)), fun r r' h => ?_, fun c => ?_⟩
  · dsimp only; rw [h.nn]; exact updateRn_congr _ h.rn h.nn h.mn
  · rw [h, Core.updateRn, ← updateRn_eq]

theorem postupdates {eaMode : BitVec 6} (hmode : (eaMode >>> 3).toNat ≤ 4) : Postupdates eaMode := by
  generalize hk : (eaMode >>> 3).toNat = k at hmode
  have hcases : k = 0 ∨ k = 1 ∨ k = 2 ∨ k = 3 ∨ k = 4 := by omega
  rcases hcases with rfl | rfl | rfl | rfl | rfl
  · exact postupdates_of (fun nn => (-nn).setWidth 16) fun c => by simp only [calcEa, hk]
  · exact postupdates_of (fun nn => nn.setWidth 16) fun c => by simp only [calcEa, hk]
  · exact postupdates_of (fun _ => -1) fun c => by simp only [calcEa, hk]
  · exact postupdates_of (fun _ => 1) fun c => by simp only [calcEa, hk]
  · refine ⟨fun r => r (regR (eaMode.setWidth 3)), fun _ _ h => h.rn, fun c => ?_⟩
    rw [update_eq_self]; simp only [calcEa, hk]

theorem calcEa_comm {ea1 ea2} (h1 : Postupdates ea1) (h2 : Postupdates ea2)
    (hne : ea1.setWidth 3 ≠ ea2.setWidth 3) (c : Core) :
    ((c.calcEa ea2).2.2.calcEa ea1).1 = (c.calcEa ea1).1 ∧ (c.calcEa ea2).1 = ((c.calcEa ea1).2.2.calcEa ea2).1 ∧
      ((c.calcEa ea2).2.2.calcEa ea1).2.2 = ((c.calcEa ea1).2.2.calcEa ea2).2.2 := by
  obtain ⟨F1, hF1, heq1⟩ := h1
  obtain ⟨F2, hF2, heq2⟩ := h2
  have hs1 := sameAddress_update hne (F2 c.registers) c.registers
  have hs2 := sameAddress_update hne.symm (F1 c.registers) c.registers
  have hreg : regR (ea1.setWidth 3) ≠ regR (ea2.setWidth 3) := by
    have htable : ∀ k n : BitVec 3, k ≠ n → regR k ≠ regR n := by decide
    exact htable _ _ hne
  rw [heq1, heq2, heq1, heq2]
  refine ⟨hs1.rn, hs2.rn.symm, ?_⟩
  dsimp only
  rw [hF1 _ _ hs1, hF2 _ _ hs2, update_comm hreg]

theorem pm8Ea_spec (inst : BitVec 32) : ((pm8Ea inst).1 >>> 3).toNat ≤ 4 ∧ ((pm8Ea inst).2 >>> 3).toNat ≤ 4 ∧
    (pm8Ea inst).1.setWidth 3 ≠ (pm8Ea inst).2.setWidth 3 := by
  have htable : ∀ ea1 ea2 : BitVec 6, ea1.getLsbD 5 = false → ea2.getLsbD 5 = false → ea2.getLsbD 2 = false →
      let ea1 := if ea1 >>> 3 = 0 then ea1 ||| 0x20 else ea1
      let ea2 := if ea1 &&& 4 = 0 then ea2 ||| 4 else ea2
      let ea2 := if ea2 >>> 3 = 0 then ea2 ||| 0x20 else ea2
      (ea1 >>> 3).toNat ≤ 4 ∧ (ea2 >>> 3).toNat ≤ 4 ∧ ea1.setWidth 3 ≠ ea2.setWidth 3 := by
    decide +kernel
  have hbit : ∀ i, (bitmask 2).getLsbD i = false → (bitmask 2 <<< 3).getLsbD i = false →
      (((inst >>> 13 &&& bitmask 2) ||| (inst >>> 17 &&& bitmask 2 <<< 3)).setWidth 6).getLsbD i = false := by
    intro i h1 h2
    rw [BitVec.getLsbD_setWidth, BitVec.getLsbD_or, BitVec.getLsbD_and, BitVec.getLsbD_and, h1, h2, Bool.and_false,
      Bool.and_false, Bool.or_false, Bool.and_false]
  exact htable _ _ (low_of_mask _ (by decide)) (hbit 5 (by decide) (by decide)) (hbit 2 (by decide) (by decide))

/-! ## Double moves -/

def pm8Reversed (c : Core) : Moves × Core :=
  let inst := c.curInst
  let (address2, _, c) := c.calcEa (pm8Ea inst).2
  let (address1, _, c) := c.calcEa (pm8Ea inst).1
  let numreg1 := pmRegister regX0 (inst >>> 18 &&& bitmask 2)
  let numreg2 := pmRegister regY0 (inst >>> 16 &&& bitmask 2)
  let (second, c) := c.moveMemory .y address2 false numreg2 (inst.getLsbD 22)
  let (first, c) := c.moveMemory .x address1 false numreg1 (inst.getLsbD 15)
  (⟨first, second⟩, c)

/-- The double move with its `Y` part before its `X` part. -/
def parallelReversed (c : Core) : Core :=
  let x := c.pm8Reversed
  x.1.first.foldl writeDest (x.1.second.foldl writeDest x.2.alu)

theorem pm8Reversed_eq (c : Core) : c.pm8Reversed = c.pm8 := by
  obtain ⟨hm1, hm2, hne⟩ := pm8Ea_spec c.curInst
  obtain ⟨h1, h2, h3⟩ := calcEa_comm (postupdates hm1) (postupdates hm2) hne c
  have hn1 : pmRegister regX0 (c.curInst >>> 18 &&& bitmask 2) ≠ regSr := ne_sr_of_low (pmRegister_low ⟨rfl, rfl⟩ _)
  have hn2 : pmRegister regY0 (c.curInst >>> 16 &&& bitmask 2) ≠ regSr := ne_sr_of_low (pmRegister_low ⟨rfl, rfl⟩ _)
  obtain ⟨hx, hy, hs⟩ := moveMemory_comm hn1 hn2 (c.calcEa (pm8Ea c.curInst).1).1
    ((c.calcEa (pm8Ea c.curInst).1).2.2.calcEa (pm8Ea c.curInst).2).1 (c.curInst.getLsbD 15) (c.curInst.getLsbD 22)
    ((c.calcEa (pm8Ea c.curInst).1).2.2.calcEa (pm8Ea c.curInst).2).2.2
  unfold pm8Reversed pm8
  dsimp only
  rw [h1, h2, h3, hx, hy, hs]

theorem parmoveRead_double (h : c.curInst.getLsbD 23) : c.parmoveRead = c.pm8 := by
  have hle : 8 ≤ (c.curInst >>> 20 &&& bitmask 4).toNat := by
    have hbit : (c.curInst >>> 20 &&& bitmask 4).toNat.testBit 3 = true := by
      rw [BitVec.testBit_toNat, getLsbD_and_bitmask _ (by decide), BitVec.getLsbD_ushiftRight, h]
      rfl
    exact ge_two_pow_of_testBit hbit
  unfold parmoveRead
  split <;> first | omega | rfl

theorem moveMemory_place (address : BitVec 32) (immediate : Bool) (numreg : RegNum) (write rom : Bool) (c : Core) :
    ∀ m ∈ (c.moveMemory .y address immediate numreg write).1, ∀ n, m.1.place rom ≠ some (.periph .x n) := by
  intro m hm n h
  rw [moveMemory] at hm
  split at hm
  · obtain ⟨k, hk, -⟩ := exists_reg_of_pmWritereg hm; rw [hk] at h; cases h
  · obtain rfl := mem_singleton.mp hm; simp only [Dest.place] at h; split_ifs at h <;> cases h

theorem parallelReversed_eq (hdouble : c.curInst.getLsbD 23) (hdist : c.MovesApart) :
    c.parallelReversed = c.parallel := by
  rw [MovesApart, ← parmoveRead_all] at hdist
  obtain ⟨-, -, -, hrom⟩ := alu_parmoveRead c
  have hlow := parmoveRead_low c
  rw [parallelReversed, pm8Reversed_eq, ← parmoveRead_double hdouble, parallel, parmoveWrite]
  refine (foldl_comm hrom (fun m hm => hlow m (mem_append_left _ hm)) (fun m hm => hlow m (mem_append_right _ hm))
    (pairwise_append.mp hdist).2.2 fun b hb => ?_).symm
  rw [parmoveRead_double hdouble] at hb
  exact moveMemory_place _ _ _ _ _ _ b hb

end Core

def accWords (inst : BitVec 32) : List RegNum := [regA2 + destreg inst, regA1 + destreg inst, regA0 + destreg inst]

/-- The moves store the words of their sources from before the operation of the ALU; the operation gives what it gives
without them, if they leave its accumulator alone; and the order of the two moves of `x:` and `y:` does not matter. -/
theorem parallel_simultaneous (c : Core) :
    (c.MovesApart → ∀ t ∈ c.transfers.1, ∀ m ∈ t.stores c.transfers.2, ∀ p, m.1.place c.romOn = some p →
      c.parallel.content p = m.1.word m.2) ∧
    ((∀ m ∈ c.moved, ∀ n ∈ accWords c.curInst, m.1 ≠ .reg n) → ∀ n ∈ accWords c.curInst,
      c.parallel.registers n = c.withoutMoves.parallel.registers n) ∧
    (∀ i, i ≠ srL → (c.parallel.registers regSr).getLsbD i = (c.withoutMoves.parallel.registers regSr).getLsbD i) ∧
    (c.curInst.getLsbD 23 → c.MovesApart → c.parallelReversed = c.parallel) := by
  obtain ⟨g, hg, hreg, hrom⟩ := Core.alu_parmoveRead c
  have hlow := c.moved_low
  have hother : ∀ n : RegNum, (∀ m ∈ c.moved, m.1 ≠ .reg n) →
      c.parallel.registers n = g c.withoutMoves.parallel.registers n := by
    intro n hn
    rw [Core.parallel_eq, ← hreg]
    exact @Core.content_foldl_other _ _ _ (.reg n) hrom hlow (fun h => by cases h)
      fun m hm h => hn m hm (Dest.eq_reg_of_place h)
  refine ⟨fun hdist t ht m hm p hp => ?_, fun hnot n hn => ?_, fun i hi => ?_, fun h hdist => ?_⟩
  · rw [Core.parallel_eq]; exact Core.content_foldl hrom hlow hdist (mem_flatMap.mpr ⟨t, ht, hm⟩) hp
  · have hlt : n < 0x10 := by
      simp only [accWords, mem_cons, not_mem_nil, or_false] at hn
      rcases destreg_cases c.curInst with hd | hd <;> rw [hd] at hn <;> rcases hn with rfl | rfl | rfl <;> decide
    rw [hother n fun m hm => hnot m hm n hn, hg.data _ n hlt]
  · rw [hother regSr, hg.sr _ i hi]; intro m hm h; have := hlow m hm; rw [h] at this; cases this
  · exact Core.parallelReversed_eq h hdist

/-- `MAC X0,Y0,A X:(R0)+,X0 Y:(R4)+,Y0`. -/
def macProgram : Core :=
  let c := ({ Core.cleared with curInst := 0xf098d2 }.setRamint .x 0x10 0x500000).setRamint .y 0x20 0x700000
  let c := (c.setReg (regR 0) 0x10).setReg (regM 0) 0xffff
  let c := (c.setReg (regR 4) 0x20).setReg (regM 4) 0xffff
  (c.setReg regX0 0x400000).setReg regY0 0x200000

theorem mac_simultaneous :
    macProgram.parallel.registers regX0 = 0x500000 ∧ macProgram.parallel.registers regY0 = 0x700000 ∧
      macProgram.parallel.registers regA1 = macProgram.withoutMoves.parallel.registers regA1 ∧
      macProgram.withoutMoves.parallel.registers regA1 = 0x100000 ∧ macProgram.parallelReversed = macProgram.parallel := by
  have hall : macProgram.moved = [(.reg regX0, 0x500000), (.reg regY0, 0x700000)] := by decide
  have hdist : macProgram.MovesApart := by
    rw [Core.MovesApart, hall]
    refine pairwise_pair.mpr fun p hp => ?_
    cases hp
    decide
  obtain ⟨hstored, halu, -, horder⟩ := parallel_simultaneous macProgram
  have hmoves : macProgram.transfers.1 = [.toReg (.mem .x 0x10) regX0 (fits regX0),
    .toReg (.mem .y 0x20) regY0 (fits regY0)] := rfl
  rw [hmoves] at hstored
  refine ⟨hstored hdist _ mem_cons_self (.reg regX0, 0x500000) (by decide) (.reg regX0) rfl,
    hstored hdist _ (mem_cons_of_mem _ mem_cons_self) (.reg regY0, 0x700000) (by decide) (.reg regY0) rfl, ?_, by decide,
    horder (by decide) hdist⟩
  refine halu (fun m hm n hn => ?_) regA1 (by decide)
  rw [hall] at hm
  have hwords : accWords macProgram.curInst = [regA2, regA1, regA0] := by decide
  rw [hwords] at hn
  revert hn n
  revert hm m
  decide

end Aranym.Dsp
