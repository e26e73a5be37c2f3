import Aranym.Dsp.AluOps
import Aranym.Dsp.Lemmas.Alu

/-!
# Registers that the ALU does not use

An operation of the ALU uses the data registers, the accumulators and the status register, and it never clears `L`.
-/

namespace Aranym.Dsp

open BitVec Function

variable {r : Registers} {inst inst' : BitVec 32} {g g' : Registers → Registers} {n : RegNum}

structure Unseen (g : Registers → Registers) : Prop where
  data : ∀ r n, n < 0x10 → g r n = r n
  sr : ∀ r i, i ≠ srL → (g r regSr).getLsbD i = (r regSr).getLsbD i
  update : ∀ r n value, n < 0x10 → g (Function.update r n value) = Function.update (g r) n value
  clearSr : ∀ r mask, (bitmask 16 - mask).getLsbD srL → g (r.clearSr mask) = (g r).clearSr mask
  setSr : ∀ r bits, g (r.setSr bits) = (g r).setSr bits

theorem Unseen.id : Unseen fun r => r where
  data _ _ _ := rfl
  sr _ _ _ := rfl
  update _ _ _ _ := rfl
  clearSr _ _ _ := rfl
  setSr _ _ := rfl

theorem Unseen.comp (h' : Unseen g') (h : Unseen g) : Unseen fun r => g' (g r) where
  data r n hn := (h'.data _ n hn).trans (h.data r n hn)
  sr r i hi := (h'.sr _ i hi).trans (h.sr r i hi)
  update r n value hn := by rw [h.update r n value hn, h'.update _ n value hn]
  clearSr r mask hmask := by rw [h.clearSr r mask hmask, h'.clearSr _ mask hmask]
  setSr r bits := by rw [h.setSr, h'.setSr]

theorem data_ne {k} (hk : k < 0x10) (hn : 0x10 ≤ n) : k ≠ n := by
  rintro rfl
  bv_omega

theorem Unseen.other (hn : 0x10 ≤ n) (hsr : n ≠ regSr) (value : BitVec 32) :
    Unseen fun r => Function.update r n value where
  data r k hk := update_of_ne (data_ne hk hn) _ _
  sr r i hi := by rw [update_of_ne hsr.symm]
  update r k v hk := update_comm (data_ne hk hn) _ _ _
  clearSr r mask hmask := by
    rw [Registers.clearSr, Registers.clearSr, update_comm hsr.symm, update_of_ne hsr.symm]
  setSr r bits := by
    rw [Registers.setSr, Registers.setSr, update_comm hsr.symm, update_of_ne hsr.symm]

theorem Unseen.limit : Unseen fun r => r.setSr (1#32 <<< srL) where
  data r n hn := update_of_ne (data_ne hn (by decide)) _ _
  sr r i hi := by
    have hbit : (1#32 <<< srL).getLsbD i = false := by
      rw [← twoPow_eq, getLsbD_twoPow, decide_eq_false hi.symm, Bool.and_false]
    rw [setSr_sr, hbit, Bool.or_false]
  update r n value hn := by
    have hne := data_ne hn (show 0x10 ≤ regSr by decide)
    rw [Registers.setSr, Registers.setSr, update_of_ne hne.symm, update_comm hne]
  clearSr r mask hmask := by
    have hand : 1#32 <<< srL &&& (bitmask 16 - mask) = 1#32 <<< srL := by
      rw [← twoPow_eq, twoPow_and, hmask]; rfl
    have hsr : r regSr &&& (bitmask 16 - mask) ||| 1#32 <<< srL = (r regSr ||| 1#32 <<< srL) &&& (bitmask 16 - mask) := by
      nth_rewrite 1 [← hand]
      ext i
      simp [Bool.and_or_distrib_right]
    simp only [Registers.setSr, Registers.clearSr, update_self, update_idem]
    rw [hsr]
  setSr r bits := by
    simp only [Registers.setSr, update_self, update_idem]
    rw [BitVec.or_assoc, BitVec.or_assoc, BitVec.or_comm bits]

/-! ## Operands and flags -/

theorem getLsbD_and_bitmask (x : BitVec 32) {k} (hk : k < 32) (i : Nat) :
    (x &&& bitmask k).getLsbD i = (decide (i < k) && x.getLsbD i) := by
  rw [← testBit_toNat, toNat_and_bitmask x hk, Nat.testBit_mod_two_pow, testBit_toNat]

theorem field_congr {x y : BitVec 32} {a k : Nat} (hk : k < 32) (h : ∀ i < k, x.getLsbD (a + i) = y.getLsbD (a + i)) :
    x >>> a &&& bitmask k = y >>> a &&& bitmask k := by
  refine eq_of_getLsbD_eq fun i hi => ?_
  rw [getLsbD_and_bitmask _ hk, getLsbD_and_bitmask _ hk, getLsbD_ushiftRight, getLsbD_ushiftRight]
  by_cases hlt : i < k
  · rw [h i hlt]
  · rw [decide_eq_false hlt, Bool.false_and, Bool.false_and]

section

variable (h : Unseen g)
include h

theorem Unseen.scaling : g r regSr >>> srS0 &&& bitmask 2 = r regSr >>> srS0 &&& bitmask 2 :=
  field_congr (by decide) fun i _ => h.sr r _ (by rw [srS0, srL]; omega)

theorem Unseen.readAcc (hn : n = 0 ∨ n = 1) : (g r).readAcc n = r.readAcc n := by
  rcases hn with rfl | rfl <;>
    rw [Registers.readAcc, h.data r _ (by decide), h.data r _ (by decide), h.data r _ (by decide), Registers.readAcc]

theorem Unseen.writeAcc (hn : n = 0 ∨ n = 1) (d : Acc) : (g r).writeAcc n d = g (r.writeAcc n d) := by
  rcases hn with rfl | rfl <;>
    rw [Registers.writeAcc, Registers.writeAcc, h.update _ _ _ (by decide), h.update _ _ _ (by decide),
      h.update _ _ _ (by decide)]

theorem Unseen.ccr (d : Acc) : (g r).ccr d = g (r.ccr d) := by
  have hext : ∀ r, (g r).ccrExtension d = g (r.ccrExtension d) := by
    intro r
    simp only [Registers.ccrExtension, h.scaling]
    split_ifs <;> first | rfl | rw [h.setSr, h.clearSr _ _ (by decide)]
  have hunn : ∀ r, (g r).ccrUnnormalized d = g (r.ccrUnnormalized d) := by
    intro r
    simp only [Registers.ccrUnnormalized, h.scaling]
    split_ifs <;> first | rfl | rw [h.setSr, h.clearSr _ _ (by decide)]
  rw [Registers.ccr, Registers.ccr, hext, hunn, Registers.ccrNegative, Registers.ccrNegative, Registers.ccrZero,
    Registers.ccrZero, h.setSr, h.clearSr _ _ (by decide), h.setSr, h.clearSr _ _ (by decide)]

theorem Unseen.setVC (newsr : BitVec 16) : (g r).setVC newsr = g (r.setVC newsr) := by
  rw [Registers.setVC, Registers.setVC, h.setSr, h.clearSr _ _ (by decide)]

theorem Unseen.setNZ {cleared} (hcleared : cleared = 0 ∨ cleared = 1#32 <<< srC) (carry value : BitVec 32) :
    (g r).setNZ cleared carry value = g (r.setNZ cleared carry value) := by
  rcases hcleared with rfl | rfl <;>
    simp only [Registers.setNZ, h.setSr, h.clearSr _ (0 ||| 1#32 <<< srN ||| 1#32 <<< srZ ||| 1#32 <<< srV) (by decide),
      h.clearSr _ (1#32 <<< srC ||| 1#32 <<< srN ||| 1#32 <<< srZ ||| 1#32 <<< srV) (by decide)]

theorem Unseen.rnd56 (d : Acc) : rnd56 (g r regSr) d = rnd56 (r regSr) d := by
  rw [Dsp.rnd56, h.sr r srS0 (by decide), h.sr r srS1 (by decide), Dsp.rnd56]

end

/-! ## Operations -/

structure SameOp (inst inst' : BitVec 32) : Prop where
  dest : destreg inst' = destreg inst
  source : inst' >>> 4 &&& bitmask 3 = inst >>> 4 &&& bitmask 3
  divSource : divSource inst' = divSource inst
  bit2 : inst'.getLsbD 2 = inst.getLsbD 2
  bit4 : inst'.getLsbD 4 = inst.getLsbD 4

theorem destreg_xor_cases (inst : BitVec 32) : destreg inst ^^^ 1 = 0 ∨ destreg inst ^^^ 1 = 1 := by
  rcases destreg_cases inst with hd | hd <;> rw [hd]
  · exact .inr rfl
  · exact .inl rfl

theorem middle_lt (inst : BitVec 32) : regA1 + destreg inst < 0x10 := by
  rcases destreg_cases inst with hd | hd <;> rw [hd] <;> decide

section

variable (h : Unseen g) (hinst : SameOp inst inst')
include h hinst

theorem Unseen.addSource : (g r).addSource inst' = r.addSource inst := by
  simp only [Registers.addSource, Registers.readLong, hinst.source, hinst.dest, h.readAcc (destreg_xor_cases inst),
    h.data r regX0 (by decide), h.data r regX1 (by decide), h.data r regY0 (by decide), h.data r regY1 (by decide)]

theorem Unseen.cmpSource : (g r).cmpSource inst' = r.cmpSource inst := by
  simp only [Registers.cmpSource, hinst.source, hinst.dest, h.readAcc (destreg_xor_cases inst),
    h.data r regX0 (by decide), h.data r regX1 (by decide), h.data r regY0 (by decide), h.data r regY1 (by decide)]

theorem Unseen.addTo (op : Acc → Acc → BitVec 16 × Acc) : addTo op inst' (g r) = g (addTo op inst r) := by
  simp only [Dsp.addTo, h.addSource hinst, hinst.dest, h.readAcc (destreg_cases inst), h.writeAcc (destreg_cases inst),
    h.ccr, h.setVC]
  split <;> rfl

theorem Unseen.withCarry (op : Acc → Acc → BitVec 16 × Acc) : withCarry op inst' (g r) = g (withCarry op inst r) := by
  have hlong : ∀ b, (g r).readLong b = r.readLong b := by
    simp only [Registers.readLong, h.data r regX0 (by decide), h.data r regX1 (by decide), h.data r regY0 (by decide),
      h.data r regY1 (by decide), implies_true]
  have hcarry := h.sr r srC (by decide)
  simp only [Dsp.withCarry, hcarry, hlong, hinst.bit4, hinst.dest, h.readAcc (destreg_cases inst),
    h.writeAcc (destreg_cases inst)]
  exact (congrArg (Registers.setVC · _) (h.ccr _)).trans (h.setVC _)

theorem Unseen.shiftAndAdd (shift : Acc → BitVec 16 × Acc) (op : Acc → Acc → BitVec 16 × Acc) :
    shiftAndAdd shift op inst' (g r) = g (shiftAndAdd shift op inst r) := by
  simp only [Dsp.shiftAndAdd, hinst.dest, h.readAcc (destreg_cases inst), h.readAcc (destreg_xor_cases inst),
    h.writeAcc (destreg_cases inst), h.ccr, h.setVC]

theorem Unseen.shiftAcc (shift : Acc → BitVec 16 × Acc) : shiftAcc shift inst' (g r) = g (shiftAcc shift inst r) := by
  simp only [Dsp.shiftAcc, hinst.dest, h.readAcc (destreg_cases inst), h.writeAcc (destreg_cases inst), h.ccr, h.setVC]

theorem Unseen.negateAcc (op : Acc → BitVec 16 × Acc) : negateAcc op inst' (g r) = g (negateAcc op inst r) := by
  simp only [Dsp.negateAcc, hinst.dest, h.readAcc (destreg_cases inst), h.writeAcc (destreg_cases inst)]
  rw [← h.clearSr _ _ (by decide), ← h.setSr, h.ccr]

theorem Unseen.logic (op : BitVec 32 → BitVec 32 → BitVec 32) : logic op inst' (g r) = g (logic op inst r) := by
  have hsource : Dsp.divSource inst < 0x10 := by rw [Dsp.divSource]; split_ifs <;> decide
  simp only [Dsp.logic, hinst.dest, hinst.divSource, h.data r _ (middle_lt inst), h.data r _ hsource]
  rw [← h.update _ _ _ (middle_lt inst), h.setNZ (.inl rfl)]

theorem Unseen.shiftWord (shift : BitVec 32 → BitVec 32 × BitVec 32) :
    shiftWord shift inst' (g r) = g (shiftWord shift inst r) := by
  simp only [Dsp.shiftWord, hinst.dest, h.data r _ (middle_lt inst)]
  rw [← h.update _ _ _ (middle_lt inst), h.setNZ (.inr rfl)]

theorem Unseen.compare (f : Acc → Acc) : compare f inst' (g r) = g (compare f inst r) := by
  simp only [Dsp.compare, h.cmpSource hinst, hinst.dest, h.readAcc (destreg_cases inst), h.ccr, h.setVC]
  split <;> rfl

theorem Unseen.product : (g r).product inst' = r.product inst := by
  have hregs : ∀ n < 8, (registersMpy n).1 < 0x10 ∧ (registersMpy n).2 < 0x10 := by decide
  obtain ⟨h1, h2⟩ := hregs _ (toNat_and_bitmask_lt (inst >>> 4) (show 3 < 32 by decide))
  simp only [Registers.product, hinst.source, hinst.bit2, h.data r _ h1, h.data r _ h2]

theorem Unseen.multiply {round} (hround : ∀ d, round (g r regSr) d = round (r regSr) d) :
    multiply round inst' (g r) = g (multiply round inst r) := by
  simp only [Dsp.multiply, h.product hinst, hround, hinst.dest, h.writeAcc (destreg_cases inst), h.ccr]
  rw [h.clearSr _ _ (by decide)]

theorem Unseen.multiplyAdd {round} (hround : ∀ d, round (g r regSr) d = round (r regSr) d) :
    multiplyAdd round inst' (g r) = g (multiplyAdd round inst r) := by
  simp only [Dsp.multiplyAdd, h.product hinst, hround, hinst.dest, h.readAcc (destreg_cases inst),
    h.writeAcc (destreg_cases inst), h.ccr]
  rw [h.setSr, h.clearSr _ _ (by decide)]

theorem Unseen.run (op : AluOp) : op.run inst' (g r) = g (op.run inst r) := by
  cases op with
  | abs => exact h.negateAcc hinst abs56
  | adc => exact h.withCarry hinst add56
  | add => exact h.addTo hinst add56
  | addl => exact h.shiftAndAdd hinst asl56 add56
  | addr => exact h.shiftAndAdd hinst asr56 add56
  | and => simp only [AluOp.run, Alu.and, h.logic hinst]
  | asl => exact h.shiftAcc hinst asl56
  | asr => exact h.shiftAcc hinst asr56
  | clr =>
    simp only [AluOp.run, Alu.clr, hinst.dest, h.writeAcc (destreg_cases inst)]
    rw [h.setSr, h.clearSr _ _ (by decide)]
  | cmp => simp only [AluOp.run, Alu.cmp, h.compare hinst]
  | cmpm => simp only [AluOp.run, Alu.cmpm, h.compare hinst]
  | eor => simp only [AluOp.run, Alu.eor, h.logic hinst]
  | lsl => simp only [AluOp.run, Alu.lsl, h.shiftWord hinst]
  | lsr =>
    simp only [AluOp.run, Alu.lsr, hinst.dest, h.data r _ (middle_lt inst)]
    rw [← h.update _ _ _ (middle_lt inst), h.setSr, h.setSr, h.clearSr _ _ (by decide)]
  | mac => exact @Unseen.multiplyAdd r _ _ g h hinst (fun _ d => d) fun _ => rfl
  | macr => exact h.multiplyAdd hinst h.rnd56
  | move => rfl
  | mpy => exact @Unseen.multiply r _ _ g h hinst (fun _ d => d) fun _ => rfl
  | mpyr => exact h.multiply hinst h.rnd56
  | neg => exact h.negateAcc hinst fun d => sub56 d .zero
  | not => simp only [AluOp.run, Alu.not, h.logic hinst]
  | or => simp only [AluOp.run, Alu.or, h.logic hinst]
  | rnd =>
    simp only [AluOp.run, Alu.rnd, hinst.dest, h.readAcc (destreg_cases inst), h.rnd56,
      h.writeAcc (destreg_cases inst), h.ccr]
  | rol => simp only [AluOp.run, Alu.rol, h.shiftWord hinst]
  | ror => simp only [AluOp.run, Alu.ror, h.shiftWord hinst]
  | sbc => exact h.withCarry hinst sub56
  | sub => exact h.addTo hinst sub56
  | subl => exact h.shiftAndAdd hinst asl56 sub56
  | subr => exact h.shiftAndAdd hinst asr56 sub56
  | tfr =>
    simp only [AluOp.run, Alu.tfr, h.cmpSource hinst, hinst.dest, h.writeAcc (destreg_cases inst)]
    split <;> rfl
  | tst =>
    simp only [AluOp.run, Alu.tst, hinst.dest, h.readAcc (destreg_cases inst), h.ccr]
    rw [h.clearSr _ _ (by decide)]
  | undefined => rfl

end

theorem SameOp.refl (inst : BitVec 32) : SameOp inst inst := ⟨rfl, rfl, rfl, rfl, rfl⟩

theorem run_other (op : AluOp) (hn : 0x10 ≤ n) (hsr : n ≠ regSr) : op.run inst r n = r n := by
  have hrun := @Unseen.run r _ _ _ (.other hn hsr (r n)) (.refl inst) op
  rw [update_eq_self] at hrun
  rw [hrun, update_self]

end Aranym.Dsp
