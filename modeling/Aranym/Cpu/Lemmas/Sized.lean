import Aranym.Cpu.Alu

/-!
# The sized part of a value

The generated code works on 32-bit values and looks at the part of the instruction's size.
-/

namespace Aranym.Cpu

open Aranym.Mmu BitVec

/-- The low part of a register, as a value of that size. -/
def part (size : Sz) (v : BitVec 32) : BitVec (bitSize size) := v.setWidth (bitSize size)

variable {size : Sz} {v w : BitVec 32}

theorem bitSize_pos (size : Sz) : 0 < bitSize size := by cases size <;> decide

theorem bitSize_le (size : Sz) : bitSize size ≤ 32 := by cases size <;> decide

/-! ## Parts of results -/

@[simp] theorem part_add : part size (v + w) = part size v + part size w := setWidth_add _ _ (bitSize_le size)

@[simp] theorem part_neg : part size (-v) = -part size v := setWidth_neg_of_le (bitSize_le size)

@[simp] theorem part_sub : part size (v - w) = part size v - part size w := by
  rw [BitVec.sub_eq_add_neg, part_add, part_neg, ← BitVec.sub_eq_add_neg]

@[simp] theorem part_signExtend (e : BitVec (bitSize size)) : part size (e.signExtend 32) = e := by
  refine eq_of_getLsbD_eq fun i hi => ?_
  have := bitSize_le size
  rw [part, getLsbD_setWidth, getLsbD_signExtend, if_pos hi, decide_eq_true hi,
    decide_eq_true (show i < 32 by omega), Bool.true_and, Bool.true_and]

@[simp] theorem part_zero : part size 0 = 0 := by cases size <;> rfl

theorem part_xBit (f : Flags) : part size (xBit f) = (BitVec.ofBool f.x).setWidth (bitSize size) := by
  cases size <;> cases h : f.x <;> simp [xBit, h, part] <;> rfl

theorem signed_eq (size : Sz) (v : BitVec 32) : signed size v = (part size v).signExtend 32 := by
  cases size with
  | byte => rfl
  | word => rfl
  | long => simp [signed, part, bitSize]

/-! ## What the code looks at -/

theorem isNeg_eq : isNeg size v = (part size v).msb := by
  cases size <;> simp [isNeg, part, msb_eq_getLsbD_last, bitSize]

theorem getLsbD_bitMask (i : Nat) : (bitMask size).getLsbD i = decide (i < bitSize size) := by
  rcases Nat.lt_or_ge i 32 with hi | hi
  · have : ∀ j : Fin 32, (bitMask size).getLsbD j = decide (j.val < bitSize size) := by cases size <;> decide
    exact this ⟨i, hi⟩
  · have := bitSize_le size; rw [getLsbD_of_ge _ _ hi, decide_eq_false (by omega)]

theorem low_eq : low size v = (part size v).setWidth 32 := by
  refine eq_of_getLsbD_eq fun i hi => ?_
  rw [low, getLsbD_and, getLsbD_bitMask, part, getLsbD_setWidth, getLsbD_setWidth,
    decide_eq_true hi, Bool.true_and, Bool.and_comm]

theorem isZero_eq : isZero size v = (part size v == 0#_) := by
  rw [isZero, low_eq, Bool.eq_iff_iff, beq_iff_eq, beq_iff_eq]
  constructor
  · intro h
    have := congrArg (BitVec.setWidth (bitSize size)) h
    simpa [setWidth_setWidth_of_le _ (bitSize_le size)] using this
  · intro h; rw [h, setWidth_zero]; rfl

/-! ## The parts of a data register -/

theorem getLsbD_mergeLow (old new : BitVec 32) {i} (hi : i < 32) :
    (mergeLow size old new).getLsbD i = if i < bitSize size then new.getLsbD i else old.getLsbD i := by
  rw [mergeLow, getLsbD_or, getLsbD_and, getLsbD_and, getLsbD_not, getLsbD_bitMask,
    decide_eq_true hi]
  split <;> simp [*]

@[simp] theorem part_mergeLow (old new : BitVec 32) : part size (mergeLow size old new) = part size new := by
  refine eq_of_getLsbD_eq fun i hi => ?_
  rw [part, part, getLsbD_setWidth, getLsbD_setWidth,
    getLsbD_mergeLow old new (hi.trans_le (bitSize_le size)), if_pos hi]

end Aranym.Cpu
