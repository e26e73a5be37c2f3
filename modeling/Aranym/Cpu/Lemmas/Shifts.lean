import Aranym.Cpu.Shifts
import Aranym.Lib.Bits

/-!
# Shifts and rotates

The bits of a value after `k` shifts by one, by induction on `k`, and the bits that the closed formulas of
the register forms select.
-/

namespace Aranym.Cpu

open Aranym.Lib Aranym.Mmu BitVec Nat

variable {size : Sz}

/-! ## The value of a shift -/

def elemOut (x v c : Bool) (r : Elem size) : Flags × Elem size := (⟨x, r.msb, r == 0#_, v, c⟩, r)

theorem shiftFlags_elemOut (out : ShiftOut) :
    ((shiftFlags size out).1, part size (shiftFlags size out).2) = elemOut out.x out.v out.c (part size out.val) := by
  rw [shiftFlags, isNeg_eq, isZero_eq, elemOut]

theorem getLsbD_part (v : BitVec 32) (i : Nat) : (part size v).getLsbD i = (decide (i < bitSize size) && v.getLsbD i) := by
  rw [part, getLsbD_setWidth]

theorem getLsbD_low (v : BitVec 32) (i : Nat) : (low size v).getLsbD i = (part size v).getLsbD i := by
  rw [low, getLsbD_and, getLsbD_bitMask, getLsbD_part, Bool.and_comm]

@[simp] theorem part_low (v : BitVec 32) : part size (low size v) = part size v := by
  refine eq_of_getLsbD_eq fun i hi => ?_
  rw [getLsbD_part, getLsbD_low, getLsbD_part, decide_eq_true hi, Bool.true_and, Bool.true_and]

theorem getLsbD_widen (e : Elem size) (i : Nat) : (e.setWidth 32).getLsbD i = e.getLsbD i := by
  rw [getLsbD_setWidth]
  rcases Nat.lt_or_ge i 32 with hi | hi
  · rw [decide_eq_true hi, Bool.true_and]
  · rw [getLsbD_of_ge e i ((bitSize_le size).trans hi), Bool.and_false]

theorem getLsbD_last (e : Elem size) : e.getLsbD (bitSize size - 1) = e.msb := (msb_eq_getLsbD_last e).symm

theorem isNeg_widen (e : Elem size) : isNeg size (e.setWidth 32) = e.msb := by
  rw [isNeg, getLsbD_widen, getLsbD_last]

theorem low_signExtend (e : Elem size) : low size (e.signExtend 32) = e.setWidth 32 := by rw [low_eq, part_signExtend]

theorem part_widen_shiftLeft (e : Elem size) (k : Nat) : part size (e.setWidth 32 <<< k) = e <<< k := by
  refine eq_of_getLsbD_eq fun i hi => ?_
  have := bitSize_le size
  rw [getLsbD_part, getLsbD_shiftLeft, getLsbD_shiftLeft, getLsbD_widen, decide_eq_true hi,
    decide_eq_true (show i < 32 by omega), Bool.true_and]

theorem part_widen_ushiftRight (e : Elem size) (k : Nat) : part size (e.setWidth 32 >>> k) = e >>> k := by
  refine eq_of_getLsbD_eq fun i hi => ?_
  rw [getLsbD_part, getLsbD_ushiftRight, getLsbD_ushiftRight, getLsbD_widen, decide_eq_true hi,
    Bool.true_and]

theorem getLsbD_cmask (i : Nat) : (cmask size).getLsbD i = decide (i = bitSize size - 1) := by
  rcases Nat.lt_or_ge i 32 with hi | hi
  · have table : ∀ j : Fin 32, (cmask size).getLsbD j = decide (j.val = bitSize size - 1) := by cases size <;> decide
    exact table ⟨i, hi⟩
  · have := bitSize_le size; rw [getLsbD_of_ge _ _ hi, decide_eq_false (by omega)]

/-! ## One bit -/

section

variable (p : Flags × Elem size)

theorem step_eq {sh : Shift} {out : ShiftOut} (h : sh.mem size (p.2.signExtend 32) p.1 = shiftFlags size out) :
    sh.step p = elemOut out.x out.v out.c (part size out.val) := by
  rw [← shiftFlags_elemOut, ← h]
  rfl

theorem step_asr : Shift.asr.step p = elemOut (p.2.getLsbD 0) false (p.2.getLsbD 0) (p.2.sshiftRight 1) := by
  have hval : part size ((p.2.setWidth 32 >>> 1) ||| (cmask size &&& p.2.setWidth 32)) = p.2.sshiftRight 1 := by
    refine eq_of_getLsbD_eq fun i hi => ?_
    rw [getLsbD_part, getLsbD_or, getLsbD_ushiftRight, getLsbD_and, getLsbD_widen, getLsbD_widen,
      getLsbD_cmask, getLsbD_sshiftRight, decide_eq_true hi, ← getLsbD_last]
    rcases Nat.lt_or_ge (1 + i) (bitSize size) with hlt | hge
    · simp [hlt, hi, show i ≠ bitSize size - 1 by omega]
    · obtain rfl : i = bitSize size - 1 := by omega
      simp [getLsbD_of_ge p.2 _ hge, show ¬1 + (bitSize size - 1) < bitSize size by omega, hi]
  rw [step_eq p (by rw [Shift.mem, opAsrw, low_signExtend]), hval, getLsbD_widen]

theorem step_lsr : Shift.lsr.step p = elemOut (p.2.getLsbD 0) false (p.2.getLsbD 0) (p.2 >>> 1) := by
  rw [step_eq p (by rw [Shift.mem, opLsrw, low_signExtend]), part_widen_ushiftRight, getLsbD_widen]

theorem step_asl : Shift.asl.step p = elemOut p.2.msb ((p.2 <<< 1).msb != p.2.msb) p.2.msb (p.2 <<< 1) := by
  rw [step_eq p (by rw [Shift.mem, opAslw, low_signExtend]), isNeg_widen, isNeg_eq, part_widen_shiftLeft]

theorem step_lsl : Shift.lsl.step p = elemOut p.2.msb false p.2.msb (p.2 <<< 1) := by
  rw [step_eq p (by rw [Shift.mem, opLslw, low_signExtend]), part_low, part_widen_shiftLeft, isNeg_widen]

theorem getLsbD_bitIf (b : Bool) (i : Nat) : (if b then (1 : BitVec 32) else 0).getLsbD i = (b && decide (i = 0)) := by
  cases b <;> simp [getLsbD_one]

theorem getLsbD_cmaskIf (b : Bool) (i : Nat) :
    (if b then cmask size else 0).getLsbD i = (b && decide (i = bitSize size - 1)) := by
  cases b <;> simp [getLsbD_cmask]

theorem getLsbD_left (e : Elem size) (b : Bool) {i} (hi : i < bitSize size) :
    (part size (low size (e.setWidth 32 <<< 1) ||| (if b then 1 else 0))).getLsbD i =
      if i = 0 then b else e.getLsbD (i - 1) := by
  rw [getLsbD_part, getLsbD_or, getLsbD_low, part_widen_shiftLeft, getLsbD_bitIf, getLsbD_shiftLeft,
    decide_eq_true hi]
  rcases Nat.eq_zero_or_pos i with rfl | hpos
  · simp
  · simp [hpos.ne', Nat.not_lt_of_le hpos]

theorem getLsbD_right (e : Elem size) (b : Bool) {i} (hi : i < bitSize size) :
    (part size ((e.setWidth 32 >>> 1) ||| (if b then cmask size else 0))).getLsbD i =
      if i = bitSize size - 1 then b else e.getLsbD (i + 1) := by
  rw [getLsbD_part, getLsbD_or, getLsbD_ushiftRight, getLsbD_widen, getLsbD_cmaskIf, decide_eq_true hi]
  by_cases h : i = bitSize size - 1
  · simp [h, getLsbD_of_ge e (1 + (bitSize size - 1)) (by omega)]
  · simp [h, Nat.add_comm]

theorem one_mod_bitSize : 1 % bitSize size = 1 := by cases size <;> rfl

theorem left_rotates (e : Elem size) :
    part size (low size (e.setWidth 32 <<< 1) ||| (if e.msb then 1 else 0)) = e.rotateLeft 1 := by
  refine eq_of_getLsbD_eq fun i hi => ?_
  rw [getLsbD_left e _ hi, getLsbD_rotateLeft_mod _ _ hi, one_mod_bitSize]
  rcases Nat.eq_zero_or_pos i with rfl | hpos
  · rw [if_pos rfl, Nat.zero_add, mod_eq_of_lt (by omega), getLsbD_last]
  · rw [if_neg hpos.ne', show i + (bitSize size - 1) = i - 1 + bitSize size by omega, add_mod_right,
      mod_eq_of_lt (by omega)]

theorem right_rotates (e : Elem size) :
    part size ((e.setWidth 32 >>> 1) ||| (if e.getLsbD 0 then cmask size else 0)) = e.rotateRight 1 := by
  refine eq_of_getLsbD_eq fun i hi => ?_
  rw [getLsbD_right e _ hi, getLsbD_rotateRight_mod _ _ hi]
  by_cases h : i = bitSize size - 1
  · rw [if_pos h, show i + 1 = bitSize size by omega, mod_self]
  · rw [if_neg h, mod_eq_of_lt (by omega)]

theorem step_rol : Shift.rol.step p = elemOut p.1.x false p.2.msb (p.2.rotateLeft 1) := by
  rw [step_eq p (by rw [Shift.mem, opRolw, low_signExtend]), isNeg_widen, left_rotates]

theorem step_ror : Shift.ror.step p = elemOut p.1.x false (p.2.getLsbD 0) (p.2.rotateRight 1) := by
  rw [step_eq p (by rw [Shift.mem, opRorw, low_signExtend]), getLsbD_widen, right_rotates]

/-! The rotates through `X` are rotates of a ring with one bit more. -/

def ring (p : Flags × Elem size) : BitVec (bitSize size + 1) := BitVec.cons p.1.x p.2

theorem ring_elemOut (x v c : Bool) (r : Elem size) : ring (elemOut x v c r) = BitVec.cons x r := rfl

theorem ring_inj {p q : Flags × Elem size} (h : ring p = ring q) : p.1.x = q.1.x ∧ p.2 = q.2 := by
  have hx := congrArg BitVec.msb h
  have hval := congrArg (BitVec.setWidth (bitSize size)) h
  exact ⟨by simpa [ring] using hx, by simpa [ring] using hval⟩

theorem getLsbD_ring_rotateLeft {c i} (hc : 0 < c) (hc' : c ≤ bitSize size) (hi : i < bitSize size + 1) :
    ((ring p).rotateLeft c).getLsbD i =
      if i + 1 = c then p.1.x else if i < c then p.2.getLsbD (i + (bitSize size + 1 - c)) else p.2.getLsbD (i - c) := by
  rw [getLsbD_rotateLeft_mod _ _ hi, mod_eq_of_lt (show c < bitSize size + 1 by omega), ring, getLsbD_cons]
  rcases Nat.lt_or_ge i c with hlt | hge
  · rw [mod_eq_of_lt (show i + (bitSize size + 1 - c) < bitSize size + 1 by omega), if_pos hlt]
    by_cases h : i + 1 = c
    · rw [if_pos h, if_pos (by omega)]
    · rw [if_neg h, if_neg (by omega)]
  · rw [show i + (bitSize size + 1 - c) = i - c + (bitSize size + 1) by omega, add_mod_right,
      mod_eq_of_lt (by omega), if_neg (by omega), if_neg (by omega), if_neg (by omega)]

theorem step_roxl :
    ring (Shift.roxl.step p) = (ring p).rotateLeft 1 ∧ (Shift.roxl.step p).1.c = (Shift.roxl.step p).1.x := by
  rw [step_eq p (by rw [Shift.mem, opRoxlw, low_signExtend]), isNeg_widen]
  refine ⟨eq_of_getLsbD_eq fun i hi => ?_, rfl⟩
  have hn := bitSize_pos size
  rw [ring_elemOut, getLsbD_cons, getLsbD_ring_rotateLeft p Nat.one_pos hn hi]
  dsimp only
  by_cases h : i = bitSize size
  · rw [if_pos h, if_neg (by omega), if_neg (by omega), h, getLsbD_last]
  · rw [if_neg h, getLsbD_left _ _ (by omega)]
    by_cases h₀ : i = 0
    · rw [if_pos h₀, if_pos (by omega)]
    · rw [if_neg h₀, if_neg (by omega), if_neg (by omega)]

theorem step_roxr :
    ring (Shift.roxr.step p) = (ring p).rotateRight 1 ∧ (Shift.roxr.step p).1.c = (Shift.roxr.step p).1.x := by
  rw [step_eq p (by rw [Shift.mem, opRoxrw, low_signExtend]), getLsbD_widen]
  refine ⟨eq_of_getLsbD_eq fun i hi => ?_, rfl⟩
  have hn := bitSize_pos size
  rw [ring_elemOut, getLsbD_cons, rotateRight_eq_rotateLeft _ (by omega), Nat.add_sub_cancel,
    getLsbD_ring_rotateLeft p hn le_rfl hi]
  dsimp only
  by_cases h : i = bitSize size
  · rw [if_pos h, if_neg (by omega), if_neg (by omega), h, Nat.sub_self]
  · rw [if_neg h, getLsbD_right _ _ (by omega), Nat.add_sub_cancel_left]
    by_cases h₁ : i + 1 = bitSize size
    · rw [if_pos (by omega), if_pos h₁]
    · rw [if_neg (by omega), if_neg h₁, if_pos (by omega)]

end

/-! ## Many bits, one by one -/

section

variable (f : Flags) (e : Elem size)

variable (k : Nat)

theorem after_succ (sh : Shift) (k : Nat) : sh.after f e (k + 1) = sh.step (sh.after f e k) :=
  Function.iterate_succ_apply' ..

theorem after_asr : (Shift.asr.after f e k).2 = e.sshiftRight k := by
  induction k with
  | zero => simp [Shift.after]
  | succ k ih => rw [after_succ, step_asr, ih, elemOut, sshiftRight_add]

theorem after_asl : (Shift.asl.after f e k).2 = e <<< k := by
  induction k with
  | zero => simp [Shift.after]
  | succ k ih => rw [after_succ, step_asl, ih, elemOut, BitVec.shiftLeft_add]

theorem after_lsl : (Shift.lsl.after f e k).2 = e <<< k := by
  induction k with
  | zero => simp [Shift.after]
  | succ k ih => rw [after_succ, step_lsl, ih, elemOut, BitVec.shiftLeft_add]

theorem after_lsr : (Shift.lsr.after f e k).2 = e >>> k := by
  induction k with
  | zero => simp [Shift.after]
  | succ k ih => rw [after_succ, step_lsr, ih, elemOut, BitVec.shiftRight_add]

theorem after_rol : (Shift.rol.after f e k).1.x = f.x ∧ (Shift.rol.after f e k).2 = e.rotateLeft k := by
  induction k with
  | zero => exact ⟨rfl, (rotateLeft_zero e).symm⟩
  | succ k ih => rw [after_succ, step_rol, ih.1, ih.2, rotateLeft_rotateLeft_one]; exact ⟨rfl, rfl⟩

theorem after_ror : (Shift.ror.after f e k).1.x = f.x ∧ (Shift.ror.after f e k).2 = e.rotateRight k := by
  induction k with
  | zero => exact ⟨rfl, (rotateRight_zero e).symm⟩
  | succ k ih => rw [after_succ, step_ror, ih.1, ih.2, rotateRight_rotateRight_one]; exact ⟨rfl, rfl⟩

theorem after_roxl : ring (Shift.roxl.after f e k) = (ring (f, e)).rotateLeft k := by
  induction k with
  | zero => exact (rotateLeft_zero _).symm
  | succ k ih => rw [after_succ, (step_roxl _).1, ih, rotateLeft_rotateLeft_one]

theorem after_roxr : ring (Shift.roxr.after f e k) = (ring (f, e)).rotateRight k := by
  induction k with
  | zero => exact (rotateRight_zero _).symm
  | succ k ih => rw [after_succ, (step_roxr _).1, ih, rotateRight_rotateRight_one]

end

/-! ## A register, at once -/

def Shift.regOut (sh : Shift) (size : Sz) (imm : Bool) (cnt data : BitVec 32) (f : Flags) : Flags × Elem size :=
  ((sh.reg size imm cnt data f).1, part size (sh.reg size imm cnt data f).2)

theorem step_elemOut (sh : Shift) (p : Flags × Elem size) : ∃ x v c r, sh.step p = elemOut x v c r := by
  cases sh <;> exact ⟨_, _, _, _, step_eq p rfl⟩

theorem Shifted.at_zero (sh : Shift) (f : Flags) (e : Elem size) :
    Shifted sh 0 f e (elemOut f.x false (sh.isRox && f.x) e) :=
  ⟨rfl, rfl, rfl, rfl, by simp [elemOut], by simp, fun _ => rfl⟩

theorem Shifted.of_step {sh : Shift} {f : Flags} {j x v v' c} {e r : Elem size}
    (hstep : sh.step (sh.after f e j) = elemOut x v c r)
    (hv : v' = true ↔ sh = .asl ∧ ∃ i < j + 1, (sh.after f e i).2.msb ≠ (sh.after f e (i + 1)).2.msb) :
    Shifted sh (j + 1) f e (elemOut x v' c r) := by
  rw [← after_succ] at hstep
  refine ⟨?_, ?_, rfl, rfl, hv, fun _ => ?_, by simp⟩ <;> rw [hstep]
  · rfl
  · rfl
  · exact ⟨rfl, rfl, rfl⟩

section

variable {imm : Bool} {cnt : BitVec 32} (data : BitVec 32) (f : Flags)

theorem part_widen (e : Elem size) : part size (e.setWidth 32) = e := by
  rw [part, setWidth_setWidth_of_le _ (bitSize_le size), setWidth_eq]

theorem regOut_eq {sh : Shift} {out : ShiftOut} (h : sh.reg size imm cnt data f = shiftFlags size out) :
    sh.regOut size imm cnt data f = elemOut out.x out.v out.c (part size out.val) := by
  rw [← shiftFlags_elemOut, Shift.regOut, h]

theorem Shifted.of_count {sh : Shift} {k} {e : Elem size} {out : ShiftOut} (hrox : sh.isRox = false)
    (himm : imm = true → 0 < k ∧ k ≤ 8) (hreg : sh.reg size imm cnt data f =
      shiftFlags size (if imm || decide (k > 0) then out else ⟨f.x, false, false, e.setWidth 32⟩))
    (hout : ∀ j, k = j + 1 → Shifted sh (j + 1) f e (elemOut out.x out.v out.c (part size out.val))) :
    Shifted sh k f e (sh.regOut size imm cnt data f) := by
  rw [regOut_eq data f hreg]
  cases k with
  | zero =>
    have h := Shifted.at_zero sh f e
    rw [hrox, Bool.false_and] at h
    rw [if_neg (by simpa using himm), part_widen]; exact h
  | succ j => rw [if_pos (by simp)]; exact hout j rfl

theorem Shifted.of_counts {sh : Shift} {k} {e : Elem size} {out big : ShiftOut} (hrox : sh.isRox = false)
    (himm : imm = true → 0 < k ∧ k ≤ 8) (hreg : sh.reg size imm cnt data f = shiftFlags size
      (if bitSize size ≤ k then big else if imm || decide (k > 0) then out else ⟨f.x, false, false, e.setWidth 32⟩))
    (hbig : ∀ j, k = j + 1 → bitSize size ≤ j + 1 →
      Shifted sh (j + 1) f e (elemOut big.x big.v big.c (part size big.val)))
    (hout : ∀ j, k = j + 1 → j + 1 < bitSize size →
      Shifted sh (j + 1) f e (elemOut out.x out.v out.c (part size out.val))) :
    Shifted sh k f e (sh.regOut size imm cnt data f) := by
  rcases Nat.lt_or_ge k (bitSize size) with hlt | hge
  · rw [if_neg (by omega)] at hreg
    exact .of_count data f hrox himm hreg fun j hj => hout j hj (hj ▸ hlt)
  · rw [if_pos hge] at hreg
    obtain ⟨j, rfl⟩ := Nat.exists_eq_add_one.mpr (Nat.lt_of_lt_of_le (bitSize_pos size) hge)
    rw [regOut_eq data f hreg]; exact hbig j rfl hge

theorem getLsbD_fill (b : Bool) {i} (hi : i < 32) : (if b then (-1 : BitVec 32) else 0).getLsbD i = b := by
  cases b with
  | false => simp
  | true => rw [if_pos rfl, show (-1 : BitVec 32) = BitVec.allOnes 32 by decide, getLsbD_allOnes, decide_eq_true hi]

theorem getLsbD_zero_widen_ushiftRight (e : Elem size) (j : Nat) : (e.setWidth 32 >>> j).getLsbD 0 = e.getLsbD j := by
  rw [getLsbD_ushiftRight, getLsbD_widen, Nat.add_zero]

theorem getLsbD_zero_ushiftRight (e : Elem size) (j : Nat) : (e >>> j).getLsbD 0 = e.getLsbD j := by
  simp [getLsbD_ushiftRight]

theorem getLsbD_zero_of_part {v r} (h : part size v = r) : v.getLsbD 0 = r.getLsbD 0 := by
  rw [← h, getLsbD_part, decide_eq_true (bitSize_pos size), Bool.true_and]

theorem part_asr (e : Elem size) {k} (hk : 0 < k) (hlt : k < bitSize size) :
    part size ((((e.setWidth 32 >>> (k - 1)) >>> 1) |||
      ((bitMask size <<< (bitSize size - k)) &&& (if e.msb then -1 else 0))) &&& bitMask size) = e.sshiftRight k := by
  have hle := bitSize_le size
  refine eq_of_getLsbD_eq fun i hi => ?_
  rw [getLsbD_part, getLsbD_and, getLsbD_or, getLsbD_and, getLsbD_ushiftRight,
    getLsbD_ushiftRight, getLsbD_widen, getLsbD_shiftLeft, getLsbD_bitMask, getLsbD_bitMask,
    getLsbD_fill _ (by omega), getLsbD_sshiftRight, show k - 1 + (1 + i) = k + i by omega]
  rcases Nat.lt_or_ge (k + i) (bitSize size) with h | h
  · simp [hi, h, show i < bitSize size - k by omega]
  · simp [hi, getLsbD_of_ge e _ h, show ¬k + i < bitSize size by omega, show ¬i < bitSize size - k by omega,
      show i - (bitSize size - k) < bitSize size by omega, show i < 32 by omega]

theorem msb_shiftLeft_of_ge (e : Elem size) {j} (hge : bitSize size ≤ j + 1) :
    (decide (j + 1 = bitSize size) && (e.setWidth 32).getLsbD 0) = (e <<< j).msb := by
  rw [msb_shiftLeft, BitVec.getMsbD, getLsbD_widen]
  by_cases h : j + 1 = bitSize size
  · rw [decide_eq_true h, decide_eq_true (by omega), show bitSize size - 1 - j = 0 by omega]
  · rw [decide_eq_false h, decide_eq_false (by omega), Bool.false_and, Bool.false_and]

theorem part_left (e : Elem size) (j : Nat) :
    part size (((e.setWidth 32 <<< (j + 1 - 1)) <<< 1) &&& bitMask size) = e <<< (j + 1) := by
  rw [← low, part_low, Nat.add_sub_cancel, ← BitVec.shiftLeft_add, part_widen_shiftLeft]

theorem exists_change_iff (b : Nat → Bool) (k : Nat) :
    (∃ j < k, b j ≠ b (j + 1)) ↔ ¬(∀ j ≤ k, b j = true) ∧ ¬(∀ j ≤ k, b j = false) := by
  constructor
  · rintro ⟨j, hj, hne⟩
    constructor <;> (intro h; exact hne (by rw [h j hj.le, h (j + 1) hj]))
  · rintro ⟨htrue, hfalse⟩
    by_contra hnone
    push Not at hnone
    have hconst : ∀ j ≤ k, b j = b 0 := by
      intro j
      induction j with
      | zero => exact fun _ => rfl
      | succ j ih => exact fun hj => (hnone j hj).symm.trans (ih (by omega))
    cases hb : b 0 with
    | false => exact hfalse fun j hj => (hconst j hj).trans hb
    | true => exact htrue fun j hj => (hconst j hj).trans hb

theorem msb_shiftLeft_of_lt (e : Elem size) {j} (hj : j < bitSize size) :
    (e <<< j).msb = e.getLsbD (bitSize size - 1 - j) := by
  rw [msb_shiftLeft, BitVec.getMsbD, decide_eq_true hj, Bool.true_and]

def aslMask (size : Sz) (k : Nat) : BitVec 32 := (bitMask size <<< (bitSize size - 1 - k)) &&& bitMask size

theorem getLsbD_aslMask {k i} (hi : i < 32) :
    (aslMask size k).getLsbD i = (decide (bitSize size - 1 - k ≤ i) && decide (i < bitSize size)) := by
  rw [aslMask, getLsbD_and, getLsbD_shiftLeft, getLsbD_bitMask, getLsbD_bitMask, decide_eq_true hi,
    Bool.true_and]
  by_cases h : i < bitSize size
  · rw [decide_eq_true h, decide_eq_true (show i - (bitSize size - 1 - k) < bitSize size by omega), Bool.and_true,
      Bool.and_true, Bool.and_true, ← decide_not, decide_eq_decide, Nat.not_lt]
  · rw [decide_eq_false h, Bool.and_false, Bool.and_false]

theorem and_aslMask_iff (e : Elem size) {k} (hk : k < bitSize size) (b : Bool) :
    e.setWidth 32 &&& aslMask size k = (if b then aslMask size k else 0) ↔ ∀ j ≤ k, (e <<< j).msb = b := by
  have hle := bitSize_le size
  have hif (i : Nat) : (if b then aslMask size k else 0).getLsbD i = (b && (aslMask size k).getLsbD i) := by
    cases b <;> simp
  constructor
  · intro h j hj
    have hbit := congrArg (fun v => BitVec.getLsbD v (bitSize size - 1 - j)) h
    simp only [hif, getLsbD_and, getLsbD_widen, getLsbD_aslMask (show bitSize size - 1 - j < 32 by omega)] at hbit
    rw [decide_eq_true (by omega), decide_eq_true (by omega), Bool.and_true, Bool.and_true, Bool.and_true] at hbit
    rw [msb_shiftLeft_of_lt e (by omega), hbit]
  · intro h
    refine eq_of_getLsbD_eq fun i hi => ?_
    rw [getLsbD_and, getLsbD_widen, hif, getLsbD_aslMask hi]
    by_cases hin : bitSize size - 1 - k ≤ i ∧ i < bitSize size
    · have hbit := h (bitSize size - 1 - i) (by omega)
      rw [msb_shiftLeft_of_lt e (by omega), show bitSize size - 1 - (bitSize size - 1 - i) = i by omega] at hbit
      rw [hbit]
    · rw [← Bool.decide_and, decide_eq_false hin, Bool.and_false, Bool.and_false]

theorem asl_overflow_iff (e : Elem size) {k} (hk : k < bitSize size) :
    (e.setWidth 32 &&& aslMask size k != aslMask size k && e.setWidth 32 &&& aslMask size k != 0) = true ↔
      ∃ j < k, (e <<< j).msb ≠ (e <<< (j + 1)).msb := by
  rw [exists_change_iff (fun j => (e <<< j).msb), Bool.and_eq_true, bne_iff_ne, bne_iff_ne, ← and_aslMask_iff e hk,
    ← and_aslMask_iff e hk]
  rfl

theorem asl_overflow_all_iff (e : Elem size) {k} (hk : bitSize size ≤ k) :
    (e.setWidth 32 != 0) = true ↔ ∃ j < k, (e <<< j).msb ≠ (e <<< (j + 1)).msb := by
  have hlast : (e <<< k).msb = false := by rw [shiftLeft_eq_zero hk]; simp
  rw [exists_change_iff (fun j => (e <<< j).msb), bne_iff_ne]
  constructor
  · intro hne
    refine ⟨fun h => ?_, fun h => hne (eq_of_getLsbD_eq fun i hi => ?_)⟩
    · exact absurd ((h k (le_refl k)).symm.trans hlast) (by decide)
    · rw [getLsbD_widen, ofNat_eq_ofNat, getLsbD_zero]
      rcases Nat.lt_or_ge i (bitSize size) with hin | hout
      · have hbit := h (bitSize size - 1 - i) (by omega)
        rwa [msb_shiftLeft_of_lt e (by omega), show bitSize size - 1 - (bitSize size - 1 - i) = i by omega] at hbit
      · exact getLsbD_of_ge e i hout
  · rintro ⟨-, hfalse⟩ heq
    have hzero : e = 0#_ := by rw [← part_widen e, heq]; exact part_zero
    exact hfalse fun j _ => by simp [hzero]

theorem part_rotate (e : Elem size) {c} (hc : c ≤ bitSize size) :
    part size (((e.setWidth 32 <<< c) ||| (e.setWidth 32 >>> (bitSize size - c))) &&& bitMask size) = e.rotateLeft c := by
  have hle := bitSize_le size
  rw [← low, part_low]
  refine eq_of_getLsbD_eq fun i hi => ?_
  rw [getLsbD_rotateLeft_mod _ _ hi, getLsbD_part, getLsbD_or, getLsbD_shiftLeft, getLsbD_ushiftRight,
    getLsbD_widen, getLsbD_widen, decide_eq_true hi, decide_eq_true (show i < 32 by omega)]
  rcases Nat.lt_or_ge i c with hlt | hge
  · rcases Nat.eq_or_lt_of_le hc with rfl | hc
    · simp [hi, mod_eq_of_lt hi]
    · rw [mod_eq_of_lt hc, mod_eq_of_lt (by omega), Nat.add_comm i]; simp [hlt]
  · rw [mod_eq_of_lt (show c < bitSize size by omega),
      show i + (bitSize size - c) = i - c + bitSize size by omega, add_mod_right, mod_eq_of_lt (by omega),
      getLsbD_of_ge e (bitSize size - c + i) (by omega)]
    simp [Nat.not_lt.mpr hge]

theorem part_rol (e : Elem size) (k : Nat) :
    part size (((e.setWidth 32 <<< (k % bitSize size)) ||| (e.setWidth 32 >>> (bitSize size - k % bitSize size))) &&&
      bitMask size) = e.rotateLeft k := by
  rw [part_rotate e (mod_lt k (bitSize_pos size)).le, rotateLeft_mod_eq_rotateLeft]

theorem part_ror (e : Elem size) (k : Nat) :
    part size (((e.setWidth 32 >>> (k % bitSize size)) ||| (e.setWidth 32 <<< (bitSize size - k % bitSize size))) &&&
      bitMask size) = e.rotateRight k := by
  have hk := (mod_lt k (bitSize_pos size)).le
  have h := part_rotate e (sub_le (bitSize size) (k % bitSize size))
  rwa [Nat.sub_sub_self hk, BitVec.or_comm, ← rotateRight_eq_rotateLeft _ hk, rotateRight_mod_eq_rotateRight] at h

theorem getLsbD_zero_rotateLeft_one (e : Elem size) : (e.rotateLeft 1).getLsbD 0 = e.msb := by
  have hn := bitSize_pos size
  rw [getLsbD_rotateLeft_mod _ _ hn, one_mod_bitSize, Nat.zero_add, mod_eq_of_lt (by omega), getLsbD_last]

theorem msb_rotateRight_one (e : Elem size) : (e.rotateRight 1).msb = e.getLsbD 0 := by
  have hn := bitSize_pos size
  rw [← getLsbD_last, getLsbD_rotateRight_mod _ _ (by omega), Nat.sub_add_cancel hn, mod_self]

/-! The rotates through `X` come back after one bit more than the size. -/

theorem forceRangeForRox_eq (size : Sz) {k} (hk : k < 64) : forceRangeForRox size k = k % (bitSize size + 1) := by
  have table : ∀ k : Fin 64, forceRangeForRox size k = k.val % (bitSize size + 1) := by cases size <;> decide
  exact table ⟨k, hk⟩

theorem shiftCount_lt (cnt : BitVec 32) : shiftCount cnt < 64 := by
  rw [shiftCount, toNat_and]
  exact Nat.lt_of_le_of_lt and_le_right (by decide)

theorem roxCount_eq (size : Sz) (himm : imm = true → shiftCount cnt ≤ 8) :
    roxCount size imm cnt = shiftCount cnt % (bitSize size + 1) := by
  have hn : 8 ≤ bitSize size := by cases size <;> decide
  unfold roxCount
  split
  · rename_i h; have := himm h; rw [mod_eq_of_lt (by omega)]
  · exact forceRangeForRox_eq size (shiftCount_lt cnt)

theorem ring_roxl (e : Elem size) (v : Bool) {c} (hc : c < bitSize size) :
    ring (elemOut ((e.setWidth 32 >>> (bitSize size - 1 - c)).getLsbD 0) v
      ((e.setWidth 32 >>> (bitSize size - 1 - c)).getLsbD 0)
      (part size (((((e.setWidth 32 <<< 1) ||| xBit f) <<< c) ||| ((e.setWidth 32 >>> (bitSize size - 1 - c)) >>> 1)) &&&
        bitMask size))) = (ring (f, e)).rotateLeft (c + 1) := by
  have hle := bitSize_le size
  rw [← low, part_low, ring_elemOut, getLsbD_zero_widen_ushiftRight]
  refine eq_of_getLsbD_eq fun i hi => ?_
  rw [getLsbD_cons, getLsbD_ring_rotateLeft _ (by omega) (by omega) hi]
  by_cases hlast : i = bitSize size
  · rw [if_pos hlast, if_neg (by omega), if_neg (by omega), show i - (c + 1) = bitSize size - 1 - c by omega]
  rw [if_neg hlast, getLsbD_part, getLsbD_or, getLsbD_shiftLeft, getLsbD_or, getLsbD_shiftLeft,
    getLsbD_ushiftRight, getLsbD_ushiftRight, getLsbD_widen, getLsbD_widen, xBit, getLsbD_bitIf,
    decide_eq_true (show i < bitSize size by omega), decide_eq_true (show i < 32 by omega),
    decide_eq_true (show i - c < 32 by omega)]
  rcases Nat.lt_trichotomy i c with hlt | rfl | hgt
  · rw [if_neg (by omega), if_pos (by omega),
      show i + (bitSize size + 1 - (c + 1)) = bitSize size - 1 - c + (1 + i) by omega]
    simp [hlt]
  · rw [if_pos rfl, getLsbD_of_ge e (bitSize size - 1 - i + (1 + i)) (by omega)]; simp
  · rw [if_neg (by omega), if_neg (by omega), getLsbD_of_ge e (bitSize size - 1 - c + (1 + i)) (by omega)]
    simp [show ¬i < c by omega, show ¬i - c < 1 by omega, show i - c ≠ 0 by omega, Nat.sub_sub]

theorem ring_roxr (e : Elem size) (v : Bool) {c} (hc : c < bitSize size) :
    ring (elemOut ((e.setWidth 32 >>> c).getLsbD 0) v ((e.setWidth 32 >>> c).getLsbD 0)
      (part size ((((e.setWidth 32 >>> c) >>> 1) ||| (((e.setWidth 32 <<< 1) ||| xBit f) <<< (bitSize size - 1 - c))) &&&
        bitMask size))) = (ring (f, e)).rotateRight (c + 1) := by
  have h := ring_roxl f e v (c := bitSize size - 1 - c) (by omega)
  rwa [show bitSize size - 1 - (bitSize size - 1 - c) = c by omega, BitVec.or_comm ((e.setWidth 32 <<< 1 ||| xBit f) <<< _),
    show bitSize size - 1 - c + 1 = bitSize size + 1 - (c + 1) by omega,
    ← rotateRight_eq_rotateLeft _ (by omega)] at h

theorem ring_after_mod {sh : Shift} (hsh : sh = .roxl ∨ sh = .roxr) (e : Elem size) (k : Nat) :
    ring (sh.after f e (k % (bitSize size + 1))) = ring (sh.after f e k) := by
  obtain rfl | rfl := hsh
  · rw [after_roxl, after_roxl, rotateLeft_mod_eq_rotateLeft]
  · rw [after_roxr, after_roxr, rotateRight_mod_eq_rotateRight]

theorem Shifted.of_ring {sh : Shift} (hsh : sh = .roxl ∨ sh = .roxr) {k x} {e r : Elem size}
    (h : ring (elemOut x false x r) = ring (sh.after f e k)) : Shifted sh k f e (elemOut x false x r) := by
  obtain ⟨hx, hr⟩ := ring_inj h
  cases k with
  | zero =>
    obtain ⟨rfl, rfl⟩ : x = f.x ∧ r = e := ⟨hx, hr⟩
    have hzero := Shifted.at_zero sh f r
    obtain rfl | rfl := hsh <;> exact hzero
  | succ j =>
    obtain ⟨x', v', c', r', hstep⟩ := step_elemOut sh (sh.after f e j)
    have hc : (sh.step (sh.after f e j)).1.c = (sh.step (sh.after f e j)).1.x := by
      obtain rfl | rfl := hsh
      · exact (step_roxl _).2
      · exact (step_roxr _).2
    rw [after_succ, hstep] at hx hr
    rw [hstep] at hc
    obtain ⟨rfl, rfl, rfl⟩ : x = x' ∧ r = r' ∧ c' = x' := ⟨hx, hr, hc⟩
    refine .of_step hstep ?_
    obtain rfl | rfl := hsh <;> simp

/-! The shifts, each by its count. -/

section

variable (himm : imm = true → 0 < shiftCount cnt ∧ shiftCount cnt ≤ 8)

include himm

theorem asr_shifted : Shifted .asr (shiftCount cnt) f (part size data) (Shift.asr.regOut size imm cnt data f) := by
  have hn := bitSize_pos size
  have hreg : Shift.asr.reg size imm cnt data f = opAsr size imm cnt data f := rfl
  simp only [opAsr, low_eq, isNeg_widen] at hreg
  generalize shiftCount cnt = k, part size data = e at himm hreg ⊢
  refine .of_counts data f rfl himm hreg ?_ ?_ <;> rintro j rfl h
  · have hval : part size (bitMask size &&& (if e.msb then -1 else 0)) = e.sshiftRight (j + 1) := by
      have hle := bitSize_le size
      refine eq_of_getLsbD_eq fun i hi => ?_
      rw [getLsbD_part, getLsbD_and, getLsbD_bitMask, getLsbD_fill _ (by omega), getLsbD_sshiftRight,
        if_neg (by omega)]
      simp [hi]
    have hbit : (e.sshiftRight j).getLsbD 0 = e.msb := by
      rw [getLsbD_sshiftRight]
      split
      · obtain rfl : j = bitSize size - 1 := by omega
        simp [hn.ne', getLsbD_last]
      · simp [hn.ne']
    refine .of_step (v := false) ?_ (by simp)
    rw [step_asr, after_asr, hbit, hval, sshiftRight_add]
  · have hbit : (e.sshiftRight j).getLsbD 0 = (e.setWidth 32 >>> (j + 1 - 1)).getLsbD 0 := by
      rw [getLsbD_zero_widen_ushiftRight, getLsbD_sshiftRight, if_pos (by omega)]
      simp [hn.ne']
    refine .of_step (v := false) ?_ (by simp)
    rw [step_asr, after_asr, hbit, part_asr e (by omega) h, sshiftRight_add]

theorem lsr_shifted : Shifted .lsr (shiftCount cnt) f (part size data) (Shift.lsr.regOut size imm cnt data f) := by
  have hreg : Shift.lsr.reg size imm cnt data f = opLsr size imm cnt data f := rfl
  simp only [opLsr, low_eq, isNeg_widen] at hreg
  generalize shiftCount cnt = k, part size data = e at himm hreg ⊢
  refine .of_counts data f rfl himm hreg ?_ ?_ <;> rintro j rfl h <;> refine .of_step (v := false) ?_ (by simp)
  · have hbit : e.getLsbD j = (decide (j + 1 = bitSize size) && e.msb) := by
      by_cases hlast : j + 1 = bitSize size
      · rw [decide_eq_true hlast, Bool.true_and, ← getLsbD_last, show bitSize size - 1 = j by omega]
      · rw [decide_eq_false hlast, Bool.false_and, getLsbD_of_ge e j (by omega)]
    rw [step_lsr, after_lsr, getLsbD_zero_ushiftRight, hbit, part_zero, ← BitVec.shiftRight_add, ushiftRight_eq_zero h]
    rfl
  · rw [step_lsr, after_lsr, getLsbD_zero_ushiftRight, ← BitVec.shiftRight_add, ← BitVec.shiftRight_add,
      part_widen_ushiftRight, getLsbD_zero_widen_ushiftRight, Nat.add_sub_cancel]

theorem lsl_shifted : Shifted .lsl (shiftCount cnt) f (part size data) (Shift.lsl.regOut size imm cnt data f) := by
  have hreg : Shift.lsl.reg size imm cnt data f = opLsl size imm cnt data f := rfl
  simp only [opLsl, low_eq] at hreg
  generalize shiftCount cnt = k, part size data = e at himm hreg ⊢
  refine .of_counts data f rfl himm hreg ?_ ?_ <;> rintro j rfl h <;> refine .of_step (v := false) ?_ (by simp)
  · rw [step_lsl, after_lsl, msb_shiftLeft_of_ge e h, part_zero, ← BitVec.shiftLeft_add, shiftLeft_eq_zero h]; rfl
  · rw [step_lsl, after_lsl, part_left, isNeg_eq, part_widen_shiftLeft, Nat.add_sub_cancel, BitVec.shiftLeft_add]

theorem asl_shifted : Shifted .asl (shiftCount cnt) f (part size data) (Shift.asl.regOut size imm cnt data f) := by
  have hreg : Shift.asl.reg size imm cnt data f = opAsl size imm cnt data f := rfl
  simp only [opAsl, low_eq] at hreg
  generalize shiftCount cnt = k, part size data = e at himm hreg ⊢
  refine .of_counts data f rfl himm hreg ?_ ?_ <;> rintro j rfl h <;>
    refine .of_step (v := (e <<< j <<< 1).msb != (e <<< j).msb) ?_ ?_
  · rw [step_asl, after_asl, msb_shiftLeft_of_ge e h, part_zero, ← BitVec.shiftLeft_add, shiftLeft_eq_zero h]; rfl
  · simp only [after_asl, asl_overflow_all_iff e h, true_and]
  · rw [step_asl, after_asl, part_left, isNeg_eq, part_widen_shiftLeft, Nat.add_sub_cancel, BitVec.shiftLeft_add]
  · simp only [after_asl, true_and]; exact asl_overflow_iff e h

theorem rol_shifted : Shifted .rol (shiftCount cnt) f (part size data) (Shift.rol.regOut size imm cnt data f) := by
  have hreg : Shift.rol.reg size imm cnt data f = opRol size imm cnt data f := rfl
  simp only [opRol, low_eq] at hreg
  generalize shiftCount cnt = k, part size data = e at himm hreg ⊢
  refine .of_count data f rfl himm hreg ?_
  rintro j rfl
  refine .of_step (v := false) ?_ (by simp)
  rw [step_rol, (after_rol f e j).1, (after_rol f e j).2, getLsbD_zero_of_part (part_rol e (j + 1)), part_rol,
    rotateLeft_rotateLeft_one, ← getLsbD_zero_rotateLeft_one, rotateLeft_rotateLeft_one]

theorem ror_shifted : Shifted .ror (shiftCount cnt) f (part size data) (Shift.ror.regOut size imm cnt data f) := by
  have hreg : Shift.ror.reg size imm cnt data f = opRor size imm cnt data f := rfl
  simp only [opRor, low_eq, isNeg_eq, part_ror] at hreg
  generalize shiftCount cnt = k, part size data = e at himm hreg ⊢
  refine .of_count data f rfl himm hreg ?_
  rintro j rfl
  refine .of_step (v := false) ?_ (by simp)
  rw [step_ror, (after_ror f e j).1, (after_ror f e j).2, part_ror, rotateRight_rotateRight_one,
    ← msb_rotateRight_one, rotateRight_rotateRight_one]

theorem Shifted.of_rox {sh : Shift} (hsh : sh = .roxl ∨ sh = .roxr) {x r}
    (hreg : sh.reg size imm cnt data f = shiftFlags size (if imm || decide (roxCount size imm cnt > 0) then
      ⟨x, false, x, r⟩ else ⟨f.x, false, f.x, (part size data).setWidth 32⟩))
    (hout : ∀ c, roxCount size imm cnt = c + 1 → c < bitSize size →
      ring (elemOut x false x (part size r)) = ring (sh.after f (part size data) (c + 1))) :
    Shifted sh (shiftCount cnt) f (part size data) (sh.regOut size imm cnt data f) := by
  have hcount := roxCount_eq size fun h => (himm h).2
  have hlt := mod_lt (shiftCount cnt) (bitSize size).succ_pos
  have hmod := ring_after_mod f hsh (part size data) (shiftCount cnt)
  rw [← hcount] at hlt hmod
  rw [regOut_eq data f hreg]
  cases hc : roxCount size imm cnt with
  | zero =>
    have hnot : imm = false := by
      rw [← Bool.not_eq_true]
      intro h
      rw [roxCount, if_pos h] at hc
      exact (himm h).1.ne' hc
    rw [if_neg (by simp [hnot]), part_widen]
    rw [hc] at hmod
    exact .of_ring f hsh hmod
  | succ c =>
    rw [if_pos (by simp)]
    rw [hc] at hlt hmod
    exact .of_ring f hsh ((hout c hc (by omega)).trans hmod)

theorem roxl_shifted : Shifted .roxl (shiftCount cnt) f (part size data) (Shift.roxl.regOut size imm cnt data f) := by
  have hreg : Shift.roxl.reg size imm cnt data f = opRoxl size imm cnt data f := rfl
  simp only [opRoxl, low_eq] at hreg
  refine .of_rox data f himm (.inl rfl) hreg fun c hc hlt => ?_
  rw [hc, after_roxl]; exact ring_roxl f _ _ hlt

theorem roxr_shifted : Shifted .roxr (shiftCount cnt) f (part size data) (Shift.roxr.regOut size imm cnt data f) := by
  have hreg : Shift.roxr.reg size imm cnt data f = opRoxr size imm cnt data f := rfl
  simp only [opRoxr, low_eq] at hreg
  refine .of_rox data f himm (.inr rfl) hreg fun c hc hlt => ?_
  rw [hc, after_roxr]; exact ring_roxr f _ _ hlt

theorem Shift.shifted (sh : Shift) :
    Shifted sh (shiftCount cnt) f (part size data) (sh.regOut size imm cnt data f) := by
  cases sh with
  | asr => exact asr_shifted data f himm
  | asl => exact asl_shifted data f himm
  | lsr => exact lsr_shifted data f himm
  | lsl => exact lsl_shifted data f himm
  | ror => exact ror_shifted data f himm
  | rol => exact rol_shifted data f himm
  | roxr => exact roxr_shifted data f himm
  | roxl => exact roxl_shifted data f himm

end

end

/-! ## The instructions -/

theorem shiftCount_eq (cnt : BitVec 32) : shiftCount cnt = cnt.toNat % 64 := by
  rw [shiftCount, toNat_and]
  exact and_two_pow_sub_one_eq_mod cnt.toNat 6

theorem shiftCount_signed (size : Sz) (v : BitVec 32) : shiftCount (signed size v) = v.toNat % 64 := by
  have hn : 8 ≤ bitSize size := by cases size <;> decide
  have hmask : ∀ j : Fin 32, (63 : BitVec 32).getLsbD j = true → j.val < 6 := by decide
  have hand : signed size v &&& 63 = v &&& 63 := by
    refine eq_of_getLsbD_eq fun i hi => ?_
    rw [getLsbD_and, getLsbD_and]
    cases hbit : (63 : BitVec 32).getLsbD i with
    | false => rw [Bool.and_false, Bool.and_false]
    | true =>
      have hlt : i < bitSize size := lt_of_lt_of_le (hmask ⟨i, hi⟩ hbit) (by omega)
      rw [signed_eq, getLsbD_signExtend, if_pos hlt, decide_eq_true hi, getLsbD_part, decide_eq_true hlt,
        Bool.true_and, Bool.true_and]
  rw [← shiftCount_eq, shiftCount, shiftCount, hand]

theorem genShift_ok {i} (hd : i.dmode = .dreg) (hs : i.CountSource) (sh : Shift) (s : CpuState) :
    ∃ cnt t, shiftCount cnt = i.count s ∧ genShift i sh.reg s = .ok ⟨⟩ t ∧
      t = { s with flags := (sh.reg i.size i.sourceIsImm18 cnt (signed i.size (s.dreg (regNo i.dreg))) s.flags).1 }.setDreg
        (regNo i.dreg) (mergeLow i.size (s.dreg (regNo i.dreg))
          (sh.reg i.size i.sourceIsImm18 cnt (signed i.size (s.dreg (regNo i.dreg))) s.flags).2) := by
  obtain ⟨hmode, himm⟩ | ⟨hmode, himm, hlow, hhigh⟩ := hs
  on_goal 1 => refine ⟨signed i.size (s.dreg (regNo i.sreg)), _, by rw [shiftCount_signed, Instr.count, himm]; rfl, ?_, rfl⟩
  on_goal 2 =>
    refine ⟨i.sreg, _, by rw [shiftCount_eq, Instr.count, himm, if_pos rfl, mod_eq_of_lt (by omega)], ?_, rfl⟩
  all_goals
    simp only [genShift, srcDstStore, genamode, genamode2, hmode, hd, AMode.isMem, genReg, alu, genastore, genastoreX,
      setDregPart, Bool.false_eq_true, if_false, if_true, bind_apply, get_apply, pure_apply, modify_apply]
    rfl

end Aranym.Cpu
