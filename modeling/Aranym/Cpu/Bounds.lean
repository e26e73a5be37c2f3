import Aranym.Cpu.Lemmas.Restart
import Aranym.Cpu.Lemmas.Sized
import Aranym.Lib.Division

/-!
# Bounds

`CHK2` and `CMP2` compare a register with a pair of bounds, which may be ordered as signed or as unsigned numbers.
-/

namespace Aranym.Cpu

open Aranym.Lib Aranym.Mmu

variable {w : Nat}

/-- The condition codes of the comparison of `value` with the bounds, in each order in which they are bounds. -/
@[mk_iff]
structure Bounded (lower upper value : BitVec w) (f : Flags) : Prop where
  c : ∀ sg, reading sg lower ≤ reading sg upper →
    (f.c = true ↔ reading sg value < reading sg lower ∨ reading sg upper < reading sg value)
  z : f.z = true ↔ value = lower ∨ value = upper

/-- The bounds are in order only when read unsigned, with the value between them. -/
@[mk_iff]
structure Crossing (lower upper value : BitVec w) : Prop where
  signed : reading true upper < reading true lower
  above : reading false lower ≤ reading false value
  below : reading false value ≤ reading false upper

/-! ## Words -/

theorem within_iff {x y v : BitVec w} (hs : reading true x ≤ reading true y) (hu : reading false x ≤ reading false y) :
    (reading true v < reading true x ∨ reading true y < reading true v)
      ↔ (reading false v < reading false x ∨ reading false y < reading false v) := by
  have hv := v.isLt
  simp only [reading_true, reading_false, BitVec.toInt_eq_toNat_cond] at *
  split at * <;> split at * <;> split at * <;> omega

section

variable {lower upper value : BitVec 32} {f : Flags}

theorem opChk2_c : (opChk2 lower upper value f).1.c = true
    ↔ reading true value < reading true lower ∨ reading true upper < reading true value := by
  simp only [opChk2, reading_true]
  split <;> simp [BitVec.slt_iff_toInt_lt, or_comm]

theorem opChk2_z : (opChk2 lower upper value f).1.z = true ↔ value = lower ∨ value = upper := by
  rw [opChk2, Bool.or_eq_true, beq_iff_eq, beq_iff_eq, or_comm, eq_comm, eq_comm (a := upper)]

theorem opChk2_bounded_iff : Bounded lower upper value (opChk2 lower upper value f).1 ↔ ¬ Crossing lower upper value := by
  constructor
  · intro h hcross
    have hc := (h.c false (hcross.above.trans hcross.below)).mp
      (opChk2_c.mpr ((lt_or_ge _ _).imp_right fun hge => hcross.signed.trans_le hge))
    exact hc.elim (not_lt.mpr hcross.above) (not_lt.mpr hcross.below)
  · refine fun hcross => ⟨fun sg hle => ?_, opChk2_z⟩
    cases sg with
    | true => exact opChk2_c
    | false =>
      rcases le_or_gt (reading true lower) (reading true upper) with hs | hs
      · exact opChk2_c.trans (within_iff hs hle)
      · refine iff_of_true (opChk2_c.mpr ((lt_or_ge _ _).imp_right fun hge => hs.trans_le hge)) ?_
        by_contra hin
        rw [not_or, not_lt, not_lt] at hin; exact hcross ⟨hs, hin.1, hin.2⟩

end

/-! ## Sizes -/

section

variable {size : Sz} {x y v : BitVec (bitSize size)} {f : Flags}

theorem reading_signExtend_lt (sg : Bool) :
    reading sg (x.signExtend 32) < reading sg (y.signExtend 32) ↔ reading sg x < reading sg y := by
  cases sg with
  | true =>
    rw [reading_true, reading_true, BitVec.toInt_signExtend_of_le (bitSize_le size),
      BitVec.toInt_signExtend_of_le (bitSize_le size), reading_true, reading_true]
  | false =>
    have hx := BitVec.toInt_signExtend_of_le (x := x) (bitSize_le size)
    have hy := BitVec.toInt_signExtend_of_le (x := y) (bitSize_le size)
    have hle : 2 ^ bitSize size ≤ 2 ^ 32 := Nat.pow_le_pow_right (by decide) (bitSize_le size)
    simp only [reading_false, BitVec.toInt_eq_toNat_cond] at *
    split at hx <;> split at hx <;> split at hy <;> split at hy <;> omega

theorem signExtend_inj : x.signExtend 32 = y.signExtend 32 ↔ x = y := by
  refine ⟨fun h => ?_, fun h => by rw [h]⟩
  rw [← part_signExtend x, h, part_signExtend]

theorem bounded_signExtend_iff :
    Bounded (x.signExtend 32) (y.signExtend 32) (v.signExtend 32) f ↔ Bounded x y v f := by
  simp only [bounded_iff, ← not_lt, reading_signExtend_lt, signExtend_inj]

theorem crossing_signExtend_iff :
    Crossing (x.signExtend 32) (y.signExtend 32) (v.signExtend 32) ↔ Crossing x y v := by
  simp only [crossing_iff, ← not_lt, reading_signExtend_lt]

theorem memVal_eq_signExtend (m : Memory 32) (addr : BitVec 32) :
    memVal size m addr = (part size (memVal size m addr)).signExtend 32 := by
  cases size with
  | byte => exact congrArg (BitVec.signExtend 32) (@part_signExtend .byte (m addr)).symm
  | word => exact congrArg (BitVec.signExtend 32) (@part_signExtend .word (m.getWord addr)).symm
  | long => rw [← signed_eq, signed]

end

/-! ## The instruction -/

def boundOperands (i : Instr) : CpuM (BitVec 32 × BitVec 32) := do
  let extra ← genamode i.smode i.sreg i.size .fetch
  let dst ← genamode i.dmode i.dreg i.size .fetchAlign
  pure (extra.val, dst.addr)

variable {i : Instr} {s u : CpuState} {extra addr : BitVec 32}

theorem genChk2_flags (hop : boundOperands i s = .ok (extra, addr) u) (hlower : ¬ReadFaults u i.size addr)
    (hupper : ¬ReadFaults u i.size (addr + sizeBytes i.size)) :
    (final (genChk2 i s)).flags = (opChk2 (memVal i.size u.mem addr) (memVal i.size u.mem (addr + sizeBytes i.size))
      (if extra.getLsbD 15 then u.regs (regField extra 12) else signed i.size (u.regs (regField extra 12))) u.flags).1 := by
  unfold boundOperands at hop
  obtain ⟨ext, s₁, hext, hop⟩ := bind_ok_inv hop
  obtain ⟨dst, s₂, hdst, hop⟩ := bind_ok_inv hop
  cases hop
  rw [genChk2, bind_ok (get_apply s), bind_ok hext, bind_ok hdst, bind_ok (get_apply u), bind_ok (getMem_granted hlower),
    bind_ok (getMem_granted hupper)]
  rw [bind_ok (show alu _ u = .ok _ _ from rfl)]
  generalize (if ext.val.getLsbD 15 = true then _ else _) = reg
  split <;> rfl

/-- `CHK2` compares as it should exactly if the register is not within bounds that are ordered as unsigned
numbers only. Data registers are compared in the size of the instruction, address registers as a whole. -/
theorem chk2_bounded_iff (hop : boundOperands i s = .ok (extra, addr) u) (hlower : ¬ReadFaults u i.size addr)
    (hupper : ¬ReadFaults u i.size (addr + sizeBytes i.size)) : let lower := memVal i.size u.mem addr
    let upper := memVal i.size u.mem (addr + sizeBytes i.size)
    let reg := u.regs (regField extra 12)
    let flags := (final (genChk2 i s)).flags
    (extra.getLsbD 15 = true → (Bounded lower upper reg flags ↔ ¬ Crossing lower upper reg)) ∧
      (extra.getLsbD 15 = false →
        (Bounded (part i.size lower) (part i.size upper) (part i.size reg) flags
          ↔ ¬ Crossing (part i.size lower) (part i.size upper) (part i.size reg))) := by
  intro lower upper reg flags
  have hflags : flags = _ := genChk2_flags hop hlower hupper
  refine ⟨fun hareg => ?_, fun hdreg => ?_⟩
  · rw [hflags, if_pos hareg]; exact opChk2_bounded_iff
  · rw [hflags, hdreg, if_neg Bool.false_ne_true, signed_eq, ← bounded_signExtend_iff, ← crossing_signExtend_iff,
      ← memVal_eq_signExtend, ← memVal_eq_signExtend]
    exact opChk2_bounded_iff

def sampleBounds (lower upper : BitVec 8) (reg : BitVec 32) : CpuState :=
  { sampleState false with
    regs := fun r => if r = 1 then reg else 0x4000
    mem := fun a => if a = 0xe00002 then 0x10 else if a = 0x4000 then lower else if a = 0x4001 then upper else 0 }

theorem cmp2_around_zero : ∃ i u, table68k 0x00d0 = some i ∧
    boundOperands i (entered (sampleBounds 0xf0 0x10 0x80)) = .ok (0x1000, 0x4000) u ∧
    Bounded (part i.size (memVal i.size u.mem 0x4000)) (part i.size (memVal i.size u.mem (0x4000 + sizeBytes i.size)))
      (part i.size (u.regs 1)) (final (genChk2 i (entered (sampleBounds 0xf0 0x10 0x80)))).flags := by
  obtain ⟨i, u, hi, hop, hbus, hcross⟩ : ∃ i u, table68k 0x00d0 = some i ∧
      boundOperands i (entered (sampleBounds 0xf0 0x10 0x80)) = .ok (0x1000, 0x4000) u ∧
      (∀ addr, ¬ReadFaults u i.size addr) ∧
      ¬ Crossing (part i.size (memVal i.size u.mem 0x4000)) (part i.size (memVal i.size u.mem (0x4000 + sizeBytes i.size)))
        (part i.size (u.regs 1)) :=
    ⟨_, _, rfl, rfl, fun _ => Bool.false_ne_true, fun h => absurd h.below (by decide)⟩
  exact ⟨i, u, hi, hop, ((chk2_bounded_iff hop (hbus _) (hbus _)).2 rfl).mpr hcross⟩

/-- Unsigned bounds from 0x10 to 0xf0, with 0x80 between them: `C` is set. -/
theorem cmp2_unsigned_bounds : ∃ i, table68k 0x00d0 = some i ∧ i.mnemo = .chk2 ∧
    (final (genChk2 i (entered (sampleBounds 0x10 0xf0 0x80)))).flags.c = true ∧
    ¬ Bounded 0x10#8 0xf0#8 0x80#8 (final (genChk2 i (entered (sampleBounds 0x10 0xf0 0x80)))).flags := by
  refine ⟨_, rfl, rfl, rfl, fun h => ?_⟩
  exact absurd ((h.c false (by decide)).mp rfl) (by decide)

end Aranym.Cpu
