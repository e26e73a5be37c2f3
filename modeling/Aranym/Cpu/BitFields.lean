import Aranym.Cpu.Lemmas.BitFields

/-!
# Bit fields

A bit field in memory is read and written as a lens: the instructions see the bits from a position on, which may
lie before the base address, and write back what they read where they do not write the field.
-/

namespace Aranym.Cpu

open Aranym.Lib Aranym.Mmu BitVec Nat

variable {s : CpuState} {m : Memory 32} {a base offset val : BitVec 32} {o width n : Nat} {bf : BitField}

/-- The bits of the field at the position `p`, in the low bits of `v`. -/
def FieldBits (m : Memory 32) (base : BitVec 32) (p : Int) (width : Nat) (v : BitVec 32) : Prop :=
  ∀ j, v.getLsbD j = (decide (j < width) && m.bitAt base (p + (width - 1 - j : Nat)))

/-- The low `width` bits, `width` being 1 to 32. -/
def lowBits (width : Nat) (v : BitVec 32) : BitVec 32 := v &&& (0xffffffff#32 >>> (32 - width))

theorem bitAt_offset (m : Memory 32) (base offset : BitVec 32) (q : Nat) :
    m.bitAt base (offset.toInt + q) = m.bit (base + offset.sshiftRight 3) ((offset &&& 7).toNat + q) := by
  have hlow : (offset &&& 7).toNat = offset.toNat % 8 := by
    rw [toNat_and]; exact and_two_pow_sub_one_eq_mod offset.toNat 3
  have hsplit : offset.toInt = 8 * (offset.sshiftRight 3).toInt + (offset &&& 7).toNat := by
    rw [hlow, toInt_sshiftRight, Int.shiftRight_eq_div_pow, toInt_eq_toNat_cond]
    split <;> omega
  rw [hsplit, add_assoc, ← cast_add, Memory.bitAt_add]

theorem getLsbD_lowBits (hw : width ≤ 32) (j : Nat) :
    (lowBits width val).getLsbD j = (decide (j < width) && val.getLsbD j) := by
  rw [lowBits, getLsbD_and, getLsbD_ushiftRight, show 0xffffffff#32 = BitVec.allOnes 32 from rfl,
    getLsbD_allOnes, Bool.and_comm]
  congr 1
  rw [decide_eq_decide]
  omega

theorem BitField.Of.getLsbD_res (h : bf.Of m a o width n) (hw : width ≤ 32) (j : Nat) :
    (bf.res >>> (32 - width)).getLsbD j = (decide (j < width) && m.bit a (o + (width - 1 - j))) := by
  rw [getLsbD_ushiftRight]
  by_cases hj : j < width
  · rw [decide_eq_true hj, Bool.true_and, ← h.res _ (by omega)]; congr 1; omega
  · rw [decide_eq_false hj, Bool.false_and, getLsbD_of_ge _ _ (by omega)]

theorem lowBits_eq_iff (hw : width ≤ 32) : lowBits width val = val ↔ ∀ j, width ≤ j → val.getLsbD j = false := by
  constructor
  · intro h j hj; rw [← h, getLsbD_lowBits hw, decide_eq_false (by omega), Bool.false_and]
  · intro h
    refine eq_of_getLsbD_eq fun j _ => ?_
    rw [getLsbD_lowBits hw]
    by_cases hj : j < width
    · rw [decide_eq_true hj, Bool.true_and]
    · rw [h j (by omega), Bool.and_false]

theorem getLsbD_ones (hw : width ≤ 32) (j : Nat) :
    ((0xffffffff >>> (32 - width) : Nat) : BitVec 32).getLsbD j = decide (j < width) := by
  rw [show (0xffffffff : Nat) = 2 ^ 32 - 1 from rfl, natCast_eq_ofNat, getLsbD_ofNat,
    testBit_shiftRight, testBit_two_pow_sub_one, ← Bool.decide_and, decide_eq_decide]
  omega

theorem bfNew_lowBits {mnemo tmp reg new} (htmp : ∀ j, width ≤ j → tmp.getLsbD j = false)
    (hw : width ≤ 32) (h : bfNew mnemo tmp reg width = some new) : lowBits width new = new := by
  refine (lowBits_eq_iff hw).mpr fun j hj => ?_
  have hones := getLsbD_ones hw j
  rw [decide_eq_false (by omega)] at hones
  unfold bfNew at h
  split at h <;> cases h
  · rw [getLsbD_xor, htmp j hj, hones, Bool.xor_false]
  · exact getLsbD_zero
  · exact hones
  · rw [getLsbD_and, hones, Bool.and_false]

theorem bit_of_written {m' : Memory 32} (h : ∀ k < 8 * 2 ^ 32, m'.bit a k = written m a o width val k) (ho : o ≤ 7)
    {q : Nat} (hq : width ≤ q) (hq' : q < 8 * 2 ^ 32) : m'.bit a (o + q) = m.bit a (o + q) := by
  rcases Nat.lt_or_ge (o + q) (8 * 2 ^ 32) with hlt | hge
  · rw [h _ hlt, written, if_neg (by omega)]
  · have hwrap : o + q = 8 * 2 ^ 32 + (o + q - 8 * 2 ^ 32) := by omega
    rw [hwrap, Memory.bit_wrap, Memory.bit_wrap, h _ (by omega), written, if_neg (by omega)]

/-- Reading a field gives its bits, writing back what was read changes nothing, and writing a value gives that
value when it is read again and changes no other bit: every bit of the memory is at some position from the
first bit of the field on. -/
theorem bitfield_lens (s : CpuState) (base offset : BitVec 32) (width : Nat) (hw : 1 ≤ width) (hw' : width ≤ 32)
    (hacc : Accessible s (base + offset.sshiftRight 3) (((offset &&& 7).toNat + width + 7) / 8)) :
    let dsta := base + offset.sshiftRight 3
    ∃ bf, getBitfield dsta offset width s = .ok bf s ∧
      FieldBits s.mem base offset.toInt width (bf.res >>> (32 - width)) ∧
      putBitfield dsta bf (bf.res >>> (32 - width)) offset width s = .ok ⟨⟩ s ∧
      (∀ mnemo reg new, bfNew mnemo (bf.res >>> (32 - width)) reg width = some new → lowBits width new = new) ∧
      ∀ v, ∃ t, putBitfield dsta bf (lowBits width v) offset width s = .ok ⟨⟩ t ∧
        (∃ bf', getBitfield dsta offset width t = .ok bf' t ∧ bf'.res >>> (32 - width) = lowBits width v) ∧
        t = { s with mem := t.mem } ∧
        ∀ q : Nat, width ≤ q → q < 8 * 2 ^ 32 →
          t.mem.bitAt base (offset.toInt + q) = s.mem.bitAt base (offset.toInt + q) := by
  intro dsta
  have ho : (offset &&& 7).toNat ≤ 7 := by rw [toNat_and]; exact and_le_right
  obtain ⟨bf, hget, hof⟩ := getBitfield_field rfl hw hw' rfl hacc
  have hres := hof.getLsbD_res hw'
  have hclear : ∀ j, width ≤ j → (bf.res >>> (32 - width)).getLsbD j = false := fun j hj => by
    rw [hres, decide_eq_false (by omega), Bool.false_and]
  refine ⟨bf, hget, fun j => ?_, ?_, fun mnemo reg new => bfNew_lowBits hclear hw', fun v => ?_⟩
  · rw [hres, bitAt_offset]
  · obtain ⟨m', hput, hbits⟩ := putBitfield_written rfl hw hw' rfl hacc hof hclear
    have hsame : m' = s.mem := by
      refine Memory.eq_of_bit_eq dsta fun k hk => ?_
      rw [hbits k hk, written]
      split
      · rw [hres, decide_eq_true (by omega), Bool.true_and]; congr 1; omega
      · rfl
    rw [hput, hsame]
  · have hv : ∀ j, width ≤ j → (lowBits width v).getLsbD j = false := fun j hj => by
      rw [getLsbD_lowBits hw', decide_eq_false (by omega), Bool.false_and]
    obtain ⟨m', hput, hbits⟩ := putBitfield_written rfl hw hw' rfl hacc hof hv
    obtain ⟨bf', hget', hof'⟩ := getBitfield_field (s := { s with mem := m' }) rfl hw hw' rfl
      ⟨hacc.headRead, hacc.headWrite, hacc.lastRead, hacc.lastWrite⟩
    refine ⟨_, hput, ⟨bf', hget', eq_of_getLsbD_eq fun j _ => ?_⟩, rfl, fun q hq hq' => ?_⟩
    · rw [hof'.getLsbD_res hw']
      by_cases hj : j < width
      · rw [decide_eq_true hj, Bool.true_and]
        refine (hbits _ (by omega)).trans ?_
        rw [written, if_pos (by omega)]
        congr 1
        omega
      · rw [decide_eq_false hj, Bool.false_and, hv j (by omega)]
    · rw [bitAt_offset, bitAt_offset]; exact bit_of_written hbits ho hq hq'

/-- A field of 32 bits that starts three bits before the base. -/
theorem bitfield_before_base :
    ∃ bf, getBitfield (0x1000 + (-3#32).sshiftRight 3) (-3) 32 (sampleState false) = .ok bf (sampleState false) ∧
      FieldBits (sampleState false).mem 0x1000 (-3) 32 bf.res := by
  obtain ⟨bf, hget, hbits, -⟩ := bitfield_lens (sampleState false) 0x1000 (-3) 32 (by decide) (by decide)
    ⟨Bool.false_ne_true, Bool.false_ne_true, fun _ => Bool.false_ne_true, fun _ => Bool.false_ne_true⟩
  exact ⟨bf, hget, hbits⟩

end Aranym.Cpu
