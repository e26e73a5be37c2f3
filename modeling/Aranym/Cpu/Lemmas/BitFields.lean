import Aranym.Cpu.Lemmas.Move16
import Aranym.Cpu.Lemmas.Sized
import Aranym.Lib.BitStream

/-!
# Bit fields in memory

A bit field lies in up to five bytes, which are read and written in one or two pieces.
-/

namespace Aranym.Cpu

open Aranym.Lib Aranym.Mmu BitVec Nat Bool

variable {s : CpuState} {m : Memory 32} {a : BitVec 32} {o width e n : Nat}

def Piece (m : Memory 32) (a : BitVec 32) (e n : Nat) (tmp : BitVec 32) : Prop :=
  ∀ j, tmp.getLsbD j = (decide (j < n) && m.bit a (e - 1 - j))

def Rest (m : Memory 32) (a : BitVec 32) (o width e n : Nat) (bdata : BitVec 32) : Prop :=
  ∀ j < n, bdata.getLsbD j = (m.bit a (e - 1 - j) && !decide (o ≤ e - 1 - j ∧ e - 1 - j < o + width))

/-! ## Reads -/

theorem getLsbD_memVal {size j} (hj : j < bitSize size) :
    (memVal size m a).getLsbD j = m.bit a (bitSize size - 1 - j) := by
  have hlt : j < 32 := hj.trans_le (bitSize_le size)
  cases size with
  | byte =>
    have hj8 : j < 8 := hj
    rw [memVal, getLsbD_signExtend, if_pos hj8, decide_eq_true hlt, Bool.true_and, m.getLsbD_byte a hj8]
    rfl
  | word =>
    have hj16 : j < 16 := hj
    rw [memVal, getLsbD_signExtend, if_pos hj16, decide_eq_true hlt, Bool.true_and, m.getLsbD_getWord a hj16]
    rfl
  | long => exact m.getLsbD_getLong a hlt

theorem piece_memVal (size : Sz) (d : Nat) :
    Piece m a (8 * d + bitSize size) (bitSize size) (low size (memVal size m (a + BitVec.ofNat 32 d))) := by
  intro j
  rw [low, getLsbD_and, getLsbD_bitMask, Bool.and_comm]
  by_cases hj : j < bitSize size
  · rw [decide_eq_true hj, Bool.true_and, Bool.true_and, getLsbD_memVal hj, Memory.bit_add]; congr 1; omega
  · rw [decide_eq_false hj, Bool.false_and, Bool.false_and]

theorem piece_head (size : Sz) : Piece m a (bitSize size) (bitSize size) (low size (memVal size m a)) := by
  have h := piece_memVal (m := m) (a := a) size 0
  rwa [Nat.mul_zero, Nat.zero_add, BitVec.add_zero] at h

theorem low_long (v : BitVec 32) : low .long v = v := and_allOnes

section

variable {tmp : BitVec 32} {i : Nat}

theorem Piece.shiftLeft (h : Piece m a e n tmp) (he : e ≤ 32) (hn : n ≤ e) (hi : i < 32) :
    (tmp <<< (32 - e + o)).getLsbD (31 - i) = (decide (e - n ≤ o + i ∧ o + i < e) && m.bit a (o + i)) := by
  rw [getLsbD_shiftLeft, h, decide_eq_true (show 31 - i < 32 by omega), Bool.true_and]
  by_cases hin : o + i < e
  · rw [decide_eq_false (by omega), Bool.not_false, Bool.true_and, show e - 1 - (31 - i - (32 - e + o)) = o + i by omega]
    congr 1
    rw [decide_eq_decide]; omega
  · rw [decide_eq_true (by omega), Bool.not_true, Bool.false_and, decide_eq_false (by omega), Bool.false_and]

theorem Piece.shiftRight (h : Piece m a e n tmp) (he : 32 + o ≤ e) (hn : n ≤ e) (hi : i < 32) :
    (tmp >>> (e - 32 - o)).getLsbD (31 - i) = (decide (e - n ≤ o + i) && m.bit a (o + i)) := by
  rw [getLsbD_ushiftRight, h, show e - 1 - (e - 32 - o + (31 - i)) = o + i by omega]
  congr 1
  rw [decide_eq_decide]
  omega

theorem getLsbD_mask (j : Nat) :
    ((0xffffffff <<< (32 - width) : Nat) : BitVec 32).getLsbD j = decide (j < 32 ∧ 32 - width ≤ j) := by
  rw [show (0xffffffff : Nat) = 2 ^ 32 - 1 from rfl, natCast_eq_ofNat, getLsbD_ofNat,
    testBit_shiftLeft, testBit_two_pow_sub_one, ← decide_and, ← decide_and, decide_eq_decide]
  omega

theorem Piece.rest (h : Piece m a e n tmp) (he : e ≤ 32) (hn : n ≤ e) (hw : width ≤ 32) :
    Rest m a o width e n (tmp &&& ~~~(((0xffffffff <<< (32 - width) : Nat) : BitVec 32) >>> (32 - e + o))) := by
  intro j hj
  rw [getLsbD_and, getLsbD_not, getLsbD_ushiftRight, getLsbD_mask, h, decide_eq_true hj,
    decide_eq_true (show j < 32 by omega), Bool.true_and, Bool.true_and]
  congr 2
  rw [decide_eq_decide]
  omega

theorem Piece.rest_right (h : Piece m a e n tmp) (he : 32 + o ≤ e) (hn : n ≤ 32) (hw : width ≤ 32) (hen : e ≤ n + 32) :
    Rest m a o width e n (tmp &&& ~~~(((0xffffffff <<< (32 - width) : Nat) : BitVec 32) <<< (e - 32 - o))) := by
  intro j hj
  rw [getLsbD_and, getLsbD_not, getLsbD_shiftLeft, getLsbD_mask, h, decide_eq_true hj,
    decide_eq_true (show j < 32 by omega), Bool.true_and, Bool.true_and, Bool.true_and, ← decide_not, ← decide_and]
  congr 2
  rw [decide_eq_decide]
  omega

end

/-! ## Fields -/

def headSize : Nat → Sz
  | 0 | 1 => .byte
  | 2 | 3 => .word
  | _ => .long

/-- The bytes of a field of `n` bits can be read and written. -/
structure Accessible (s : CpuState) (a : BitVec 32) (n : Nat) : Prop where
  headRead : ¬ReadFaults s (headSize n) a
  headWrite : ¬WriteFaults s (headSize n) a
  lastRead : n = 3 ∨ n = 5 → ¬ReadFaults s .byte (a + BitVec.ofNat 32 (n - 1))
  lastWrite : n = 3 ∨ n = 5 → ¬WriteFaults s .byte (a + BitVec.ofNat 32 (n - 1))

structure BitField.Of (bf : BitField) (m : Memory 32) (a : BitVec 32) (o width n : Nat) : Prop where
  res : ∀ i < width, bf.res.getLsbD (31 - i) = m.bit a (o + i)
  head : Rest m a o width (bitSize (headSize n)) (bitSize (headSize n)) bf.bdata0
  last : n = 3 ∨ n = 5 → Rest m a o width (8 * n) 8 bf.bdata1

variable {offset tmp : BitVec 32}

theorem or_decide_and {p q : Prop} [Decidable p] [Decidable q] {b} (h : p ∨ q) :
    (decide p && b || decide q && b) = b := by
  rw [← Bool.and_or_distrib_right, ← decide_or, decide_eq_true h, Bool.true_and]

theorem Piece.of (h : Piece m a e e tmp) (he : bitSize (headSize n) = e) (hn : n ≠ 3 ∧ n ≠ 5) (hw : width ≤ 32)
    (hfit : o + width ≤ e) :
    BitField.Of ⟨tmp <<< (32 - e + o), tmp &&& ~~~(((0xffffffff <<< (32 - width) : Nat) : BitVec 32) >>> (32 - e + o)), 0⟩
      m a o width n := by
  subst he
  refine ⟨fun i hi => ?_, h.rest (bitSize_le _) le_rfl hw, by omega⟩
  refine (h.shiftLeft (bitSize_le _) le_rfl (by omega)).trans ?_
  rw [decide_eq_true (by omega), Bool.true_and]

theorem getBitfield_field (ho : (offset &&& 7).toNat = o) (hw : 1 ≤ width) (hw' : width ≤ 32)
    (hn : (o + width + 7) / 8 = n) (hacc : Accessible s a n) :
    ∃ bf, getBitfield a offset width s = .ok bf s ∧ BitField.Of bf s.mem a o width n := by
  have ho7 : o ≤ 7 := by rw [← ho, toNat_and]; exact and_le_right
  have hcases : n = 1 ∨ n = 2 ∨ n = 3 ∨ n = 4 ∨ n = 5 := by omega
  rcases hcases with rfl | rfl | rfl | rfl | rfl
  · have hread : getMem .log .byte a s = _ := getMem_granted hacc.headRead
    simp only [getBitfield, ho, hn]
    rw [bind_ok hread]
    exact ⟨_, rfl, (piece_head .byte).of rfl (by decide) hw' (by dsimp only [bitSize]; omega)⟩
  · have hread : getMem .log .word a s = _ := getMem_granted hacc.headRead
    simp only [getBitfield, ho, hn]
    rw [bind_ok hread]
    exact ⟨_, rfl, (piece_head .word).of rfl (by decide) hw' (by dsimp only [bitSize]; omega)⟩
  · have hp := piece_head (m := s.mem) (a := a) .word
    have hp' := piece_memVal (m := s.mem) (a := a) .byte 2
    have hread : getMem .log .word a s = _ := getMem_granted hacc.headRead
    have hread' : getMem .log .byte (a + 2) s = _ := getMem_granted (hacc.lastRead (by decide))
    simp only [getBitfield, ho, hn]
    rw [bind_ok hread, bind_ok hread']
    refine ⟨_, rfl, fun i hi => ?_, hp.rest (by decide) le_rfl hw', fun _ => hp'.rest (by decide) (by decide) hw'⟩
    refine (getLsbD_or ..).trans ?_
    refine (congrArg₂ or (hp.shiftLeft (by decide) le_rfl (by omega))
      (hp'.shiftLeft (by decide) (by decide) (by omega))).trans ?_
    exact or_decide_and (by dsimp only [bitSize]; omega)
  · have hread : getMem .log .long a s = _ := getMem_granted hacc.headRead
    have hof := (piece_head (m := s.mem) (a := a) .long).of (n := 4) (o := o) rfl (by decide) hw'
      (by dsimp only [bitSize]; omega)
    rw [low_long, show 32 - bitSize .long + o = o from Nat.zero_add o] at hof
    simp only [getBitfield, ho, hn]
    rw [bind_ok hread]; exact ⟨_, rfl, hof⟩
  · have hp := piece_head (m := s.mem) (a := a) .long
    have hp' := piece_memVal (m := s.mem) (a := a) .byte 4
    have hread : getMem .log .long a s = _ := getMem_granted hacc.headRead
    have hread' : getMem .log .byte (a + 4) s = _ := getMem_granted (hacc.lastRead (by decide))
    have hzero : 32 - bitSize .long + o = o := Nat.zero_add o
    have hrest := hp.rest (o := o) (by decide) le_rfl hw'
    rw [hzero, low_long] at hrest
    simp only [getBitfield, ho, hn]
    rw [bind_ok hread, bind_ok hread']
    refine ⟨_, rfl, fun i hi => ?_, hrest, fun _ => ?_⟩
    · have hhead := hp.shiftLeft (o := o) (i := i) (by decide) le_rfl (by omega)
      have hlast := hp'.shiftRight (o := o) (i := i) (by dsimp only [bitSize]; omega) (by decide) (by omega)
      rw [hzero, low_long] at hhead
      refine (getLsbD_or ..).trans ((congrArg₂ or hhead hlast).trans ?_)
      exact or_decide_and (by dsimp only [bitSize]; omega)
    · exact hp'.rest_right (by dsimp only [bitSize]; omega) (by decide) hw' (by decide)

/-! ## Writes -/

theorem if_congr_left {p : Prop} [Decidable p] {x y z : Bool} (h : p → x = y) :
    (if p then x else z) = if p then y else z := ite_congr rfl h fun _ => rfl

theorem putMem_bits {size : Sz} {d : Nat} (hd : d ≤ 4) (h : ¬WriteFaults s size (a + BitVec.ofNat 32 d)) (v : BitVec 32) :
    ∃ m', putMem .log size (a + BitVec.ofNat 32 d) v s = .ok ⟨⟩ { s with mem := m' } ∧
      ∀ k < 8 * 2 ^ 32, m'.bit a k
        = if 8 * d ≤ k ∧ k < 8 * d + bitSize size then v.getLsbD (8 * d + bitSize size - 1 - k) else s.mem.bit a k := by
  rw [putMem, bind_ok (get_apply s)]
  cases size with
  | byte =>
    refine ⟨_, congrFun (if_neg h) s, fun k hk => ?_⟩
    refine (s.mem.bit_putByte a _ (by omega) hk).trans (if_congr_left fun hin => ?_)
    rw [getLsbD_setWidth, decide_eq_true (by omega), Bool.true_and]; rfl
  | word =>
    refine ⟨_, congrFun (if_neg h) s, fun k hk => ?_⟩
    refine (s.mem.bit_putWord a _ (by omega) hk).trans (if_congr_left fun hin => ?_)
    rw [getLsbD_setWidth, decide_eq_true (by omega), Bool.true_and]; rfl
  | long => exact ⟨_, congrFun (if_neg h) s, fun k hk => s.mem.bit_putLong a _ (by omega) hk⟩

def written (m : Memory 32) (a : BitVec 32) (o width : Nat) (val : BitVec 32) (k : Nat) : Bool :=
  if o ≤ k ∧ k < o + width then val.getLsbD (o + width - 1 - k) else m.bit a k

section

variable {bdata val : BitVec 32} {k : Nat}

theorem Rest.shiftLeft (h : Rest m a o width e n bdata) (hval : ∀ j, width ≤ j → val.getLsbD j = false) (hn : n ≤ 32)
    (hf : o + width ≤ e) (hk : e ≤ k + n) (hke : k < e) :
    (bdata ||| val <<< (e - (o + width))).getLsbD (e - 1 - k) = written m a o width val k := by
  rw [getLsbD_or, h _ (by omega), getLsbD_shiftLeft, show e - 1 - (e - 1 - k) = k by omega, written,
    decide_eq_true (show e - 1 - k < 32 by omega), Bool.true_and]
  by_cases hin : o ≤ k ∧ k < o + width
  · rw [if_pos hin, decide_eq_true hin, Bool.not_true, Bool.and_false, Bool.false_or, decide_eq_false (by omega)]
    exact congrArg val.getLsbD (by omega)
  · have hbit : (!decide (e - 1 - k < e - (o + width)) && val.getLsbD (e - 1 - k - (e - (o + width)))) = false := by
      by_cases hko : k < o
      · rw [hval _ (by omega), Bool.and_false]
      · rw [decide_eq_true (by omega), Bool.not_true, Bool.false_and]
    rw [if_neg hin, decide_eq_false hin, Bool.not_false, Bool.and_true, hbit, Bool.or_false]

theorem Rest.shiftRight (h : Rest m a o width e n bdata) (hval : ∀ j, width ≤ j → val.getLsbD j = false)
    (hf : e ≤ o + width) (hk : e ≤ k + n) (hke : k < e) :
    (bdata ||| val >>> (o + width - e)).getLsbD (e - 1 - k) = written m a o width val k := by
  rw [getLsbD_or, h _ (by omega), getLsbD_ushiftRight, show e - 1 - (e - 1 - k) = k by omega, written,
    show o + width - e + (e - 1 - k) = o + width - 1 - k by omega]
  by_cases hin : o ≤ k ∧ k < o + width
  · rw [if_pos hin, decide_eq_true hin, Bool.not_true, Bool.and_false, Bool.false_or]
  · rw [if_neg hin, decide_eq_false hin, Bool.not_false, Bool.and_true, hval _ (by omega), Bool.or_false]

end

variable {bf : BitField} {val : BitVec 32}

theorem putMem_written (hval : ∀ j, width ≤ j → val.getLsbD j = false) (hof : bf.Of s.mem a o width n)
    (hfit : o + width ≤ bitSize (headSize n)) (h : ¬WriteFaults s (headSize n) a) :
    ∃ m', putMem .log (headSize n) a (bf.bdata0 ||| val <<< (bitSize (headSize n) - (o + width))) s
        = .ok ⟨⟩ { s with mem := m' } ∧ ∀ k < 8 * 2 ^ 32, m'.bit a k = written s.mem a o width val k := by
  have hput := putMem_bits (d := 0) (by decide) (by rwa [BitVec.add_zero])
    (bf.bdata0 ||| val <<< (bitSize (headSize n) - (o + width)))
  rw [BitVec.add_zero] at hput
  obtain ⟨m', hrun, hbits⟩ := hput
  refine ⟨m', hrun, fun k hk => ?_⟩
  rw [hbits k hk, Nat.mul_zero, Nat.zero_add]
  by_cases hlt : k < bitSize (headSize n)
  · rw [if_pos ⟨Nat.zero_le k, hlt⟩, hof.head.shiftLeft hval (bitSize_le _) hfit (by omega) hlt]
  · rw [if_neg (by omega), written, if_neg (by omega)]

theorem putMem_putMem_written (hval : ∀ j, width ≤ j → val.getLsbD j = false) (hof : bf.Of s.mem a o width n)
    (hn : n = 3 ∨ n = 5) (hacc : Accessible s a n) (hlo : 8 * (n - 1) ≤ o + width) (hhi : o + width ≤ 8 * n) :
    ∃ m', (putMem .log (headSize n) a (bf.bdata0 ||| val >>> (o + width - 8 * (n - 1))) >>= fun _ =>
        putMem .log .byte (a + BitVec.ofNat 32 (n - 1)) (bf.bdata1 ||| val <<< (8 * n - (o + width)))) s
        = .ok ⟨⟩ { s with mem := m' } ∧ ∀ k < 8 * 2 ^ 32, m'.bit a k = written s.mem a o width val k := by
  have he : bitSize (headSize n) = 8 * (n - 1) := by rcases hn with rfl | rfl <;> rfl
  have hlast : 8 * (n - 1) + bitSize .byte = 8 * n := by dsimp only [bitSize]; omega
  have hput := putMem_bits (d := 0) (by decide) (by rw [BitVec.add_zero]; exact hacc.headWrite)
    (bf.bdata0 ||| val >>> (o + width - 8 * (n - 1)))
  rw [BitVec.add_zero] at hput
  obtain ⟨m₁, hrun, hbits⟩ := hput
  obtain ⟨m₂, hrun', hbits'⟩ := putMem_bits (s := { s with mem := m₁ }) (d := n - 1) (by omega) (hacc.lastWrite hn)
    (bf.bdata1 ||| val <<< (8 * n - (o + width)))
  refine ⟨m₂, (bind_ok hrun).trans hrun', fun k hk => ?_⟩
  rw [hbits' k hk, hlast]
  by_cases hin : 8 * (n - 1) ≤ k ∧ k < 8 * n
  · rw [if_pos hin, (hof.last hn).shiftLeft hval (by decide) hhi (by omega) hin.2]
  have hhead := hof.head
  rw [he] at hhead
  rw [if_neg hin, hbits k hk, he, Nat.mul_zero, Nat.zero_add]
  by_cases hlt : k < 8 * (n - 1)
  · rw [if_pos ⟨Nat.zero_le k, hlt⟩, hhead.shiftRight hval hlo (by omega) hlt]
  · rw [if_neg (by omega), written, if_neg (by omega)]

theorem putBitfield_written (ho : (offset &&& 7).toNat = o) (hw : 1 ≤ width) (hw' : width ≤ 32)
    (hn : (o + width + 7) / 8 = n) (hacc : Accessible s a n) (hof : bf.Of s.mem a o width n)
    (hval : ∀ j, width ≤ j → val.getLsbD j = false) :
    ∃ m', putBitfield a bf val offset width s = .ok ⟨⟩ { s with mem := m' } ∧
      ∀ k < 8 * 2 ^ 32, m'.bit a k = written s.mem a o width val k := by
  have ho7 : o ≤ 7 := by rw [← ho, toNat_and]; exact and_le_right
  have hcases : n = 1 ∨ n = 2 ∨ n = 3 ∨ n = 4 ∨ n = 5 := by omega
  rcases hcases with rfl | rfl | rfl | rfl | rfl
  · simp only [putBitfield, ho, hn]
    exact putMem_written hval hof (show o + width ≤ 8 by omega) hacc.headWrite
  · simp only [putBitfield, ho, hn]
    exact putMem_written hval hof (show o + width ≤ 16 by omega) hacc.headWrite
  · simp only [putBitfield, ho, hn]
    exact putMem_putMem_written hval hof (.inl rfl) hacc (by omega) (by omega)
  · simp only [putBitfield, ho, hn]
    exact putMem_written hval hof (show o + width ≤ 32 by omega) hacc.headWrite
  · simp only [putBitfield, ho, hn]
    exact putMem_putMem_written hval hof (.inr rfl) hacc (by omega) (by omega)

end Aranym.Cpu
