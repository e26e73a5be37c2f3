import Aranym.Cpu.Lemmas.Chains
import Aranym.Cpu.Lemmas.Decimal
import Aranym.Cpu.Lemmas.Shifts
import Aranym.Cpu.Table68k

/-!
# Arithmetic on long operands and shifts
-/

namespace Aranym.Cpu

open Aranym.Lib Aranym.Mmu List

/-- Chains of `ADDX`, `SUBX` and `NEGX` are one operation on the whole numbers: elements are pairs of
source and destination, the least significant one first. -/
theorem extended_chains (size : Sz) (f : Flags) (es : List (Elem size × Elem size)) :
    let src := number es.length (es.map Prod.fst)
    let dst := number es.length (es.map Prod.snd)
    LongResult es.length (chain (onElems size (opAddx size)) f.forChain es) (dst + src)
        (dst.uaddOverflow src) (dst.saddOverflow src) ∧
      LongResult es.length (chain (onElems size (opSubx size)) f.forChain es) (dst - src)
        (dst.usubOverflow src) (dst.ssubOverflow src) ∧
      LongResult es.length (chain (onElem size (opNegx size)) f.forChain (es.map Prod.fst)) (-src)
        (src != 0#_) src.negOverflow :=
  ⟨addx_longResult f es rfl, subx_longResult f es rfl, negx_longResult f _ (length_map ..)⟩

/-- Chains of `ABCD` and `SBCD` are one operation on the decimal numbers modulo `100 ^ k`, and `NBCD` is
`SBCD` from zero. -/
theorem decimal_chains (f : Flags) (es : List (PackedByte × PackedByte)) :
    let bytes := es.map fun e => (e.1.val, e.2.val)
    let src := decimals (bytes.map Prod.fst)
    let dst := decimals (bytes.map Prod.snd)
    DecimalResult es.length (chain (onBytes opAbcd) f.forChain bytes) ((dst + src) % 100 ^ es.length)
        (100 ^ es.length ≤ dst + src) ∧
      DecimalResult es.length (chain (onBytes opSbcd) f.forChain bytes) ((dst + 100 ^ es.length - src) % 100 ^ es.length)
        (dst < src) ∧
      chain (onByte opNbcd) f.forChain (bytes.map Prod.fst) =
        chain (onBytes opSbcd) f.forChain (bytes.map fun e => (e.1, 0#8)) := by
  intro bytes src dst
  have hpacked : ∀ e ∈ bytes, Packed e.1 ∧ Packed e.2 := forall_mem_map.mpr fun e _ => ⟨e.1.property, e.2.property⟩
  have hlength : bytes.length = es.length := length_map ..
  have habcd := abcd_decimalResult hpacked f
  have hsbcd := sbcd_decimalResult hpacked f
  rw [hlength] at habcd hsbcd
  refine ⟨habcd, hsbcd, ?_⟩
  rw [nbcd_chain (forall_mem_map.mpr fun e he => (hpacked e he).1), map_map]
  rfl

/-- A shift or rotate of a data register is its one-bit form as often as the count says, on the sized part of
the register; the other bits and the other registers stay. -/
theorem register_shifts (sh : Shift) {i : Instr} (hd : i.dmode = .dreg) (hs : i.CountSource) (s : CpuState) :
    ∃ t, genShift i sh.reg s = .ok ⟨⟩ t ∧ Shifted sh (i.count s) s.flags (part i.size (s.dreg (regNo i.dreg)))
        (t.flags, part i.size (t.dreg (regNo i.dreg))) ∧
      (∀ b, bitSize i.size ≤ b → (t.dreg (regNo i.dreg)).getLsbD b = (s.dreg (regNo i.dreg)).getLsbD b) ∧
      ∀ r, r ≠ dregIdx (regNo i.dreg) → t.regs r = s.regs r := by
  obtain ⟨cnt, t, hcount, hrun, rfl⟩ := genShift_ok hd hs sh s
  have himm : i.sourceIsImm18 = true → 0 < shiftCount cnt ∧ shiftCount cnt ≤ 8 := by
    intro h
    obtain ⟨-, h'⟩ | ⟨-, -, hlow, hhigh⟩ := hs
    · exact absurd (h.symm.trans h') (by decide)
    · rw [hcount, Instr.count, if_pos h]; exact ⟨hlow, hhigh⟩
  have hdst : part i.size (signed i.size (s.dreg (regNo i.dreg))) = part i.size (s.dreg (regNo i.dreg)) := by
    rw [signed_eq, part_signExtend]
  refine ⟨_, hrun, ?_, fun b hb => ?_, fun r hr => CpuState.regs_setReg_of_ne _ hr _⟩
  · have hshifted : Shifted sh (shiftCount cnt) s.flags (part i.size (signed i.size (s.dreg (regNo i.dreg))))
        (sh.regOut i.size i.sourceIsImm18 cnt (signed i.size (s.dreg (regNo i.dreg))) s.flags) :=
      sh.shifted _ _ himm
    rw [hcount, hdst] at hshifted
    convert hshifted using 1
    simp [Shift.regOut, CpuState.dreg, CpuState.setDreg, CpuState.setReg]
  · simp only [CpuState.dreg, CpuState.setDreg, CpuState.regs_setReg_self]
    rcases Nat.lt_or_ge b 32 with hlt | hge
    · rw [getLsbD_mergeLow _ _ hlt, if_neg (by omega)]
    · rw [BitVec.getLsbD_of_ge _ _ hge, BitVec.getLsbD_of_ge _ _ hge]

def sampleShift (data cnt : BitVec 32) : CpuState := { sampleState false with regs := fun r => if r = 0 then data else cnt }

theorem roxl_by_21 : ∃ i, table68k 0xe370 = some i ∧ i.dmode = .dreg ∧ i.CountSource ∧
    i.count (sampleShift 0x8001 21) = 21 ∧ ∃ t, genShift i opRoxl (sampleShift 0x8001 21) = .ok ⟨⟩ t ∧
      Shifted .roxl 21 (sampleState false).flags (part i.size 0x8001) (t.flags, part i.size (t.dreg 0)) := by
  obtain ⟨i, hi, hd, hs, hcount, hreg⟩ : ∃ i, table68k 0xe370 = some i ∧ i.dmode = .dreg ∧ i.CountSource ∧
      i.count (sampleShift 0x8001 21) = 21 ∧ regNo i.dreg = 0 :=
    ⟨_, rfl, rfl, .inl ⟨rfl, rfl⟩, rfl, rfl⟩
  obtain ⟨t, hrun, hshifted, -⟩ := register_shifts .roxl hd hs (sampleShift 0x8001 21)
  rw [hcount, hreg] at hshifted
  exact ⟨i, hi, hd, hs, hcount, t, hrun, hshifted⟩

end Aranym.Cpu
