import Aranym.Mmu.Lemmas.Fill
import Aranym.Mmu.Lemmas.Flush

/-!
# Translation depends on the page only

Addresses with the same upper 20 bits select the same ATC lines, match the same transparent
translation registers and take the same path through the tables, so a translation is one per page.
-/

namespace Aranym.Mmu

open Aranym.Lib BitVec Nat

def SamePage4k (a b : BitVec 32) : Prop := a >>> 12 = b >>> 12

instance (a b : BitVec 32) : Decidable (SamePage4k a b) := inferInstanceAs (Decidable (_ = _))

theorem SamePage4k.refl (a : BitVec 32) : SamePage4k a a := rfl

theorem SamePage4k.symm {a b} (h : SamePage4k a b) : SamePage4k b a := Eq.symm h

theorem SamePage4k.trans {a b c} (h : SamePage4k a b) (h' : SamePage4k b c) : SamePage4k a c := Eq.trans h h'

theorem samePage4k_iff (a b : BitVec 32) : SamePage4k a b ↔ a.toNat / 2 ^ 12 = b.toNat / 2 ^ 12 := by
  rw [SamePage4k, ← toNat_inj]
  simp only [toNat_ushiftRight, shiftRight_eq_div_pow]

theorem SamePage4k.of_le {addr i j} (h : SamePage4k addr (addr + j)) (hij : i ≤ j) (hj : j ≤ 3) :
    SamePage4k addr (addr + i) := by
  rw [samePage4k_iff, toNat_add] at *
  have hi : i.toNat ≤ j.toNat := hij
  have hj' : j.toNat ≤ 3 := hj
  omega

variable {a b : BitVec 32}

theorem SamePage4k.samePage (h : SamePage4k a b) : SamePage false b a := (samePage4k_iff a b).mp h

theorem SamePage4k.atcTag_eq (h : SamePage4k a b) : atcTag a = atcTag b := atcTag_eq_of_samePage h.samePage

theorem SamePage4k.indices_eq (h : SamePage4k a b) :
    atcL1Index a = atcL1Index b ∧ atcL2Index a = atcL2Index b :=
  (indices_of_samePage h.samePage).resolve_right fun h' => by cases h'.1

theorem samePage4k_of_l1 (ht : atcTag a = atcTag b) (hi : atcL1Index a = atcL1Index b) : SamePage4k a b := by
  have ht' := congrArg BitVec.toNat ht
  have hi' := congrArg Fin.val hi
  rw [atcTag_toNat, atcTag_toNat] at ht'
  rw [atcL1Index_val, atcL1Index_val] at hi'
  rw [samePage4k_iff]
  omega

theorem samePage4k_of_l2 (ht : atcTag a = atcTag b) (hi : atcL2Index a = atcL2Index b) : SamePage4k a b := by
  have ht' := congrArg BitVec.toNat ht
  have hi' := congrArg Fin.val hi
  rw [atcTag_toNat, atcTag_toNat] at ht'
  rw [atcL2Index_val, atcL2Index_val] at hi'
  -- the upper part of the page number is in the tag, so it cancels out of the hashed index
  have hhigh : a.toNat / 2 ^ 12 / 256 = b.toNat / 2 ^ 12 / 256 := by omega
  rw [hhigh, xor_mod_two_pow, xor_mod_two_pow] at hi'
  have hlow := xor_left_injective hi'
  rw [samePage4k_iff]
  omega

/-! ## Masked address parts -/

theorem SamePage4k.getLsbD_eq (h : SamePage4k a b) {i} (hi : 12 ≤ i) : a.getLsbD i = b.getLsbD i := by
  have hbit := congrArg (fun x => BitVec.getLsbD x (i - 12)) h
  simp only [getLsbD_ushiftRight] at hbit
  rwa [show 12 + (i - 12) = i by omega] at hbit

theorem SamePage4k.shift_and_eq (h : SamePage4k a b) (k : Nat) (mask : BitVec 32)
    (hmask : ∀ j < 12 - k, mask.getLsbD j = false) : (a >>> k) &&& mask = (b >>> k) &&& mask := by
  apply eq_of_getLsbD_eq
  intro i _
  simp only [getLsbD_and, getLsbD_ushiftRight]
  by_cases hi : i < 12 - k
  · rw [hmask i hi, Bool.and_false, Bool.and_false]
  · rw [h.getLsbD_eq (by omega)]

theorem SamePage4k.and_eq (h : SamePage4k a b) (mask : BitVec 32)
    (hmask : ∀ j < 12, mask.getLsbD j = false) : a &&& mask = b &&& mask := by
  have := h.shift_and_eq 0 mask hmask
  simpa using this

/-! ## Translation -/

theorem SamePage4k.mmuDoMatchTtr_eq (h : SamePage4k a b) (ttr : BitVec 32) (super : Bool) :
    mmuDoMatchTtr ttr a super = mmuDoMatchTtr ttr b super := by
  have hbase : (a ^^^ ttr) &&& mmuTtrLogicalBase = (b ^^^ ttr) &&& mmuTtrLogicalBase := by
    have hmask : ∀ j < 12, mmuTtrLogicalBase.getLsbD j = false := by decide
    apply eq_of_getLsbD_eq
    intro i _
    simp only [getLsbD_and, getLsbD_xor]
    by_cases hi : i < 12
    · rw [hmask i hi, Bool.and_false, Bool.and_false]
    · rw [h.getLsbD_eq (by omega)]
  simp only [mmuDoMatchTtr, hbase]

theorem SamePage4k.mmuMatchTtr_eq (h : SamePage4k a b) (r : MmuRegs) (super data : Bool) :
    mmuMatchTtr r a super data = mmuMatchTtr r b super data := by simp only [mmuMatchTtr, h.mmuDoMatchTtr_eq]

variable {δ : Type} (cfg : Config) (hw : Hardware δ)

theorem SamePage4k.mmuLookupPagetable_eq (h : SamePage4k a b) (super write : Bool) :
    mmuLookupPagetable cfg hw a super write = mmuLookupPagetable cfg hw b super write := by
  simp only [mmuLookupPagetable, h.shift_and_eq 23 0x1fc (by decide), h.shift_and_eq 16 0x1fc (by decide),
    h.shift_and_eq 11 0x7c (by decide), h.shift_and_eq 10 0xfc (by decide)]

theorem SamePage4k.filledLine_eq (h : SamePage4k a b) (m : Machine δ) (super data write : Bool)
    (l : AtcLine) : m.filledLine cfg hw a super data write l = m.filledLine cfg hw b super data write l := by
  have hmask8 := h.and_eq (~~~0x1fff) (by decide)
  have hmask4 := h.and_eq (~~~0xfff) (by decide)
  simp only [Machine.filledLine, Machine.tableSearch, h.atcTag_eq, h.mmuMatchTtr_eq,
    h.mmuLookupPagetable_eq cfg hw, AtcLine.ofDesc]
  cases m.regs.mmuPagesize8k
  · simp only [Bool.false_eq_true, if_false, hmask4]
  · simp only [if_true, hmask8]

theorem SamePage4k.refusedFresh_eq (h : SamePage4k a b) (m : Machine δ) (super data write : Bool) :
    m.refusedFresh cfg hw a super data write = m.refusedFresh cfg hw b super data write := by
  simp only [Machine.refusedFresh, Machine.tableSearch, h.mmuMatchTtr_eq, h.mmuLookupPagetable_eq cfg hw]

theorem SamePage4k.decides_eq (h : SamePage4k a b) (l : AtcLine) (data write : Bool) :
    l.decides a data write = l.decides b data write := by simp only [AtcLine.decides, h.atcTag_eq]

theorem SamePage4k.refused_eq (h : SamePage4k a b) (m : Machine δ) (super data write : Bool) :
    m.refused cfg hw a super data write = m.refused cfg hw b super data write := by
  simp only [Machine.refused, h.decides_eq, h.indices_eq.2, h.refusedFresh_eq cfg hw]

theorem SamePage4k.lookupLine_eq (h : SamePage4k a b) (m : Machine δ) (super data write : Bool) :
    m.lookupLine cfg hw a super data write = m.lookupLine cfg hw b super data write := by
  simp only [Machine.lookupLine, h.decides_eq, h.indices_eq.2, h.filledLine_eq cfg hw]

end Aranym.Mmu
