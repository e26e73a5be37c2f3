import Aranym.Cpu.Lemmas.Division
import Aranym.Cpu.Lemmas.Shifts

/-!
# Divisions

`DIVU`, `DIVS` and `DIVL` give the quotient and the remainder, or report an overflow.
-/

namespace Aranym.Cpu

open Aranym.Lib Aranym.Mmu BitVec Option

variable {h d : Nat} {i : Instr} {s u : CpuState}

/-- A division of `a` by `b` in the type of `h` bits, from the state `u` in which the operands are read to
the state `t`; `stored` says where the quotient and the remainder of `d` bits go. -/
structure DivExact (signed : Bool) (a b : BitVec h) (stored : BitVec d → BitVec d → Prop) (u t : CpuState) :
    Prop where
  fits : Representable signed d (quotient signed a b) → ∃ q r, stored q r ∧
    Division (reading signed a) (reading signed b) (reading signed q) (reading signed r)
  overflow : ¬ Representable signed d (quotient signed a b) →
    t.flags.v = true ∧ t.flags.c = false ∧ t.regs = u.regs

/-- The data register holds a word quotient and a word remainder. -/
def storedWords (i : Instr) (t : CpuState) (q r : BitVec 16) : Prop := t.dreg (regNo i.dreg) = r ++ q

/-- The registers that the extension word names hold quotient and remainder. -/
def storedLongs (extra : BitVec 32) (t : CpuState) (q r : BitVec 32) : Prop :=
  t.dreg (numField extra 12) = q ∧ (numField extra 0 ≠ numField extra 12 → t.dreg (numField extra 0) = r)

/-! ## Runs -/

def divided (i : Instr) (u : CpuState) : Option (BitVec 32) → CpuState
  | none => { u with flags := flagDivOverflow u.flags }
  | some newv => { u with flags := flagLogical .word newv u.flags }.setDreg (regNo i.dreg) newv

def dividedLong (extra : BitVec 32) (u : CpuState) : Option (BitVec 32 × BitVec 32) → CpuState
  | none => { u with flags := flagDivOverflow u.flags }
  | some (quot, rem) =>
    ({ u with flags := flagLogical .long quot u.flags }.setDreg (numField extra 0) rem).setDreg (numField extra 12) quot

theorem mergeLow_long (old new : BitVec 32) : mergeLow .long old new = new := by
  refine eq_of_getLsbD_eq fun b hb => ?_
  rw [getLsbD_mergeLow _ _ hb, bitSize, if_pos hb]

theorem genastore_dreg {v} (hd : i.dmode = .dreg) :
    genastore v i.dmode i.dreg .long 0 s = .ok ⟨⟩ (s.setDreg (regNo i.dreg) v) := by
  rw [genastore, hd]
  change EStateM.Result.ok _ (s.setDreg _ (mergeLow .long _ v)) = _
  rw [mergeLow_long]

theorem genDiv_run {sgn result src dst} (hd : i.dmode = .dreg) (hop : divOperands i s = .ok (src, dst) u)
    (hsrc : src ≠ 0) : genDiv i sgn result s =
      if sgn ∧ NoQuotient dst (signed .word src) then .error .noQuotient u
      else .ok ⟨⟩ (divided i u (result src dst)) := by
  rw [genDiv, bind_ok (get_apply s), bind_ok hop]
  dsimp only
  rw [if_neg hsrc]
  split
  · rfl
  · cases result src dst with
    | none => rfl
    | some newv => exact genastore_dreg hd

theorem genDivl_run {extra src} (hop : longOperands i s = .ok (extra, src) u) (hsrc : src ≠ 0) :
    let dq := u.dreg (numField extra 12)
    let dr := u.dreg (numField extra 0)
    genDivl i s =
      if extra.getLsbD 11 ∧ NoQuotient (divlDividend (extra.setWidth 16) dq dr) (src.signExtend 64) then
        .error .noQuotient u
      else .ok ⟨⟩ (dividedLong extra u (divlResult (extra.setWidth 16) src dq dr)) := by
  intro dq dr
  rw [genDivl, bind_ok (get_apply s), bind_ok hop]
  dsimp only
  rw [bind_ok (get_apply u), if_neg hsrc]
  split
  · rfl
  · cases divlResult (extra.setWidth 16) src (u.dreg (numField extra 12)) (u.dreg (numField extra 0)) with
    | none => rfl
    | some qr => rfl

/-! ## Results -/

theorem dreg_setDreg_self (v : BitVec 32) (r : Fin 8) : (s.setDreg r v).dreg r = v :=
  CpuState.regs_setReg_self ..

theorem dreg_setDreg_of_ne (v : BitVec 32) {r r'} (hne : r' ≠ r) : (s.setDreg r v).dreg r' = s.dreg r' :=
  CpuState.regs_setReg_of_ne _ (fun heq => hne (Fin.ext (by simpa [dregIdx] using heq))) _

theorem divExact_words {signed} {a b : BitVec 32} {result : Option (BitVec 32)}
    (hset : Settles (d := 16) signed a b (result.map fun v => (v.extractLsb' 0 16, v.extractLsb' 16 16))) :
    DivExact signed a b (storedWords i (divided i u result)) u (divided i u result) := by
  refine ⟨fun hfit => ?_, fun hfit => ?_⟩
  · obtain ⟨newv, rfl⟩ : ∃ newv, result = some newv := by
      have := hset.isSome.mpr hfit
      rw [isSome_map] at this; exact isSome_iff_exists.mp this
    refine ⟨_, _, ?_, hset.division _ _ rfl⟩
    rw [storedWords, divided, dreg_setDreg_self, BitVec.extractLsb'_append_extractLsb'_eq_extractLsb' (by rfl)]
    exact BitVec.extractLsb'_eq_self.symm
  · have hnone : result = none := by
      have := mt hset.isSome.mp hfit; rwa [isSome_map, not_isSome_iff_eq_none] at this
    rw [hnone]; exact ⟨rfl, rfl, rfl⟩

theorem divExact_longs {signed} {a b : BitVec 64} {extra : BitVec 32} {result : Option (BitVec 32 × BitVec 32)}
    (hset : Settles signed a b result) :
    DivExact signed a b (storedLongs extra (dividedLong extra u result)) u (dividedLong extra u result) := by
  refine ⟨fun hfit => ?_, fun hfit => ?_⟩
  · obtain ⟨⟨quot, rem⟩, rfl⟩ := isSome_iff_exists.mp (hset.isSome.mpr hfit)
    refine ⟨quot, rem, ⟨dreg_setDreg_self .., fun hne => ?_⟩, hset.division _ _ rfl⟩
    rw [dividedLong, dreg_setDreg_of_ne _ hne, dreg_setDreg_self]
  · rw [not_isSome_iff_eq_none.mp (mt hset.isSome.mp hfit)]; exact ⟨rfl, rfl, rfl⟩

/-- A run that ends with the state `t` unless `p`. -/
theorem exists_ok_iff {p : Prop} [Decidable p] {e : Trap} {P : CpuState → Prop} (hP : P t) :
    (∃ t', (if p then .error e u else .ok ⟨⟩ t : EStateM.Result Trap CpuState Unit) = .ok ⟨⟩ t' ∧ P t') ↔ ¬ p := by
  split
  · next hp => exact iff_of_false (fun ⟨_, h, _⟩ => by cases h) (not_not.mpr hp)
  · next hp => exact iff_of_true ⟨t, rfl, hP⟩ hp

/-- Every division of non-zero divisors is exact, except the one pair of operands of the signed divisions
whose quotient the host cannot represent. -/
theorem divisions_exact_iff (i : Instr) (s u : CpuState) :
    (∀ src dst, i.dmode = .dreg → divOperands i s = .ok (src, dst) u → low .word src ≠ 0 →
      ∃ t, genDiv i false divuResult s = .ok ⟨⟩ t ∧ DivExact false dst (low .word src) (storedWords i t) u t) ∧
    (∀ src dst, i.dmode = .dreg → divOperands i s = .ok (src, dst) u → signed .word src ≠ 0 →
      ((∃ t, genDiv i true divsResult s = .ok ⟨⟩ t ∧ DivExact true dst (signed .word src) (storedWords i t) u t)
          ↔ ¬ (dst = 0x80000000 ∧ signed .word src = 0xffffffff))) ∧
    ∀ extra src, longOperands i s = .ok (extra, src) u → src ≠ 0 →
      let dividend := divlDividend (extra.setWidth 16) (u.dreg (numField extra 12)) (u.dreg (numField extra 0))
      ((∃ t, genDivl i s = .ok ⟨⟩ t ∧
        DivExact (extra.getLsbD 11) dividend (divlDivisor (extra.setWidth 16) src) (storedLongs extra t) u t)
          ↔ ¬ (extra.getLsbD 11 = true ∧ dividend = 0x8000000000000000 ∧ src = 0xffffffff)) := by
  refine ⟨fun src dst hd hop hsrc => ?_, fun src dst hd hop hsrc => ?_, fun extra src hop hsrc => ?_⟩
  · have hne : src ≠ 0 := fun h0 => hsrc (by rw [h0]; rfl)
    rw [genDiv_run hd hop hne]
    refine (exists_ok_iff ?_).mpr fun h => Bool.false_ne_true h.1
    exact divExact_words (divu_settles hsrc)
  · have hne : src ≠ 0 := fun h0 => hsrc (by rw [h0]; rfl)
    rw [genDiv_run hd hop hne]
    refine (exists_ok_iff ?_).trans (not_congr (and_iff_right rfl))
    exact divExact_words (divs_settles hsrc)
  · have hbit : (extra.setWidth 16).getLsbD 11 = extra.getLsbD 11 := by simp
    have hminus : src.signExtend 64 = -1 ↔ src = 0xffffffff := by
      refine ⟨fun h => toInt_inj.mp ?_, fun h => by rw [h]; rfl⟩
      rw [← toInt_signExtend_of_le (v := 64) (by decide), h]; rfl
    rw [genDivl_run hop hsrc, ← hbit]
    refine (exists_ok_iff ?_).trans (not_congr (and_congr_right fun _ => and_congr_right fun _ => hminus))
    exact divExact_longs (divl_settles hsrc)

def sampleDivision (d0 d1 d2 : BitVec 32) : CpuState :=
  { sampleState false with
    regs := fun r => if r = 0 then d0 else if r = 1 then d1 else d2
    mem := fun a => if a = 0xe00002 then 0x0c else if a = 0xe00003 then 0x02 else 0 }

/-- `DIVU.W D1,D0`, `DIVS.W D1,D0` and `DIVS.L D1,D2:D0` of -7 by 2. -/
theorem minus_seven_by_two : (∃ i u t, table68k 0x80c1 = some i ∧
      genDiv i false divuResult (entered (sampleDivision (-7) 2 (-1))) = .ok ⟨⟩ t ∧
      DivExact false (-7#32) 2 (storedWords i t) u t) ∧
    (∃ i u t, table68k 0x81c1 = some i ∧ genDiv i true divsResult (entered (sampleDivision (-7) 2 (-1))) = .ok ⟨⟩ t ∧
      DivExact true (-7#32) 2 (storedWords i t) u t) ∧
    ∃ i u t, table68k 0x4c41 = some i ∧ genDivl i (entered (sampleDivision (-7) 2 (-1))) = .ok ⟨⟩ t ∧
      DivExact true (-7#64) 2 (storedLongs 0xc02 t) u t := by
  refine ⟨?_, ?_, ?_⟩
  · obtain ⟨i, hi, hd, u, hop⟩ : ∃ i, table68k 0x80c1 = some i ∧ i.dmode = .dreg ∧
        ∃ u, divOperands i (entered (sampleDivision (-7) 2 (-1))) = .ok (2, -7) u := ⟨_, rfl, rfl, _, rfl⟩
    obtain ⟨t, hrun, hexact⟩ := (divisions_exact_iff i _ u).1 2 (-7) hd hop (by decide)
    exact ⟨i, u, t, hi, hrun, hexact⟩
  · obtain ⟨i, hi, hd, u, hop⟩ : ∃ i, table68k 0x81c1 = some i ∧ i.dmode = .dreg ∧
        ∃ u, divOperands i (entered (sampleDivision (-7) 2 (-1))) = .ok (2, -7) u := ⟨_, rfl, rfl, _, rfl⟩
    obtain ⟨t, hrun, hexact⟩ := ((divisions_exact_iff i _ u).2.1 2 (-7) hd hop (by decide)).mpr (by decide)
    exact ⟨i, u, t, hi, hrun, hexact⟩
  · obtain ⟨i, hi, u, hop, hq, hr⟩ : ∃ i, table68k 0x4c41 = some i ∧
        ∃ u, longOperands i (entered (sampleDivision (-7) 2 (-1))) = .ok (0xc02, 2) u ∧
          u.dreg (numField 0xc02 12) = -7 ∧ u.dreg (numField 0xc02 0) = -1 := ⟨_, rfl, _, rfl, rfl, rfl⟩
    have h := (divisions_exact_iff i _ u).2.2 0xc02 2 hop (by decide)
    rw [hq, hr] at h
    obtain ⟨t, hrun, hexact⟩ := h.mpr (by decide)
    exact ⟨i, u, t, hi, hrun, hexact⟩

/-- `DIVS.W D1,D0` of the smallest number by -1, and `DIVS.L D1,D2:D0` of the smallest number of 64 bits: the
host divides before the overflow is tested. -/
theorem smallest_by_minus_one : (∃ i u, table68k 0x81c1 = some i ∧
      divOperands i (entered (sampleDivision 0x80000000 0xffff 0)) = .ok (0xffffffff, 0x80000000) u ∧
      ¬ Representable true 32 (quotient true 0x80000000#32 0xffffffff#32) ∧
      genDiv i true divsResult (entered (sampleDivision 0x80000000 0xffff 0)) = .error .noQuotient u) ∧
    ∃ i u, table68k 0x4c41 = some i ∧
      longOperands i (entered (sampleDivision 0 0xffffffff 0x80000000)) = .ok (0xc02, 0xffffffff) u ∧
      ¬ Representable true 64 (quotient true 0x8000000000000000#64 0xffffffffffffffff#64) ∧
      genDivl i (entered (sampleDivision 0 0xffffffff 0x80000000)) = .error .noQuotient u := by
  have hword : ¬ Representable true 32 (quotient true 0x80000000#32 0xffffffff#32) := fun h =>
    (representable_quotient_iff (w := 31)).mp h ⟨rfl, rfl, rfl⟩
  have hlong : ¬ Representable true 64 (quotient true 0x8000000000000000#64 0xffffffffffffffff#64) := fun h =>
    (representable_quotient_iff (w := 63)).mp h ⟨rfl, rfl, rfl⟩
  exact ⟨⟨_, _, rfl, rfl, hword, rfl⟩, _, _, rfl, rfl, hlong, rfl⟩

end Aranym.Cpu
