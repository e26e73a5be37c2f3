import Aranym.Cpu.Chains

/-!
# Chains of decimal instructions

The code adds and subtracts the two digits of a byte apart, and what it makes of them depends on the two
sums only.
-/

namespace Aranym.Cpu

open Aranym.Lib Aranym.Mmu BitVec List

/-! ## Digits -/

theorem and_low_digit : ∀ e : BitVec 8, e.signExtend 32 &&& 0xF = BitVec.ofNat 32 (e.toNat % 16) := by decide +kernel

theorem and_high_digit : ∀ e : BitVec 8, e.signExtend 32 &&& 0xF0 = BitVec.ofNat 32 (16 * (e.toNat / 16)) := by
  decide +kernel

theorem and_byte : ∀ e : BitVec 8, e.signExtend 32 &&& 0xFF = BitVec.ofNat 32 e.toNat := by decide +kernel

theorem ofNat_digits (e : BitVec 8) :
    BitVec.ofNat 32 e.toNat = BitVec.ofNat 32 (16 * (e.toNat / 16)) + BitVec.ofNat 32 (e.toNat % 16) := by
  rw [← ofNat_add, Nat.div_add_mod]

theorem xBit_eq (f : Flags) : xBit f = BitVec.ofNat 32 f.x.toNat := by cases h : f.x <;> simp [xBit, h]

/-! ## One byte -/

def abcdSums (lo hi : BitVec 32) : BitVec 16 × Bool :=
  let newvLo := lo.setWidth 16
  let newv := hi.setWidth 16 + newvLo
  let newv := if BitVec.ult 9 newvLo then newv + 6 else newv
  let cflg := BitVec.ult 0x90 (newv &&& 0x3F0)
  (if cflg then newv + 0x60 else newv, cflg)

def sbcdSums (lo hi : BitVec 32) : BitVec 16 × Bool :=
  let newvLo := lo.setWidth 16
  let newv := hi.setWidth 16 + newvLo
  let borrows := newvLo &&& 0xF0 != 0
  let newv := if borrows then newv - 6 else newv
  let bcd : BitVec 32 := if borrows then 6 else 0
  (if BitVec.ult 0xFF ((hi + lo) &&& 0x100) then newv - 0x60 else newv, BitVec.ult 0xFF ((hi + lo - bcd) &&& 0x300))

def nbcdSums (lo hi : BitVec 32) : BitVec 16 × Bool :=
  let newvLo := lo.setWidth 16
  let newvHi := hi.setWidth 16
  let newvLo := if BitVec.ult 9 newvLo then newvLo - 6 else newvLo
  let newv := newvHi + newvLo
  let cflg := BitVec.ult 0x90 (newv &&& 0x1F0)
  (if cflg then newv - 0x60 else newv, cflg)

def AddsTo (r : BitVec 16) (carry : Bool) (total : Nat) : Prop :=
  Packed (r.setWidth 8) ∧ total = decimal (r.setWidth 8) + 100 * carry.toNat

instance (r : BitVec 16) (carry : Bool) (total : Nat) : Decidable (AddsTo r carry total) :=
  inferInstanceAs (Decidable (_ ∧ _))

theorem abcdSums_addsTo : ∀ (l : Fin 20) (h : Fin 19),
    AddsTo (abcdSums (BitVec.ofNat 32 l) (BitVec.ofNat 32 (16 * h))).1
      (abcdSums (BitVec.ofNat 32 l) (BitVec.ofNat 32 (16 * h))).2 (10 * h + l) := by decide

/-- The differences of the digits are counted from -10 and from -9, and a carry is then a borrow that did
not happen. -/
theorem sbcdSums_addsTo : ∀ (l : Fin 20) (h : Fin 19),
    AddsTo (sbcdSums (BitVec.ofNat 32 l - 10#32) (BitVec.ofNat 32 (16 * h) - 144#32)).1
      (!(sbcdSums (BitVec.ofNat 32 l - 10#32) (BitVec.ofNat 32 (16 * h) - 144#32)).2) (10 * h + l) := by decide +kernel

theorem nbcdSums_eq : ∀ (l : Fin 11) (h : Fin 10),
    (nbcdSums (-BitVec.ofNat 32 l) (-BitVec.ofNat 32 (16 * h))).1.setWidth 8 =
        (sbcdSums (-BitVec.ofNat 32 l) (-BitVec.ofNat 32 (16 * h))).1.setWidth 8 ∧
      (nbcdSums (-BitVec.ofNat 32 l) (-BitVec.ofNat 32 (16 * h))).2 =
        (sbcdSums (-BitVec.ofNat 32 l) (-BitVec.ofNat 32 (16 * h))).2 := by decide

def bcdOut (f : Flags) (r : BitVec 16 × Bool) : Flags × BitVec 8 :=
  ({ f with x := r.2, z := f.z && r.1.setWidth 8 == 0#8, c := r.2 }, r.1.setWidth 8)

theorem flagBcd_out (f : Flags) (r : BitVec 16 × Bool) :
    ((flagBcd r.1 r.2 f).1, part .byte (flagBcd r.1 r.2 f).2) = bcdOut f r := by
  have hpart : part .byte (r.1.setWidth 32) = r.1.setWidth 8 := setWidth_setWidth_of_le _ (by decide)
  rw [flagBcd, flagZ, isZero_eq, bcdOut, hpart]
  rfl

section

variable (f : Flags) (src dst : BitVec 8)

theorem opAbcd_eq : opAbcd (src.signExtend 32) (dst.signExtend 32) f =
    flagBcd (abcdSums (BitVec.ofNat 32 (dst.toNat % 16 + src.toNat % 16 + f.x.toNat))
        (BitVec.ofNat 32 (16 * (dst.toNat / 16 + src.toNat / 16)))).1
      (abcdSums (BitVec.ofNat 32 (dst.toNat % 16 + src.toNat % 16 + f.x.toNat))
        (BitVec.ofNat 32 (16 * (dst.toNat / 16 + src.toNat / 16)))).2 f := by
  simp only [opAbcd, abcdSums, and_low_digit, and_high_digit, xBit_eq, ← ofNat_add, Nat.mul_add, Nat.add_comm]

theorem opSbcd_eq : opSbcd (src.signExtend 32) (dst.signExtend 32) f =
    flagBcd (sbcdSums (BitVec.ofNat 32 (dst.toNat % 16) - BitVec.ofNat 32 (src.toNat % 16) - BitVec.ofNat 32 f.x.toNat)
        (BitVec.ofNat 32 (16 * (dst.toNat / 16)) - BitVec.ofNat 32 (16 * (src.toNat / 16)))).1
      (sbcdSums (BitVec.ofNat 32 (dst.toNat % 16) - BitVec.ofNat 32 (src.toNat % 16) - BitVec.ofNat 32 f.x.toNat)
        (BitVec.ofNat 32 (16 * (dst.toNat / 16)) - BitVec.ofNat 32 (16 * (src.toNat / 16)))).2 f := by
  have hdiff (bcd : BitVec 32) : BitVec.ofNat 32 dst.toNat - BitVec.ofNat 32 src.toNat - bcd - BitVec.ofNat 32 f.x.toNat =
      BitVec.ofNat 32 (16 * (dst.toNat / 16)) - BitVec.ofNat 32 (16 * (src.toNat / 16)) +
        (BitVec.ofNat 32 (dst.toNat % 16) - BitVec.ofNat 32 (src.toNat % 16) - BitVec.ofNat 32 f.x.toNat) - bcd := by
    rw [ofNat_digits dst, ofNat_digits src]
    grind
  have hdiff₀ := hdiff 0#32
  rw [BitVec.sub_zero, BitVec.sub_zero] at hdiff₀
  simp only [opSbcd, sbcdSums, and_low_digit, and_high_digit, and_byte, xBit_eq, hdiff, hdiff₀]

theorem opNbcd_eq : opNbcd (src.signExtend 32) f =
    flagBcd (nbcdSums (-BitVec.ofNat 32 (src.toNat % 16 + f.x.toNat)) (-BitVec.ofNat 32 (16 * (src.toNat / 16)))).1
      (nbcdSums (-BitVec.ofNat 32 (src.toNat % 16 + f.x.toNat)) (-BitVec.ofNat 32 (16 * (src.toNat / 16)))).2 f := by
  have hlo : -BitVec.ofNat 32 (src.toNat % 16) - BitVec.ofNat 32 f.x.toNat =
      -BitVec.ofNat 32 (src.toNat % 16 + f.x.toNat) := by
    rw [ofNat_add]
    grind
  simp only [opNbcd, nbcdSums, and_low_digit, and_high_digit, xBit_eq, hlo]

end

structure DecimalStep (f : Flags) (out : Flags × BitVec 8) : Prop where
  packed : Packed out.2
  z : out.1.z = (f.z && out.2 == 0#8)
  c : out.1.c = out.1.x

section

variable (f : Flags) {e : BitVec 8 × BitVec 8}

theorem elems_bcdOut {op r}
    (h : op (e.1.signExtend 32) (e.2.signExtend 32) f = flagBcd r.1 r.2 f) : onBytes op f e = bcdOut f r := by
  rw [← flagBcd_out, ← h]
  rfl

theorem abcd_step (h₁ : Packed e.1) (h₂ : Packed e.2) : DecimalStep f (onBytes opAbcd f e) ∧
    decimal e.2 + decimal e.1 + f.x.toNat =
      decimal (onBytes opAbcd f e).2 + 100 * (onBytes opAbcd f e).1.x.toNat := by
  have hx := f.x.toNat_le
  unfold Packed at h₁ h₂
  have hl : e.2.toNat % 16 + e.1.toNat % 16 + f.x.toNat < 20 := by omega
  have hh : e.2.toNat / 16 + e.1.toNat / 16 < 19 := by omega
  obtain ⟨hpacked, htotal⟩ := abcdSums_addsTo ⟨_, hl⟩ ⟨_, hh⟩
  rw [elems_bcdOut f (opAbcd_eq f e.1 e.2)]
  refine ⟨⟨hpacked, rfl, rfl⟩, Eq.trans ?_ htotal⟩
  simp only [decimal]
  omega

theorem ofNat_difference (a : Nat) {b c} (h : c ≤ b) :
    BitVec.ofNat 32 a - BitVec.ofNat 32 c = BitVec.ofNat 32 (a + b - c) - BitVec.ofNat 32 b := by
  have hsum : BitVec.ofNat 32 (a + b - c) + BitVec.ofNat 32 c = BitVec.ofNat 32 a + BitVec.ofNat 32 b := by
    rw [← ofNat_add, ← ofNat_add, Nat.sub_add_cancel (by omega)]
  grind

theorem sbcd_step (h₁ : Packed e.1) (h₂ : Packed e.2) : DecimalStep f (onBytes opSbcd f e) ∧
    decimal (onBytes opSbcd f e).2 + decimal e.1 + f.x.toNat =
      decimal e.2 + 100 * (onBytes opSbcd f e).1.x.toNat := by
  have hx := f.x.toNat_le
  unfold Packed at h₁ h₂
  have hlo : BitVec.ofNat 32 (e.2.toNat % 16) - BitVec.ofNat 32 (e.1.toNat % 16) - BitVec.ofNat 32 f.x.toNat =
      BitVec.ofNat 32 (e.2.toNat % 16 + 10 - (e.1.toNat % 16 + f.x.toNat)) - 10#32 := by
    rw [BitVec.sub_sub, ← ofNat_add, ofNat_difference _ (b := 10) (by omega)]
  have hhi : BitVec.ofNat 32 (16 * (e.2.toNat / 16)) - BitVec.ofNat 32 (16 * (e.1.toNat / 16)) =
      BitVec.ofNat 32 (16 * (e.2.toNat / 16 + 9 - e.1.toNat / 16)) - 144#32 := by
    rw [ofNat_difference _ (b := 144) (by omega), Nat.mul_sub, Nat.mul_add]
  have hl : e.2.toNat % 16 + 10 - (e.1.toNat % 16 + f.x.toNat) < 20 := by omega
  have hh : e.2.toNat / 16 + 9 - e.1.toNat / 16 < 19 := by omega
  obtain ⟨hpacked, htotal⟩ := sbcdSums_addsTo ⟨_, hl⟩ ⟨_, hh⟩
  rw [elems_bcdOut f (opSbcd_eq f e.1 e.2), hlo, hhi]
  refine ⟨⟨hpacked, rfl, rfl⟩, ?_⟩
  generalize sbcdSums _ _ = r at htotal ⊢
  have hborrow : (!r.2).toNat + r.2.toNat = 1 := by cases r.2 <;> rfl
  simp only [bcdOut, decimal] at htotal ⊢
  omega

theorem nbcd_step {e} (h : Packed e) : onByte opNbcd f e = onBytes opSbcd f (e, 0#8) := by
  have hx := f.x.toNat_le
  unfold Packed at h
  have hl : e.toNat % 16 + f.x.toNat < 11 := by omega
  have hh : e.toNat / 16 < 10 := by omega
  obtain ⟨hbyte, hcarry⟩ := nbcdSums_eq ⟨_, hl⟩ ⟨_, hh⟩
  have hneg : onByte opNbcd f e =
      bcdOut f (nbcdSums (-BitVec.ofNat 32 (e.toNat % 16 + f.x.toNat)) (-BitVec.ofNat 32 (16 * (e.toNat / 16)))) := by
    rw [← flagBcd_out, ← opNbcd_eq]; rfl
  have hsub : onBytes opSbcd f (e, 0#8) =
      bcdOut f (sbcdSums (-BitVec.ofNat 32 (e.toNat % 16 + f.x.toNat)) (-BitVec.ofNat 32 (16 * (e.toNat / 16)))) := by
    refine elems_bcdOut f (e := (e, 0#8)) ?_
    rw [opSbcd_eq, BitVec.sub_sub, ← ofNat_add]; simp
  refine hneg.trans (.trans ?_ hsub.symm)
  rw [bcdOut, bcdOut, hbyte, hcarry]

end

/-! ## Chains -/

theorem decimal_lt {e} (h : Packed e) : decimal e < 100 := by
  unfold Packed at h
  unfold decimal
  omega

theorem decimal_eq_zero_iff {e} : decimal e = 0 ↔ e = 0#8 := by
  rw [← toNat_inj, toNat_zero, decimal]
  omega

theorem decimals_lt {es} (h : ∀ e ∈ es, Packed e) : decimals es < 100 ^ es.length := by
  have hlt := Nat.ofDigits_lt_base_pow_length (b := 100) (l := es.map decimal) (by decide)
    (forall_mem_map.mpr fun e he => decimal_lt (h e he))
  rwa [length_map] at hlt

theorem decimals_eq_zero_iff {es} : decimals es = 0 ↔ ∀ e ∈ es, e = 0#8 := by
  rw [decimals, ofDigits_eq_zero_iff (by decide), forall_mem_map]
  simp only [decimal_eq_zero_iff]

section

variable {step : Flags → BitVec 8 × BitVec 8 → Flags × BitVec 8} {es : List (BitVec 8 × BitVec 8)}

theorem decimalResult_of_steps (h : ∀ f, ∀ e ∈ es, DecimalStep f (step f e)) (f : Flags) {result carry}
    (hvalue : decimals (chain step f.forChain es).2 = result) (hx : (chain step f.forChain es).1.x = carry) :
    DecimalResult es.length (chain step f.forChain es) result carry where
  length := length_chain ..
  packed := chain_all (fun f e he => (h f e he).packed) _
  value := hvalue
  x := hx
  z := by
    rw [chain_sticky Flags.z (· == 0#8) (fun f e he => (h f e he).z), ← hvalue, Bool.eq_iff_iff, beq_iff_eq,
      decimals_eq_zero_iff]
    simp [Flags.forChain]
  c := by
    intro hk
    rcases eq_nil_or_concat' es with rfl | ⟨low, top, rfl⟩
    · exact absurd hk (by simp)
    · rw [← hx, chain_concat, (h _ top (by simp)).c]

theorem abcd_decimalResult (h : ∀ e ∈ es, Packed e.1 ∧ Packed e.2) (f : Flags) :
    DecimalResult es.length (chain (onBytes opAbcd) f.forChain es)
      ((decimals (es.map Prod.snd) + decimals (es.map Prod.fst)) % 100 ^ es.length)
      (100 ^ es.length ≤ decimals (es.map Prod.snd) + decimals (es.map Prod.fst)) := by
  have hstep (f : Flags) (e) (he : e ∈ es) := abcd_step f (h e he).1 (h e he).2
  have hsum := chain_longSum decimal Flags.x Prod.snd Prod.fst (fun f e he => (hstep f e he).2) f.forChain
  have hlt := decimals_lt (chain_all (fun f e he => (hstep f e he).1.packed) f.forChain)
  rw [decimals, ← length_map decimal] at hlt
  obtain ⟨hvalue, hcarry⟩ := hsum.sum hlt
  rw [length_map, length_chain] at hvalue hcarry
  exact decimalResult_of_steps (fun f e he => (hstep f e he).1) f hvalue hcarry

theorem sbcd_decimalResult (h : ∀ e ∈ es, Packed e.1 ∧ Packed e.2) (f : Flags) :
    DecimalResult es.length (chain (onBytes opSbcd) f.forChain es)
      ((decimals (es.map Prod.snd) + 100 ^ es.length - decimals (es.map Prod.fst)) % 100 ^ es.length)
      (decimals (es.map Prod.snd) < decimals (es.map Prod.fst)) := by
  have hstep (f : Flags) (e) (he : e ∈ es) := sbcd_step f (h e he).1 (h e he).2
  have hsum := chain_longDifference decimal Flags.x Prod.snd Prod.fst (fun f e he => (hstep f e he).2) f.forChain
  have hlt := decimals_lt (chain_all (fun f e he => (hstep f e he).1.packed) f.forChain)
  rw [decimals, length_chain] at hlt
  obtain ⟨hvalue, hcarry⟩ := hsum.difference (by rwa [length_map, length_map])
  rw [length_map, length_map] at hvalue
  exact decimalResult_of_steps (fun f e he => (hstep f e he).1) f hvalue hcarry

theorem nbcd_chain {es} (h : ∀ e ∈ es, Packed e) (f : Flags) :
    chain (onByte opNbcd) f es = chain (onBytes opSbcd) f (es.map fun e => (e, 0#8)) := by
  refine chain_map (fun f e he => ?_) f
  exact nbcd_step f (h e he)

end

end Aranym.Cpu
