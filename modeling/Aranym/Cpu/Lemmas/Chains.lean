import Aranym.Cpu.Chains

/-!
# Chains of binary instructions

One element: the digit equation of `ADDX` and `SUBX`, and their condition codes. Then chains of them.
-/

namespace Aranym.Cpu

open Aranym.Lib Aranym.Mmu BitVec List

variable {size : Sz}

variable (f : Flags) (es : List (Elem size × Elem size)) (e : Elem size × Elem size)

/-! ## One element -/

def extendedFlags (carry overflow : Bool) (r : Elem size) (z : Bool) : Flags :=
  ⟨carry, r.msb, z && r == 0#_, overflow, carry⟩

def addxResult : Elem size := e.2 + e.1 + (BitVec.ofBool f.x).setWidth _

def subxResult : Elem size := e.2 - e.1 - (BitVec.ofBool f.x).setWidth _

theorem addx_elems : onElems size (opAddx size) f e =
      (extendedFlags (e.1.msb ^^ ((e.1.msb ^^ e.2.msb) && (e.2.msb ^^ (addxResult f e).msb)))
        ((e.1.msb ^^ (addxResult f e).msb) && (e.2.msb ^^ (addxResult f e).msb)) (addxResult f e) f.z,
      addxResult f e) := by
  simp [onElems, opAddx, flagZn, flagAddx, isNeg_eq, isZero_eq, extendedFlags, addxResult, part_xBit]

theorem subx_elems : onElems size (opSubx size) f e =
      (extendedFlags (e.1.msb ^^ ((e.1.msb ^^ (subxResult f e).msb) && (e.2.msb ^^ (subxResult f e).msb)))
        ((e.1.msb ^^ e.2.msb) && (e.2.msb ^^ (subxResult f e).msb)) (subxResult f e) f.z,
      subxResult f e) := by
  simp [onElems, opSubx, flagZn, flagSubx, isNeg_eq, isZero_eq, extendedFlags, subxResult, part_xBit]

theorem addx_digit : e.2.toNat + e.1.toNat + f.x.toNat = (onElems size (opAddx size) f e).2.toNat +
      2 ^ bitSize size * (onElems size (opAddx size) f e).1.x.toNat := by
  rw [addx_elems]
  exact toNat_adc (bitSize_pos size) rfl

theorem subx_digit : (onElems size (opSubx size) f e).2.toNat + e.1.toNat + f.x.toNat = e.2.toNat +
      2 ^ bitSize size * (onElems size (opSubx size) f e).1.x.toNat := by
  rw [subx_elems]
  exact toNat_sbb (bitSize_pos size) rfl

/-! ## Chains -/

/-- A step that sets the condition codes as `ADDX` and `SUBX` do, with `V` by the signs of the source, the
destination and the result. -/
structure Extended (step : Flags → Elem size × Elem size → Flags × Elem size) (overflow : Bool → Bool → Bool → Bool) :
    Prop where
  z : ∀ f e, (step f e).1.z = (f.z && (step f e).2 == 0#_)
  c : ∀ f e, (step f e).1.c = (step f e).1.x
  v : ∀ f e, (step f e).1.v = overflow e.1.msb e.2.msb (step f e).2.msb
  n : ∀ f e, (step f e).1.n = (step f e).2.msb

variable {step : Flags → Elem size × Elem size → Flags × Elem size} {overflow : Bool → Bool → Bool → Bool}

theorem Extended.longResult (h : Extended step overflow) (f : Flags) (es : List (Elem size × Elem size))
    {result carry} (hvalue : number es.length (chain step f.forChain es).2 = result)
    (hx : (chain step f.forChain es).1.x = carry) :
    LongResult es.length (chain step f.forChain es) result carry
      (overflow (number es.length (es.map Prod.fst)).msb (number es.length (es.map Prod.snd)).msb result.msb) := by
  have hz : (chain step f.forChain es).1.z = (result == 0#_) := by
    rw [chain_sticky Flags.z (· == 0#_) (fun f e _ => h.z f e), ← hvalue, Bool.eq_iff_iff, beq_iff_eq,
      number_eq_zero_iff (length_chain ..)]
    simp [Flags.forChain]
  rcases eq_nil_or_concat' es with rfl | ⟨low, top, rfl⟩
  · exact ⟨rfl, hvalue, hx, hz, by simp, by simp, by simp⟩
  -- the signs of long numbers are those of their last elements
  have hsrc : (number (low ++ [top]).length ((low ++ [top]).map Prod.fst)).msb = top.1.msb := by
    rw [map_append]; exact msb_number_concat (bitSize_pos size) top.1 (by simp)
  have hdst : (number (low ++ [top]).length ((low ++ [top]).map Prod.snd)).msb = top.2.msb := by
    rw [map_append]; exact msb_number_concat (bitSize_pos size) top.2 (by simp)
  have hresult : result.msb = (step (chain step f.forChain low).1 top).2.msb := by
    rw [← hvalue, chain_concat]; exact msb_number_concat (bitSize_pos size) _ (by simp)
  rw [hsrc, hdst]
  refine ⟨length_chain .., hvalue, hx, hz, fun _ => ?_, fun _ => ?_, fun _ => ?_⟩
  · rw [← hx, chain_concat, h.c]
  · rw [hresult, chain_concat, h.v]
  · rw [hresult, chain_concat, h.n]

/-! ## `ADDX` and `SUBX` -/

theorem addx_extended : Extended (onElems size (opAddx size)) fun s d r => (s ^^ r) && (d ^^ r) where
  z f e := by rw [addx_elems, extendedFlags]
  c f e := by rw [addx_elems, extendedFlags]
  v f e := by rw [addx_elems, extendedFlags]
  n f e := by rw [addx_elems, extendedFlags]

theorem subx_extended : Extended (onElems size (opSubx size)) fun s d r => (s ^^ d) && (d ^^ r) where
  z f e := by rw [subx_elems, extendedFlags]
  c f e := by rw [subx_elems, extendedFlags]
  v f e := by rw [subx_elems, extendedFlags]
  n f e := by rw [subx_elems, extendedFlags]

theorem addx_longResult {k} (hk : es.length = k) :
    LongResult k (chain (onElems size (opAddx size)) f.forChain es)
      (number k (es.map Prod.snd) + number k (es.map Prod.fst))
      ((number k (es.map Prod.snd)).uaddOverflow (number k (es.map Prod.fst)))
      ((number k (es.map Prod.snd)).saddOverflow (number k (es.map Prod.fst))) := by
  subst hk
  obtain ⟨hvalue, hcarry⟩ := chain_number_add Flags.x Prod.snd Prod.fst es addx_digit (s := f.forChain) rfl
  convert addx_extended.longResult f es hvalue hcarry using 1
  rw [saddOverflow_eq]
  cases (number es.length (es.map Prod.snd)).msb <;> cases (number es.length (es.map Prod.fst)).msb <;> simp

theorem subx_longResult {k} (hk : es.length = k) :
    LongResult k (chain (onElems size (opSubx size)) f.forChain es)
      (number k (es.map Prod.snd) - number k (es.map Prod.fst))
      ((number k (es.map Prod.snd)).usubOverflow (number k (es.map Prod.fst)))
      ((number k (es.map Prod.snd)).ssubOverflow (number k (es.map Prod.fst))) := by
  subst hk
  obtain ⟨hvalue, hcarry⟩ := chain_number_sub Flags.x Prod.snd Prod.fst es subx_digit (s := f.forChain) rfl
  convert subx_extended.longResult f es hvalue hcarry using 1
  rw [ssubOverflow_eq]
  cases (number es.length (es.map Prod.snd)).msb <;> cases (number es.length (es.map Prod.fst)).msb <;> simp

/-! ## `NEGX` -/

theorem negx_elem (e : Elem size) : onElem size (opNegx size) f e = onElems size (opSubx size) f (e, 0#_) := by
  have hzero : (0#(bitSize size)).signExtend 32 = 0 := by cases size <;> rfl
  rw [onElem, onElems, opNegx, hzero]

theorem number_zeros (k : Nat) (es : List (Elem size)) : number k (es.map fun _ => 0#(bitSize size)) = 0#_ := by
  have hzero : Nat.ofDigits (2 ^ bitSize size) ((es.map fun _ => 0#(bitSize size)).map BitVec.toNat) = 0 :=
    (ofDigits_eq_zero_iff (Nat.two_pow_pos _)).mpr (by simp)
  rw [number, hzero]

theorem zero_ssubOverflow {w} (x : BitVec w) : (0#w).ssubOverflow x = x.negOverflow := by
  have hle := le_toInt x
  have hlt := toInt_lt (x := x)
  rw [BitVec.ssubOverflow, BitVec.negOverflow, toInt_zero, Bool.eq_iff_iff, Bool.or_eq_true, beq_iff_eq,
    decide_eq_true_iff, decide_eq_true_iff]
  omega

theorem negx_longResult (es : List (Elem size)) {k} (hk : es.length = k) :
    LongResult k (chain (onElem size (opNegx size)) f.forChain es) (-number k es) (number k es != 0#_)
      (number k es).negOverflow := by
  have hsub := subx_longResult f (es.map fun e => (e, 0#(bitSize size))) ((length_map ..).trans hk)
  rw [← chain_map fun f e _ => negx_elem f e] at hsub
  simp only [map_map, Function.comp_def, map_id', number_zeros, BitVec.zero_sub] at hsub
  have hborrow : (0#_).usubOverflow (number k es) = (number k es != 0#_) := by
    rw [BitVec.usubOverflow, Bool.eq_iff_iff, bne_iff_ne, decide_eq_true_iff, toNat_zero, ← toNat_ne_iff_ne]
    exact Nat.pos_iff_ne_zero
  rwa [hborrow, zero_ssubOverflow] at hsub

end Aranym.Cpu
