import Aranym.Dsp.Lemmas.Alu
import Aranym.Dsp.Parmove
import Mathlib.Tactic.IntervalCases

/-!
# Reading an accumulator with limiting

A move takes 24 bits of an accumulator, the number scaled by the mode, or the nearest word if that does not fit in 48
bits.
-/

namespace Aranym.Dsp

open BitVec

variable {r : Registers} {numreg : RegNum} {d : Acc}

def Registers.scaling (r : Registers) : BitVec 32 := r regSr >>> srS0 &&& bitmask 2

/-- The number as the scaling mode reads it: the mode 1 halves it, the mode 2 doubles it. -/
def scaled (scaling : BitVec 32) (v : Int) : Int := if scaling = 1 then v / 2 else if scaling = 2 then 2 * v else v

def Fits48 (v : Int) : Prop := -2 ^ 47 ≤ v ∧ v < 2 ^ 47

instance (v : Int) : Decidable (Fits48 v) := inferInstanceAs (Decidable (_ ∧ _))

def limited (v : Int) : BitVec 32 :=
  if Fits48 v then (BitVec.ofInt 24 (v / 2 ^ 24)).setWidth 32 else if v < 0 then 0x800000 else 0x7fffff

/-- The read of an accumulator gives the scaled value, limited to 24 bits. -/
def ReadsScaled (numreg : RegNum) (r : Registers) : Prop :=
  let v := scaled r.scaling (r.readAcc (numreg &&& 1)).val.toInt
  (pmReadAccu24 numreg r).1 = limited v ∧
    ((pmReadAccu24 numreg r).2 regSr).getLsbD srL = ((r regSr).getLsbD srL || decide (¬ Fits48 v))

/-- The scaling makes no difference: there is none, or the number is limited, or its bits from the word on are all
the same. -/
def ScalingUnseen (scaling : BitVec 32) (v : Int) : Prop :=
  scaling = 0 ∨ ¬ Fits48 (scaled scaling v) ∨ (scaling = 1 ∧ -2 ^ 24 ≤ v ∧ v < 2 ^ 24) ∨
    (scaling = 2 ∧ -2 ^ 23 ≤ v ∧ v < 2 ^ 23)

/-! ## The bits that are tested -/

theorem toNat_and_255 {x : BitVec 32} (hx : x.toNat < 2 ^ 8) : x &&& 0xff = x := by
  apply eq_of_toNat_eq
  rw [show (0xff : BitVec 32) = bitmask 8 by decide, toNat_and_bitmask x (by decide), Nat.mod_eq_of_lt hx]

theorem toNat_guard (hd : d.InRange) {j : Nat} (hj : j ≤ 2) :
    ((d.w0 &&& 0xff) <<< j ||| (d.w1 >>> (24 - j) &&& bitmask j)).toNat = d.toNat / 2 ^ (48 - j) := by
  have ⟨h0, h1, h2⟩ := hd
  have hlow : (d.w1 >>> (24 - j) &&& bitmask j).toNat = d.w1.toNat / 2 ^ (24 - j) % 2 ^ j := by
    rw [toNat_and_bitmask _ (by omega), toNat_ushiftRight, Nat.shiftRight_eq_div_pow]
  rw [toNat_and_255 h0, toNat_shiftLeft_or (by omega) (by rw [hlow]; exact Nat.mod_lt _ (Nat.two_pow_pos j)), hlow,
    Acc.toNat]
  interval_cases j <;> omega

theorem guard_iff (hd : d.InRange) {j : Nat} (hj : j ≤ 2) {value : BitVec 32}
    (hvalue : value.toNat = d.toNat / 2 ^ (48 - j)) :
    value = 0 ∨ value = bitmask (8 + j) ↔ -2 ^ (48 - j) ≤ d.val.toInt ∧ d.val.toInt < 2 ^ (48 - j) := by
  have hlt := hd.toNat_lt
  have hz : value = 0 ↔ d.toNat / 2 ^ (48 - j) = 0 := by
    rw [← hvalue]; exact ⟨fun h => by rw [h]; rfl, fun h => eq_of_toNat_eq h⟩
  have hones : value = bitmask (8 + j) ↔ d.toNat / 2 ^ (48 - j) = 2 ^ (8 + j) - 1 := by
    rw [← hvalue, ← toNat_bitmask (by omega)]
    exact ⟨fun h => by rw [h], fun h => eq_of_toNat_eq h⟩
  rw [hz, hones, hd.toInt_val]
  interval_cases j <;> split <;> omega

/-! ## Reading -/

theorem scaling_cases (r : Registers) : r.scaling = 0 ∨ r.scaling = 1 ∨ r.scaling = 2 ∨ r.scaling = 3 := by
  have hlt := toNat_and_bitmask_lt (r regSr >>> srS0) (show 2 < 32 by decide)
  rw [← Registers.scaling] at hlt
  have hcases : r.scaling.toNat = 0 ∨ r.scaling.toNat = 1 ∨ r.scaling.toNat = 2 ∨ r.scaling.toNat = 3 := by omega
  rcases hcases with h | h | h | h
  · exact .inl (eq_of_toNat_eq h)
  · exact .inr (.inl (eq_of_toNat_eq h))
  · exact .inr (.inr (.inl (eq_of_toNat_eq h)))
  · exact .inr (.inr (.inr (eq_of_toNat_eq h)))

theorem limit_eq (hd : d.InRange) {value mask : BitVec 32} {p : Prop} [Decidable p]
    (h : value = 0 ∨ value = mask ↔ p) :
    (if value = 0 ∨ value = mask then (d.w1, false) else if d.w0.getLsbD 7 then (0x00800000, true)
        else (0x007fffff, true) : BitVec 32 × Bool)
      = if p then (d.w1, false) else (if d.val.toInt < 0 then 0x800000 else 0x7fffff, true) := by
  have hsign := hd.nonneg_iff
  by_cases hp : p
  · rw [if_pos (h.mpr hp), if_pos hp]
  · rw [if_neg (h.not.mpr hp), if_neg hp]
    cases hbit : d.w0.getLsbD 7 with
    | false => rw [hbit] at hsign; rw [if_neg (by decide), if_neg (not_lt.mpr (hsign.mpr rfl))]
    | true =>
      rw [hbit] at hsign
      rw [if_pos rfl, if_pos (not_le.mp fun hle => absurd (hsign.mp hle) (by decide))]

theorem accu24_eq (hd : (r.readAcc (numreg &&& 1)).InRange) (hs : r.scaling ≠ 3) :
    accu24 numreg r = if Fits48 (scaled r.scaling (r.readAcc (numreg &&& 1)).val.toInt)
      then ((r.readAcc (numreg &&& 1)).w1, false)
      else (if (r.readAcc (numreg &&& 1)).val.toInt < 0 then 0x800000 else 0x7fffff, true) := by
  have hne : ∀ {m n : BitVec 32}, r.scaling = m → m ≠ n → r.scaling ≠ n := fun h hmn => h ▸ hmn
  rcases scaling_cases r with h | h | h | h
  · have hguard := guard_iff hd (j := 1) (by decide) (toNat_guard hd (by decide))
    refine Eq.trans (if_pos h) (limit_eq hd (hguard.trans ?_))
    rw [h, scaled, if_neg (by decide), if_neg (by decide)]; rfl
  · have hvalue : ((r.readAcc (numreg &&& 1)).w0 &&& 0xff).toNat = (r.readAcc (numreg &&& 1)).toNat / 2 ^ (48 - 0) := by
      have h1 := hd.w1
      have h2 := hd.w2
      rw [toNat_and_255 hd.w0, Acc.toNat]; omega
    have hguard := guard_iff hd (j := 0) (by decide) hvalue
    refine Eq.trans ((if_neg (hne h (by decide))).trans (if_neg (hne h (by decide)))) (limit_eq hd (hguard.trans ?_))
    rw [h, scaled, if_pos rfl, Fits48]; omega
  · have hguard := guard_iff hd (j := 2) (by decide) (toNat_guard hd (by decide))
    refine Eq.trans ((if_neg (hne h (by decide))).trans (if_pos h)) (limit_eq hd (hguard.trans ?_))
    rw [h, scaled, if_neg (by decide), if_pos rfl, Fits48]; omega
  · exact absurd h hs

theorem scaled_neg_iff (scaling : BitVec 32) (v : Int) : scaled scaling v < 0 ↔ v < 0 := by
  rw [scaled]
  split
  · omega
  · split <;> omega

theorem middle_iff (hd : d.InRange) {scaling : BitVec 32} (hs : scaling = 0 ∨ scaling = 1 ∨ scaling = 2)
    (hfits : Fits48 (scaled scaling d.val.toInt)) :
    d.w1 = (BitVec.ofInt 24 (scaled scaling d.val.toInt / 2 ^ 24)).setWidth 32 ↔ ScalingUnseen scaling d.val.toInt := by
  have h1 := hd.w1
  have h2 := hd.w2
  have hw1 : (d.w1.toNat : Int) = d.val.toInt / 2 ^ 24 % 2 ^ 24 := by
    rw [hd.toInt_val, Acc.toNat]
    split <;> omega
  have heq : d.w1 = (BitVec.ofInt 24 (scaled scaling d.val.toInt / 2 ^ 24)).setWidth 32 ↔
      d.val.toInt / 2 ^ 24 % 2 ^ 24 = scaled scaling d.val.toInt / 2 ^ 24 % 2 ^ 24 := by
    rw [← toNat_inj, toNat_setWidth, toNat_ofInt]; omega
  rw [heq, ScalingUnseen]
  simp only [hfits, not_true_eq_false, false_or]
  rcases hs with rfl | rfl | rfl
  · simp [scaled]
  · rw [scaled, if_pos rfl, Fits48] at hfits; rw [scaled, if_pos rfl]; simp; omega
  · rw [scaled, if_neg (by decide), if_pos rfl, Fits48] at hfits
    rw [scaled, if_neg (by decide), if_pos rfl]
    simp
    omega

/-- An accumulator is read as its scaling mode tells exactly if the mode makes no difference to the word. -/
theorem readsScaled_iff (r : Registers) (numreg : RegNum) (hd : (r.readAcc (numreg &&& 1)).InRange)
    (hs : r.scaling ≠ 3) :
    ReadsScaled numreg r ↔ ScalingUnseen r.scaling (r.readAcc (numreg &&& 1)).val.toInt := by
  have hmodes : r.scaling = 0 ∨ r.scaling = 1 ∨ r.scaling = 2 := by
    rcases scaling_cases r with h | h | h | h
    · exact .inl h
    · exact .inr (.inl h)
    · exact .inr (.inr h)
    · exact absurd h hs
  rw [ReadsScaled, pmReadAccu24, accu24_eq hd hs]
  by_cases hfits : Fits48 (scaled r.scaling (r.readAcc (numreg &&& 1)).val.toInt)
  · rw [← middle_iff hd hmodes hfits, limited, if_pos hfits, if_pos hfits, decide_eq_false (not_not.mpr hfits),
      Bool.or_false]
    exact and_iff_left rfl
  · refine iff_of_true ⟨?_, ?_⟩ (.inr (.inl hfits))
    · rw [limited, if_neg hfits, if_neg hfits]; simp only [scaled_neg_iff]
    · rw [if_neg hfits, decide_eq_true hfits, Bool.or_true]
      change ((r.setSr (1#32 <<< srL)) regSr).getLsbD srL = true
      rw [setSr_sr, show (1#32 <<< srL).getLsbD srL = true by decide, Bool.or_true]

def accuRegisters (d : Acc) (sr : BitVec 32) : Registers :=
  Function.update (Registers.writeAcc (fun _ => 0) 0 d) regSr sr

theorem reads_limited : ReadsScaled regA (accuRegisters ⟨0x12, 0x345678, 0⟩ 0x400) :=
  (readsScaled_iff (accuRegisters ⟨0x12, 0x345678, 0⟩ 0x400) regA ⟨by decide, by decide, by decide⟩ (by decide)).mpr
    (.inr (.inl (by decide)))

theorem reads_unscaled : (accuRegisters ⟨0, 0x400000, 0⟩ 0x400).scaling = 1 ∧
    (pmReadAccu24 regA (accuRegisters ⟨0, 0x400000, 0⟩ 0x400)).1 = 0x400000 ∧
    limited (scaled 1 (Acc.val ⟨0, 0x400000, 0⟩).toInt) = 0x200000 := by decide

end Aranym.Dsp
