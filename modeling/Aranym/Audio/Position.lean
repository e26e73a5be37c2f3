import Mathlib.Tactic.SplitIfs

/-!
# The reported replay position

`updateCurrent` estimates the address that is played from the time since the block was started.

Source: `audio_dma.cpp`.
-/

namespace Aranym.Audio

open BitVec

/-- The replay registers of the DMA sound that `updateCurrent` reads. -/
structure Replay where
  playing : Bool
  startReplay : BitVec 32
  endReplay : BitVec 32
  mode : BitVec 16
  freq : Int

namespace Replay

def int32 (v : Int) : Int := v.bmod 0x100000000

variable (r : Replay)

def sampleSizeShift : Nat :=
  if r.mode &&& 0xc0 = 0 then 1
  else if r.mode &&& 0xc0 = 0x80 then 0
  else 2

def totalSamples : Int := ((r.endReplay - r.startReplay) >>> r.sampleSizeShift).toInt

def totalDuration : Int :=
  let d := (int32 (r.totalSamples * 1000)).tdiv r.freq
  if d < 0 then 1 else d

/-- `current` for the elapsed time; `none` is a division by zero. -/
def updateCurrent (timeElapsed : Int) : Option (BitVec 32) :=
  if r.playing then
    if r.totalDuration = 0 then none
    else
      let samples := (int32 (timeElapsed * r.totalSamples)).tdiv r.totalDuration
      let current := r.startReplay + BitVec.ofInt 32 samples <<< r.sampleSizeShift
      let current := if current < r.startReplay then r.startReplay else current
      some (if current > r.endReplay then r.endReplay else current)
  else some r.startReplay

/-! ## Values without bounds -/

def samples : Nat := (r.endReplay.toNat - r.startReplay.toNat) >>> r.sampleSizeShift

def duration : Nat := r.samples * 1000 / r.freq.toNat

/-- The byte offset of the replay after `t` milliseconds. -/
def offset (t : Nat) : Nat := (t * r.samples / r.duration) <<< r.sampleSizeShift

/-- The products of `updateCurrent` fit into `int` at time `t`. -/
def Fits (t : Nat) : Prop := t * r.samples < 0x80000000 ∧ r.offset t < 0x80000000

/-- The position stays between start and end and never goes back. -/
def WellDefined : Prop :=
  ∀ t u : Nat, t ≤ u → r.Fits u → ∃ c d, r.updateCurrent t = some c ∧ r.updateCurrent u = some d ∧
    r.startReplay ≤ c ∧ c ≤ d ∧ d ≤ r.endReplay

theorem int32_tdiv {a : Nat} (h : a < 0x80000000) (b : Nat) : (int32 a).tdiv b = (a / b : Nat) := by
  rw [int32, Int.bmod_eq_of_le (by omega) (by omega)]
  rfl

variable {r}

theorem offset_mono {t u} (h : t ≤ u) : r.offset t ≤ r.offset u := by
  simp only [offset, Nat.shiftLeft_eq]
  exact Nat.mul_le_mul_right _ (Nat.div_le_div_right (Nat.mul_le_mul_right _ h))

theorem Fits.of_le {t u} (h : r.Fits u) (htu : t ≤ u) : r.Fits t :=
  ⟨Nat.lt_of_le_of_lt (Nat.mul_le_mul_right _ htu) h.1, Nat.lt_of_le_of_lt (offset_mono htu) h.2⟩

section

variable (hlt : r.startReplay < r.endReplay) (hfreq : 0 < r.freq) (hfit : r.samples * 1000 < 0x80000000)

include hlt hfit

theorem totalSamples_eq : r.totalSamples = r.samples := by
  have h : ((r.endReplay - r.startReplay) >>> r.sampleSizeShift).toNat = r.samples := by
    rw [toNat_ushiftRight, toNat_sub_of_le (BitVec.le_of_lt hlt), samples]
  rw [totalSamples, toInt_eq_toNat_of_lt (by omega), h]

include hfreq

theorem totalDuration_eq : r.totalDuration = r.duration := by
  have hf := Int.toNat_of_nonneg (Int.le_of_lt hfreq)
  have h : (int32 (r.totalSamples * 1000)).tdiv r.freq = r.duration := by
    rw [totalSamples_eq hlt hfit, ← hf]; exact int32_tdiv hfit _
  simp only [totalDuration, h]
  exact if_neg (by omega)

theorem updateCurrent_eq (hplay : r.playing = true) (hdur : r.duration ≠ 0) {t} (h : r.Fits t) :
    ∃ c, r.updateCurrent t = some c ∧ c.toNat = if r.startReplay.toNat + r.offset t < 0x100000000
      then min (r.startReplay.toNat + r.offset t) r.endReplay.toNat else r.startReplay.toNat := by
  have hd := totalDuration_eq hlt hfreq hfit
  have hq : (int32 (t * r.totalSamples)).tdiv r.totalDuration = (t * r.samples / r.duration : Nat) := by
    rw [totalSamples_eq hlt hfit, hd]; exact int32_tdiv h.1 _
  have hoff : (BitVec.ofInt 32 (t * r.samples / r.duration : Nat) <<< r.sampleSizeShift).toNat = r.offset t := by
    have := h.2
    rw [ofInt_natCast, toNat_shiftLeft, toNat_ofNat, offset] at *
    simp only [Nat.shiftLeft_eq] at *
    rw [Nat.mod_mul_mod]
    omega
  have hlt' : r.startReplay.toNat < r.endReplay.toNat := hlt
  have ho := h.2
  simp only [updateCurrent, hplay, if_true, hq]
  rw [if_neg (by omega)]
  refine ⟨_, rfl, ?_⟩
  have hcur : (r.startReplay + BitVec.ofInt 32 (t * r.samples / r.duration : Nat) <<< r.sampleSizeShift).toNat =
      (r.startReplay.toNat + r.offset t) % 0x100000000 := by rw [toNat_add, hoff]
  generalize r.startReplay + BitVec.ofInt 32 (t * r.samples / r.duration : Nat) <<< r.sampleSizeShift = c at hcur
  simp only [gt_iff_lt, BitVec.lt_def]
  by_cases hw : r.startReplay.toNat + r.offset t < 0x100000000 <;> split_ifs <;> omega

/-- Every position is defined, inside the block and no earlier than those before it exactly when the block
lasts a millisecond and no position passes the end of the address space. -/
theorem position_wellDefined_iff : r.WellDefined ↔ (r.playing = true →
    r.freq ≤ r.samples * 1000 ∧ ∀ t, r.Fits t → r.startReplay.toNat + r.offset t < 0x100000000) := by
  have hlt' : r.startReplay.toNat < r.endReplay.toNat := hlt
  have hdur : r.duration = 0 ↔ ¬r.freq ≤ r.samples * 1000 := by
    rw [duration, Nat.div_eq_zero_iff]; omega
  constructor
  · intro h hplay
    have hd : r.duration ≠ 0 := by
      intro hd
      obtain ⟨c, -, hc, -⟩ := h 0 0 (Nat.le_refl 0) ⟨by simp, by simp [offset]⟩
      rw [updateCurrent, if_pos hplay, totalDuration_eq hlt hfreq hfit, hd] at hc
      cases hc
    refine ⟨Decidable.not_not.mp fun hf => hd (hdur.mpr hf), fun t ht => Nat.lt_of_not_le fun hw => ?_⟩
    -- the block has been played once before `t`, and the position was then behind its start
    have hone : r.offset r.duration ≤ r.endReplay.toNat - r.startReplay.toNat ∧ 0 < r.offset r.duration := by
      have hn : 0 < r.samples := Nat.pos_of_ne_zero fun h0 => hd (by rw [duration, h0, Nat.zero_mul, Nat.zero_div])
      rw [offset, Nat.mul_div_cancel_left _ (Nat.pos_of_ne_zero hd)]
      simp only [samples, Nat.shiftLeft_eq, Nat.shiftRight_eq_div_pow] at *
      exact ⟨Nat.div_mul_le_self _ _, Nat.mul_pos hn (Nat.two_pow_pos _)⟩
    have hle : r.duration ≤ t := Nat.le_of_not_lt fun htd => by
      have := offset_mono (r := r) (Nat.le_of_lt htd)
      omega
    obtain ⟨c, d, hc, hd', -, hcd, -⟩ := h _ _ hle ht
    obtain ⟨c', hc', hcn⟩ := updateCurrent_eq hlt hfreq hfit hplay hd (ht.of_le hle)
    obtain ⟨d', hdd, hdn⟩ := updateCurrent_eq hlt hfreq hfit hplay hd ht
    cases hc.symm.trans hc'
    cases hd'.symm.trans hdd
    rw [BitVec.le_def, hcn, hdn] at hcd
    have := r.endReplay.isLt
    split_ifs at hcd <;> omega
  · intro h t u htu hu
    cases hplay : r.playing with
    | false =>
      have hstop t : r.updateCurrent t = some r.startReplay := by simp [updateCurrent, hplay]
      exact ⟨_, _, hstop _, hstop _, BitVec.le_refl _, BitVec.le_refl _, BitVec.le_of_lt hlt⟩
    | true =>
      obtain ⟨hf, hw⟩ := h hplay
      have hd : r.duration ≠ 0 := fun h => hdur.mp h hf
      obtain ⟨c, hc, hcn⟩ := updateCurrent_eq hlt hfreq hfit hplay hd (hu.of_le htu)
      obtain ⟨d, hd, hdn⟩ := updateCurrent_eq hlt hfreq hfit hplay hd hu
      rw [if_pos (hw _ (hu.of_le htu))] at hcn
      rw [if_pos (hw _ hu)] at hdn
      have := offset_mono (r := r) htu
      exact ⟨c, d, hc, hd, by rw [BitVec.le_def]; omega, by rw [BitVec.le_def]; omega, by rw [BitVec.le_def]; omega⟩

end

theorem second_wellDefined : (Replay.mk true 0x10000 0x18000 0x80 0x8000).WellDefined :=
  (position_wellDefined_iff (by decide) (by decide) (by decide)).mpr fun _ => ⟨by decide, fun t ht =>
    Nat.lt_of_lt_of_le (Nat.add_lt_add_left ht.2 _) (by decide)⟩

/-- One sample of 16-bit stereo at the highest frequency lasts no millisecond: a division by zero. -/
theorem one_sample_not_wellDefined : ¬(Replay.mk true 0x10000 0x10004 0x40 49170).WellDefined := by
  intro h
  obtain ⟨c, -, hc, -⟩ := h 0 0 (Nat.le_refl 0) ⟨by decide, by decide⟩
  cases hc

end Replay

end Aranym.Audio
