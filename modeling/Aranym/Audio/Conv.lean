import Mathlib.Data.List.Range

/-!
# Rate conversion of sound

The frames that `AudioConv::rescaleFreq8` and `rescaleFreq16` pick from a block of several tracks.

Source: `audio_conv.cpp`.
-/

namespace Aranym.Audio

open List

variable {α : Type}

/-- The conversion that is set. The source has one channel or, if `stereo`, two. The numbers are `int`s of the source
without their bounds: products that overflow are left out. -/
structure AudioConv where
  srcRate : Nat
  dstRate : Nat
  stereo : Bool
  srcOffset : Nat
  srcSkip : Nat

structure Rescaled (α : Type) where
  srcLen : Nat
  dest : List α
  deriving DecidableEq

namespace AudioConv

variable (c : AudioConv) (source : Nat → α) (srcLen dstLen : Nat)

def frame (i : Nat) : List α := if c.stereo then [source i, source (i + 1)] else [source i]

theorem length_frame_pos (i : Nat) : 0 < (c.frame source i).length := by unfold frame; split <;> simp

/-- `skip` and `offset` count samples of the source here. -/
def rescaleFreq (skip offset read written : Nat) (dest : List α) : Rescaled α :=
  if read < srcLen ∧ dest.length < dstLen then
    rescaleFreq skip offset ((written + 1) * c.srcRate / c.dstRate * skip + offset) (written + 1)
      (dest ++ c.frame source read)
  else ⟨read, dest⟩
  termination_by dstLen - dest.length
  decreasing_by have hpos := c.length_frame_pos source read; rw [length_append]; omega

/-- The copy loop of `rescaleFreq` for 8-bit samples. -/
def rescaleFreq8 (source : Nat → BitVec 8) : Rescaled (BitVec 8) :=
  c.rescaleFreq source srcLen dstLen c.srcSkip c.srcOffset 0 0 []

/-- The copy loop of `rescaleFreq` for 16-bit samples; lengths and offsets are in bytes. -/
def rescaleFreq16 (source : Nat → BitVec 16) : Rescaled (BitVec 16) :=
  let r := c.rescaleFreq source (srcLen / 2) (dstLen / 2) (c.srcSkip / 2) (c.srcOffset / 2) 0 0 []
  { r with srcLen := r.srcLen * 2 }

/-! ## What is read -/

def place (skip offset k : Nat) : Nat := k * c.srcRate / c.dstRate * skip + offset

def readAt (skip offset k : Nat) : Nat := if k = 0 then 0 else c.place skip offset k

theorem rescaleFreq_spec {skip offset read written} {dest : List α} (hread : read = c.readAt skip offset written)
    (hdest : dest = (range written).flatMap fun k => c.frame source (c.readAt skip offset k)) :
    ∃ m ≥ written, c.rescaleFreq source srcLen dstLen skip offset read written dest =
      ⟨c.readAt skip offset m, (range m).flatMap fun k => c.frame source (c.readAt skip offset k)⟩ ∧
      (m = written ↔ ¬ (read < srcLen ∧ dest.length < dstLen)) := by
  fun_induction rescaleFreq c source srcLen dstLen skip offset read written dest with
  | case1 read written dest h ih =>
    obtain ⟨m, hm, heq, -⟩ := ih rfl (by rw [range_succ, flatMap_append, ← hdest, flatMap_singleton, hread])
    exact ⟨m, by omega, heq, iff_of_false (by omega) (not_not.mpr h)⟩
  | case2 read written dest h => exact ⟨written, le_refl _, by rw [hread, hdest], iff_of_true rfl h⟩

theorem rescaleFreq_eq (skip offset : Nat) : ∃ m, c.rescaleFreq source srcLen dstLen skip offset 0 0 [] =
    ⟨c.readAt skip offset m, (range m).flatMap fun k => c.frame source (c.readAt skip offset k)⟩ ∧
      (m = 0 ↔ srcLen = 0 ∨ dstLen = 0) := by
  obtain ⟨m, -, heq, hm⟩ := @rescaleFreq_spec α c source srcLen dstLen skip offset 0 0 [] rfl rfl
  refine ⟨m, heq, hm.trans ?_⟩
  rw [length_nil]; omega

/-! ## The frames that are due -/

def chan : Nat := if c.stereo then 2 else 1

theorem length_frames (f : Nat → Nat) (m : Nat) :
    ((range m).flatMap fun k => c.frame source (f k)).length = m * c.chan := by
  have hframe : ∀ k, (c.frame source (f k)).length = c.chan := by intro k; unfold frame chan; split <;> rfl
  simp [length_flatMap, hframe]

theorem chan_pos : 0 < c.chan := by unfold chan; split <;> decide

theorem rescaleFreq_nil (skip offset : Nat) :
    ((c.rescaleFreq source srcLen dstLen skip offset 0 0 []).dest.length = 0 ↔ srcLen = 0 ∨ dstLen = 0) ∧
      ((srcLen = 0 ∨ dstLen = 0) → (c.rescaleFreq source srcLen dstLen skip offset 0 0 []).srcLen = 0) := by
  obtain ⟨m, heq, hm⟩ := c.rescaleFreq_eq source srcLen dstLen skip offset
  rw [heq, ← hm, length_frames, Nat.mul_eq_zero, or_iff_left c.chan_pos.ne']
  exact ⟨Iff.rfl, fun h => if_pos h⟩

/-- Each frame written is the frame of the track that is due, and the next block starts on a frame. A sample
takes `unit` bytes. -/
def Picks (unit : Nat) (r : Rescaled α) : Prop :=
  (r.dest = (range (r.dest.length / c.chan)).flatMap fun k =>
    c.frame source (c.place c.srcSkip c.srcOffset k / unit)) ∧ c.srcSkip ∣ r.srcLen

theorem picks_iff {unit skip offset} (hunit : 0 < unit) (hskip : c.srcSkip = skip * unit)
    (hoffset : c.srcOffset = offset * unit) {r} (hr : c.rescaleFreq source srcLen dstLen skip offset 0 0 [] = r) :
    c.Picks source unit ⟨r.srcLen * unit, r.dest⟩ ↔
      srcLen = 0 ∨ dstLen = 0 ∨ c.frame source 0 = c.frame source offset ∧ c.srcSkip ∣ c.srcOffset := by
  have hplace : ∀ k, c.place c.srcSkip c.srcOffset k = c.place skip offset k * unit := by
    intro k; rw [place, place, hskip, hoffset, Nat.add_mul, Nat.mul_assoc]
  obtain ⟨m, heq, hm⟩ := c.rescaleFreq_eq source srcLen dstLen skip offset
  rw [← or_assoc, ← hm, ← hr, heq, Picks]
  simp only [length_frames, Nat.mul_div_cancel _ c.chan_pos, hplace, Nat.mul_div_cancel _ hunit]
  cases m with
  | zero => simp [readAt]
  | succ m =>
    -- only the first frame is taken from elsewhere
    have hrest : ∀ k, c.readAt skip offset (k + 1) = c.place skip offset (k + 1) := fun _ => rfl
    have hfirst : c.place skip offset 0 = offset := by simp [place]
    simp only [range_succ_eq_map, flatMap_cons, flatMap_map, hrest, hfirst, append_cancel_right_eq,
      Nat.add_one_ne_zero, false_or, ← hplace]
    rw [place, Nat.dvd_add_right (Nat.dvd_mul_left ..), readAt, if_pos rfl]

end AudioConv

/-- The first frame is taken from the start of the block and not from the track, so a block that gives a frame is
converted right exactly if it starts with the same frame as the track, and the track with a whole skip. -/
theorem frames_picked_iff (c : AudioConv) (srcLen dstLen : Nat) (source : Nat → BitVec 8)
    (source' : Nat → BitVec 16) :
    (c.Picks source 1 (c.rescaleFreq8 srcLen dstLen source) ↔ srcLen = 0 ∨ dstLen = 0 ∨
      c.frame source 0 = c.frame source c.srcOffset ∧ c.srcSkip ∣ c.srcOffset) ∧
    (2 ∣ c.srcSkip → 2 ∣ c.srcOffset →
      (c.Picks source' 2 (c.rescaleFreq16 srcLen dstLen source') ↔ srcLen / 2 = 0 ∨ dstLen / 2 = 0 ∨
        c.frame source' 0 = c.frame source' (c.srcOffset / 2) ∧ c.srcSkip ∣ c.srcOffset)) := by
  refine ⟨?_, fun hskip hoffset => ?_⟩
  · rw [← c.picks_iff source srcLen dstLen Nat.one_pos (Nat.mul_one _).symm (Nat.mul_one _).symm rfl, Nat.mul_one]
    rfl
  · exact c.picks_iff source' _ _ Nat.two_pos (Nat.div_mul_cancel hskip).symm (Nat.div_mul_cancel hoffset).symm rfl

theorem one_track_picked : AudioConv.Picks ⟨50066, 50066, true, 0, 2⟩ (fun i => BitVec.ofNat 8 i) 1
      (AudioConv.rescaleFreq8 ⟨50066, 50066, true, 0, 2⟩ 8 8 fun i => BitVec.ofNat 8 i) ∧
    AudioConv.Picks ⟨50066, 50066, true, 0, 4⟩ (fun i => BitVec.ofNat 16 i) 2
      (AudioConv.rescaleFreq16 ⟨50066, 50066, true, 0, 4⟩ 8 8 fun i => BitVec.ofNat 16 i) :=
  ⟨(frames_picked_iff _ _ _ _ fun _ => 0).1.mpr (by decide),
    ((frames_picked_iff _ _ _ (fun _ => 0) _).2 (by decide) (by decide)).mpr (by decide)⟩

/-- The second of two tracks: the first frame is one of the first track, and the next block starts on one. -/
theorem second_track_not_picked :
    (AudioConv.rescaleFreq8 ⟨50066, 50066, false, 1, 2⟩ 8 2 fun i => BitVec.ofNat 8 i) = ⟨5, [0, 3]⟩ ∧
      ¬ AudioConv.Picks ⟨50066, 50066, false, 1, 2⟩ (fun i => BitVec.ofNat 8 i) 1 ⟨5, [0, 3]⟩ :=
  ⟨by decide +kernel, fun h => absurd h.1 (by decide +kernel)⟩

end Aranym.Audio
