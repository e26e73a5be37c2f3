import Aranym.Audio.Conv

/-!
# The callback of the sound DMA

`audio_callback` fills the buffer of the host from the block that is played, and takes the next block from the
registers. It goes on as long as the buffer is not full, also when it makes no headway.

Source: `audio_dma.cpp`, `audio_conv.cpp`.
-/

namespace Aranym.Audio

/-- What a call finds: the registers, the conversion, and what SDL makes of a block. `tmpLen` is
`dst_len / cvt.len_ratio`. -/
structure Dma where
  ram : BitVec 32 → BitVec 8
  playing : Bool
  startReplay : BitVec 32
  start : BitVec 32
  endReg : BitVec 32
  playbackEnable : Bool
  playbackRepeat : Bool
  conv : AudioConv
  wide : Bool
  tmpLen : Int → Nat
  convertAudio : Nat → Nat

/-- The variables of the copy loop of the audio callback. -/
structure Loop where
  destLen : Int
  current : BitVec 32
  endReplay : BitVec 32
  deriving DecidableEq

namespace Dma

variable (d : Dma)

def rescaled (source : BitVec 32) (srcLen dstLen : Nat) : Nat × Nat :=
  if d.wide then
    let r := d.conv.rescaleFreq16 srcLen dstLen fun i =>
      d.ram (source + BitVec.ofNat 32 (2 * i)) ++ d.ram (source + BitVec.ofNat 32 (2 * i + 1))
    (r.srcLen, r.dest.length * 2)
  else
    let r := d.conv.rescaleFreq8 srcLen dstLen fun i => d.ram (source + BitVec.ofNat 32 i)
    (r.srcLen, r.dest.length)

def doConversion (source : BitVec 32) (srcLen dstLen : Int) : Int × Int :=
  if d.conv.srcRate = 0 ∨ d.conv.dstRate = 0 then (srcLen, dstLen)
  else
    let r := d.rescaled source srcLen.toNat (d.tmpLen dstLen)
    (r.1, d.convertAudio r.2)

def follow (t : Loop) : Option Loop :=
  if t.current < t.endReplay then some t
  else if d.playbackEnable then
    if d.playbackRepeat then some ⟨t.destLen, d.start, d.endReg⟩ else none
  else some t

def next (s : Loop) : Option Loop :=
  if s.destLen > 0 then
    let r := d.doConversion s.current (s.endReplay - s.current).toInt s.destLen
    d.follow { s with destLen := s.destLen - r.2, current := s.current + BitVec.ofInt 32 r.1 }
  else none

/-- The loop after `n` rounds, unless the call has returned. -/
def audioCallback (s : Loop) (n : Nat) : Option Loop :=
  (·.bind d.next)^[n] (if d.playing ∧ d.startReplay ≠ 0 ∧ s.endReplay ≠ 0 then some s else none)

/-! ## Headway -/

def unit : Nat := if d.wide then 2 else 1

def Idle (s : Loop) : Prop :=
  d.conv.srcRate ≠ 0 ∧ d.conv.dstRate ≠ 0 ∧
    ((s.endReplay - s.current).toInt.toNat / d.unit = 0 ∨ d.tmpLen s.destLen / d.unit = 0)

instance decidableIdle (s : Loop) : Decidable (d.Idle s) := inferInstanceAs (Decidable (_ ∧ _ ∧ (_ ∨ _)))

/-- Nothing is written, and nothing will be: the block does not end, or it is not followed by another one, or by
one that is idle too. -/
def Stuck (s : Loop) : Prop :=
  s.destLen > 0 ∧ d.Idle s ∧ (s.current < s.endReplay ∨ d.playbackEnable = false ∨
    d.playbackRepeat = true ∧ d.Idle ⟨s.destLen, d.start, d.endReg⟩)

variable {d} {s t : Loop}

theorem rescaled_nil (source : BitVec 32) (srcLen dstLen : Nat) :
    ((d.rescaled source srcLen dstLen).2 = 0 ↔ srcLen / d.unit = 0 ∨ dstLen / d.unit = 0) ∧
      ((srcLen / d.unit = 0 ∨ dstLen / d.unit = 0) → (d.rescaled source srcLen dstLen).1 = 0) := by
  unfold rescaled unit
  split
  · obtain ⟨hnil, hread⟩ := d.conv.rescaleFreq_nil (fun i => d.ram (source + BitVec.ofNat 32 (2 * i)) ++
      d.ram (source + BitVec.ofNat 32 (2 * i + 1))) (srcLen / 2) (dstLen / 2) (d.conv.srcSkip / 2) (d.conv.srcOffset / 2)
    refine ⟨?_, fun h => ?_⟩
    · rw [← hnil, Nat.mul_eq_zero, or_iff_left (by decide)]; rfl
    · exact Nat.mul_eq_zero.mpr (.inl (hread h))
  · rw [Nat.div_one, Nat.div_one]; exact d.conv.rescaleFreq_nil ..

theorem destLen_follow (h : d.follow s = some t) : t.destLen = s.destLen := by
  unfold follow at h
  split_ifs at h <;> cases h <;> rfl

section

variable (hzero : d.convertAudio 0 = 0) (hpos : ∀ n, 0 < n → 0 < d.convertAudio n)

include hzero

theorem next_idle (hlen : s.destLen > 0) (h : d.Idle s) : d.next s = d.follow s := by
  obtain ⟨hsrc, hdst, hidle⟩ := h
  have hnil := (rescaled_nil s.current ..).1.mpr hidle
  have hread := (rescaled_nil s.current ..).2 hidle
  rw [next, if_pos hlen, doConversion, if_neg (not_or.mpr ⟨hsrc, hdst⟩)]
  simp only [hread, hnil, hzero]
  simp

omit hzero

include hpos

theorem destLen_next (hlen : s.destLen > 0) (h : ¬ d.Idle s) (hnext : d.next s = some t) :
    t.destLen < s.destLen := by
  rw [next, if_pos hlen] at hnext
  have hmade : 0 < (d.doConversion s.current (s.endReplay - s.current).toInt s.destLen).2 := by
    unfold doConversion
    split
    · exact hlen
    · next hrates =>
      rw [not_or] at hrates
      have hsome := mt (rescaled_nil s.current _ _).1.mp fun hidle => h ⟨hrates.1, hrates.2, hidle⟩
      exact Int.natCast_pos.mpr (hpos _ (Nat.pos_of_ne_zero hsome))
  rw [destLen_follow hnext]
  exact Int.sub_lt_self _ hmade

end

/-! ## Whole calls -/

theorem audioCallback_succ (s : Loop) (n : Nat) : d.audioCallback s (n + 1) = (d.audioCallback s n).bind d.next :=
  Function.iterate_succ_apply' ..

theorem audioCallback_done {k} (h : d.audioCallback s k = none) (j : Nat) : d.audioCallback s (k + j) = none := by
  induction j with
  | zero => exact h
  | succ j ih => rw [← Nat.add_assoc, audioCallback_succ, ih]; rfl

theorem Stuck.next (hzero : d.convertAudio 0 = 0) (h : d.Stuck s) : ∃ t, d.next s = some t ∧ d.Stuck t := by
  obtain ⟨hlen, hidle, hend⟩ := h
  rw [next_idle hzero hlen hidle, follow]
  split_ifs with hmore henable hrepeat
  · exact ⟨s, rfl, hlen, hidle, hend⟩
  · obtain ⟨-, hagain⟩ := (hend.resolve_left hmore).resolve_left (by simp [henable])
    exact ⟨_, rfl, hlen, hagain, .inr (.inr ⟨hrepeat, hagain⟩)⟩
  · exact absurd ((hend.resolve_left hmore).resolve_left (by simp [henable])).1 hrepeat
  · exact ⟨s, rfl, hlen, hidle, hend⟩

variable (d) in
def rank (s : Loop) : Nat := 2 * s.destLen.toNat + if d.Idle s then 1 else 0

theorem rank_next (hzero : d.convertAudio 0 = 0) (hpos : ∀ n, 0 < n → 0 < d.convertAudio n) (hs : ¬ d.Stuck s)
    (h : d.next s = some t) : d.rank t < d.rank s := by
  have hlen : s.destLen > 0 := by
    by_contra hlen
    rw [Dma.next, if_neg hlen] at h
    cases h
  unfold rank
  by_cases hidle : d.Idle s
  · rw [next_idle hzero hlen hidle, follow] at h
    split_ifs at h with hmore henable hrepeat
    · exact absurd ⟨hlen, hidle, .inl hmore⟩ hs
    · cases h
      rw [if_pos hidle, if_neg fun hagain => hs ⟨hlen, hidle, .inr (.inr ⟨hrepeat, hagain⟩)⟩]; exact Nat.lt_succ_self _
    · exact absurd ⟨hlen, hidle, .inr (.inl (by simpa using henable))⟩ hs
  · have hlt := destLen_next hpos hlen hidle h
    rw [if_neg hidle]; split <;> omega

theorem returns_of_not_stuck (hzero : d.convertAudio 0 = 0) (hpos : ∀ n, 0 < n → 0 < d.convertAudio n)
    (h : ∀ n t, d.audioCallback s n = some t → ¬ d.Stuck t) {n t} (ht : d.audioCallback s n = some t) :
    ∃ n, d.audioCallback s n = none := by
  induction hk : d.rank t using Nat.strong_induction_on generalizing n t with
  | _ k ih =>
    have hsucc := audioCallback_succ (d := d) s n
    rw [ht, Option.bind_some] at hsucc
    cases hnext : d.next t with
    | none => exact ⟨n + 1, hsucc.trans hnext⟩
    | some u => exact ih _ (hk ▸ rank_next hzero hpos (h n t ht) hnext) (hsucc.trans hnext) rfl

end Dma

open Dma

/-- The call returns exactly if it never comes to a round that is stuck. -/
theorem audioCallback_returns_iff (d : Dma) (hzero : d.convertAudio 0 = 0)
    (hpos : ∀ n, 0 < n → 0 < d.convertAudio n) (s : Loop) : (∃ n, d.audioCallback s n = none) ↔
      ∀ n t, d.audioCallback s n = some t → ¬ d.Stuck t := by
  constructor
  · rintro ⟨k, hk⟩ n t ht hstuck
    have hrest : ∀ j, ∃ u, d.audioCallback s (n + j) = some u ∧ d.Stuck u := by
      intro j
      induction j with
      | zero => exact ⟨t, ht, hstuck⟩
      | succ j ih =>
        obtain ⟨u, hu, hstuck⟩ := ih
        rw [← Nat.add_assoc, audioCallback_succ, hu]; exact hstuck.next hzero
    obtain ⟨u, hu, -⟩ := hrest k
    rw [Nat.add_comm, audioCallback_done hk] at hu; cases hu
  · intro h
    cases hstart : d.audioCallback s 0 with
    | none => exact ⟨0, hstart⟩
    | some t => exact returns_of_not_stuck hzero hpos h hstart

def twoBytes (repeats : Bool) : Dma :=
  ⟨fun _ => 0, true, 0x1000, 0x1000, 0x1000, true, repeats, ⟨1, 1, false, 0, 1⟩, false, Int.toNat, id⟩

theorem twoBytes_returns : ∃ n, (twoBytes false).audioCallback ⟨8, 0x1000, 0x1002⟩ n = none := by
  refine (audioCallback_returns_iff _ rfl (fun _ h => h) _).mpr fun n t ht => ?_
  have hdone : (twoBytes false).audioCallback ⟨8, 0x1000, 0x1002⟩ 1 = none := by decide +kernel
  cases n with
  | zero => cases ht; rintro ⟨-, ⟨-, -, hidle⟩, -⟩; exact absurd hidle (by decide)
  | succ n => rw [Nat.add_comm, audioCallback_done hdone] at ht; cases ht

/-- Repeated, they are followed by a block of no length, for ever. -/
theorem empty_block_hangs : ¬ ∃ n, (twoBytes true).audioCallback ⟨8, 0x1000, 0x1002⟩ n = none := by
  rintro ⟨n, hn⟩
  have hround : ∀ k, (twoBytes true).audioCallback ⟨8, 0x1000, 0x1002⟩ (k + 1) = some ⟨6, 0x1000, 0x1000⟩ := by
    intro k
    induction k with
    | zero => decide +kernel
    | succ k ih => rw [audioCallback_succ, ih]; decide +kernel
  have hdone := audioCallback_done hn 1
  rw [hround] at hdone; cases hdone

end Aranym.Audio
