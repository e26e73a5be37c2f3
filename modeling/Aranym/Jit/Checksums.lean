import Aranym.Jit.Compile

/-!
# Checks of translated blocks

A segment that is longer than `MAX_CHECKSUM_LEN` does not go into the sums, and its block is found good by the sums of
the other segments.

Source: `compemu_support.cpp`.
-/

namespace Aranym.Jit.Blocks

open Aranym.Lib List

/-- A block has at most so many instructions, and at most one segment more. -/
def maxRun : Nat := 1024

/-- A block that is found good was summed in all its segments, when it was compiled with the memory `old` and now. -/
def SeenWhole (csi : List ChecksumInfo) : Prop :=
  ∀ (K : Config) (fuel : Nat) (b : BlockPtr) (old : Memory 32) (s t : State), (s.bi b).csi = csi →
    (s.bi b).status = .needCheck → ((s.bi b).c1, (s.bi b).c2) = calcChecksum old csi →
    blockCheckChecksum K fuel b s = .ok true t → ∀ c ∈ csi, c.Summed

variable {K : Config} {csi : List ChecksumInfo} {s t : State} {b : BlockPtr} {fuel : Nat}

/-! ## Sums of nothing -/

theorem calcChecksum_zero (m : Memory 32) (h : ∀ c ∈ csi, c.Summed → c.len = 0) : calcChecksum m csi = (0, 0) := by
  unfold calcChecksum
  induction csi with
  | nil => rfl
  | cons c csi ih =>
    have hskip : sumSegment m (0, 0) c = (0, 0) := by
      unfold sumSegment
      split
      · next hc => rw [h c (mem_cons_self ..) hc]; rfl
      · rfl
    rw [foldl_cons, hskip]
    exact ih fun c hc => h c (mem_cons_of_mem _ hc)

theorem not_good_of_zero (hstatus : (s.bi b).status = .needCheck) (h : ((s.bi b).c1, (s.bi b).c2) = (0, 0)) :
    blockCheckChecksum K fuel b s ≠ .ok true t := by
  obtain ⟨h₁, h₂⟩ := Prod.mk.inj h
  have hsame : checksumMatches b s = .ok false s := by
    rw [checksumMatches, bind_ok (get_apply s), if_neg (by simp [h₁, h₂]), h₁, h₂]; rfl
  intro hrun
  cases fuel with
  | zero => cases hrun
  | succ fuel =>
    rw [blockCheckChecksum, bind_ok (get_apply s), if_neg (not_not.mpr hstatus), bind_ok hsame,
      if_neg Bool.false_ne_true, bind_ok (pure_apply false s), if_neg Bool.false_ne_true] at hrun
    -- the block is discarded
    obtain ⟨_, _, -, hrun⟩ := bind_ok_inv hrun
    obtain ⟨_, _, -, hrun⟩ := bind_ok_inv hrun
    cases hrun

/-! ## Sums of equal longs -/

def longs (c : ChecksumInfo) : Nat := if c.Summed then (c.len.toNat + 3) / 4 else 0

section

variable {m : Memory 32} {v : BitVec 32} (h : ∀ a, hostLong m a = v)

include h

theorem sumLongs_const (n : Nat) (pos : BitVec 32) (k : BitVec 32 × BitVec 32) :
    (sumLongs m n pos k).1 = k.1 + v * BitVec.ofNat 32 n := by
  induction n generalizing pos k with
  | zero => simp [sumLongs]
  | succ n ih => rw [sumLongs, ih, h, BitVec.ofNat_add]; grind

theorem foldl_sumSegment_const (csi : List ChecksumInfo) (k : BitVec 32 × BitVec 32) :
    (csi.foldl (sumSegment m) k).1 = k.1 + v * BitVec.ofNat 32 (csi.map longs).sum := by
  induction csi generalizing k with
  | nil => simp
  | cons c csi ih =>
    have hseg : (sumSegment m k c).1 = k.1 + v * BitVec.ofNat 32 (longs c) := by
      unfold sumSegment longs
      split
      · exact sumLongs_const h ..
      · simp
    rw [foldl_cons, ih, hseg, map_cons, sum_cons, BitVec.ofNat_add]
    grind

end

theorem sum_longs (csi : List ChecksumInfo) :
    (csi.map longs).sum ≤ 512 * csi.length ∧ ∀ c ∈ csi, longs c ≤ (csi.map longs).sum := by
  induction csi with
  | nil => simp
  | cons c csi ih =>
    have hle : longs c ≤ 512 := by
      unfold longs
      split
      · next h => have := h.2; unfold maxChecksumLen at this; omega
      · exact Nat.zero_le _
    rw [map_cons, sum_cons, length_cons, forall_mem_cons]
    refine ⟨by omega, Nat.le_add_right .., fun d hd => ?_⟩
    exact Nat.le_trans (ih.2 d hd) (Nat.le_add_left ..)

def ones : Memory 32 := fun _ => 1

theorem calcChecksum_ne_zero (hlen : csi.length ≤ maxRun + 1) {c} (hc : c ∈ csi) (hsummed : c.Summed) (hpos : c.len ≠ 0) :
    (calcChecksum ones csi).1 ≠ 0 := by
  have hlong : ∀ a, hostLong ones a = hostLong ones 0 := fun _ => rfl
  have hinv : 0xFFFFFF01#32 * hostLong ones 0 = 1#32 := by decide
  obtain ⟨hle, hge⟩ := sum_longs csi
  have hge := hge c hc
  have := hsummed.1
  rw [longs, if_pos hsummed] at hge
  unfold maxRun at hlen
  intro hzero
  rw [calcChecksum, foldl_sumSegment_const hlong] at hzero
  have hsum : BitVec.ofNat 32 (csi.map longs).sum = 0#32 := by
    rw [← BitVec.one_mul (BitVec.ofNat ..), ← hinv, BitVec.mul_assoc, (BitVec.zero_add _).symm.trans hzero]; rfl
  have hmod := congrArg BitVec.toNat hsum
  rw [BitVec.toNat_ofNat, BitVec.toNat_zero] at hmod
  omega

/-! ## Checks -/

/-- One block, which the lazy flush has put into the dormant list, and the memory it was compiled with. -/
def dormant (K : Config) (csi : List ChecksumInfo) : State :=
  { initial K (fun _ => ⟨0, 0, 0, 0, 0, 0, 0, 0, (calcChecksum ones csi).1, (calcChecksum ones csi).2, csi, 0, .needCheck⟩)
      (fun _ => ⟨none, none⟩) (fun _ => 0) ones with
    lists := ⟨fun h => if h = .dormant then some 0 else none, fun _ => none, fun _ => some (.inl .dormant)⟩
    lines := ⟨fun i => if i = 1 then some 0 else none, fun _ => none, fun _ => some (.inl 1)⟩ }

def anyConfig : Config := ⟨0, 0, 0, 0, 1, Nat.one_pos, fun _ => false, fun _ => true, true⟩

theorem dormant_good (h : (calcChecksum ones csi).1 ≠ 0) :
    ∃ t, blockCheckChecksum anyConfig 1 0 (dormant anyConfig csi) = .ok true t := by
  have hsame : checksumMatches 0 (dormant anyConfig csi) = .ok true (dormant anyConfig csi) := by
    rw [checksumMatches, bind_ok (get_apply _), if_pos (.inl h)]
    cases csi with
    | nil => exact absurd rfl h
    | cons c csi => simp [dormant, initial]
  have hstatus : ((dormant anyConfig csi).bi 0).status = .needCheck := rfl
  rw [blockCheckChecksum, bind_ok (get_apply _), if_neg (not_not.mpr hstatus), bind_ok hsame, if_pos rfl]
  simp [bind_apply, setBi, setDhtu, doIf, calledCheckChecksum, dormant, initial, removeFromList, addToActive,
    raiseInClList, removeFromClList, addToClList, tagBi, setTagHandler, TagBi, TagHandler, cacheline, tagSize]
  exact ⟨_, rfl⟩

/-- All of the code of a block is seen by its checks exactly if all of its segments are short enough, or none of them
goes into the sums. -/
theorem seenWhole_iff (csi : List ChecksumInfo) (hlen : csi.length ≤ maxRun + 1) :
    SeenWhole csi ↔ (∀ c ∈ csi, c.Summed) ∨ ∀ c ∈ csi, c.Summed → c.len = 0 := by
  constructor
  · intro h
    rw [or_iff_not_imp_right]
    intro hnot
    simp only [not_forall] at hnot
    obtain ⟨c, hc, hsummed, hpos⟩ := hnot
    obtain ⟨t, hgood⟩ := dormant_good (calcChecksum_ne_zero hlen hc hsummed hpos)
    exact h _ 1 0 ones _ t rfl rfl rfl hgood
  · rintro (hall | hnone) K fuel b old s t - hstatus hsums hgood
    · exact hall
    · rw [calcChecksum_zero old hnone] at hsums
      exact absurd hgood (not_good_of_zero hstatus hsums)

/-- One segment of 18 bytes. -/
theorem short_segment_seenWhole : SeenWhole [⟨0x1000, 18⟩] :=
  (seenWhole_iff [⟨0x1000, 18⟩] (by decide)).mpr (.inl (by decide))

/-- A jump to a segment of 3000 bytes, which is not looked at. -/
theorem long_segment_not_seenWhole : ¬ SeenWhole [⟨0x1000, 18⟩, ⟨0x4000, 3000⟩] := by
  intro h
  have hsum := calcChecksum_ne_zero (show [_, ⟨0x4000, 3000⟩].length ≤ maxRun + 1 by decide)
    (mem_cons_self (a := ⟨0x1000, 18⟩)) (by decide) (by decide)
  obtain ⟨t, hgood⟩ := dormant_good hsum
  exact absurd (h _ 1 0 ones _ t rfl rfl rfl hgood ⟨0x4000, 3000⟩ (by decide)) (by decide)

end Aranym.Jit.Blocks
