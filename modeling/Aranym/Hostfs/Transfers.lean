import Mathlib.Algebra.Group.Nat.Defs
import Aranym.Lib.Run

/-!
# Reading and writing files

`xfs_dev_read` and `xfs_dev_write` ask the host for pieces of a buffer until all is done, nothing more comes, or a
call fails.

Source: `hostfs.cpp`.
-/

namespace Aranym.Hostfs

/-- Guest memory, a host file and its position. -/
structure Xfer where
  mem : BitVec 32 → BitVec 8
  file : Nat → BitVec 8
  pos : Nat

def Xfer.move (write : Bool) (buff : BitVec 32) (n : Nat) (x : Xfer) : Xfer where
  mem := if write then x.mem
    else fun a => if (a - buff).toNat < n then x.file (x.pos + (a - buff).toNat) else x.mem a
  file := if write then
      fun q => if x.pos ≤ q ∧ q < x.pos + n then x.mem (buff + BitVec.ofNat 32 (q - x.pos)) else x.file q
    else x.file
  pos := x.pos + n

def frdwrBufferLength : Nat := 8192

def piece (left : Nat) (r : Int) : Nat := min r.toNat (min left frdwrBufferLength)

/-- The loop, with what the calls of the host return. After these the end of the file is met. -/
def devLoop (write : Bool) : List Int → Int → Nat → BitVec 32 → Xfer → Int × Nat × Xfer
  | [], last, left, _, x => (if left = 0 then last else 0, left, x)
  | r :: rs, last, left, buff, x =>
    if left = 0 then (last, left, x)
    else if r ≤ 0 then (r, left, x)
    else devLoop write rs r (left - piece left r) (buff + BitVec.ofNat 32 (piece left r)) (x.move write buff (piece left r))

/-- `err` is what `errnoHost2Mint` gives. -/
def xfsDev (write : Bool) (err : Int) (results : List Int) (buffer : BitVec 32) (count : Nat) (x : Xfer) : Int × Xfer :=
  let r := devLoop write results 0 count buffer x
  (if r.1 < 0 then err else count - r.2.1, r.2.2)

def xfsDevRead := xfsDev false

def xfsDevWrite := xfsDev true

/-- The first bytes are transferred, as many as the call reports, and none if it reports an error. -/
def Reported (write : Bool) (buffer : BitVec 32) (x : Xfer) (r : Int × Xfer) : Prop :=
  (0 ≤ r.1 → r.2 = x.move write buffer r.1.toNat) ∧ (r.1 < 0 → r.2 = x)

/-- A call of the host fails before there are `count` bytes. -/
def fails (count : Nat) : List Int → Nat → Prop
  | [], _ => False
  | r :: rs, d => d < count ∧ (r < 0 ∨ 0 < r ∧ fails count rs (d + piece (count - d) r))

variable {write : Bool} {buff : BitVec 32} {x : Xfer} {count d : Nat} {results : List Int} {last err : Int}
  {o : Int × Nat × Xfer}

theorem Xfer.move_zero : x.move write buff 0 = x := by
  have hnone : ∀ q, ¬ (x.pos ≤ q ∧ q < x.pos) := by omega
  cases write <;> simp [Xfer.move, hnone]

theorem Xfer.move_move {m n} (h : m + n < 2 ^ 32) :
    (x.move write buff m).move write (buff + BitVec.ofNat 32 m) n = x.move write buff (m + n) := by
  simp only [Xfer.move, mk.injEq, Nat.add_assoc, and_true]
  cases write
  · refine ⟨funext fun a => ?_, rfl⟩
    have hsub : (a - (buff + BitVec.ofNat 32 m)).toNat =
        if (a - buff).toNat < m then (a - buff).toNat + 2 ^ 32 - m else (a - buff).toNat - m := by split <;> bv_omega
    have := (a - buff).isLt
    simp only [Bool.false_eq_true, if_false, hsub]
    split_ifs <;> first | rfl | omega | (congr 1; omega)
  · refine ⟨rfl, funext fun q => ?_⟩
    simp only [if_true]
    split_ifs <;> first | rfl | omega | skip
    rw [BitVec.add_assoc, ← BitVec.ofNat_add]; congr 3; omega

theorem piece_le (left : Nat) (r : Int) : piece left r ≤ left := Nat.le_trans (Nat.min_le_right ..) (Nat.min_le_left ..)

theorem devLoop_spec (hcount : count < 2 ^ 32) (hd : d ≤ count) (hlast : 0 ≤ last) (ho : devLoop write results last
      (count - d) (buff + BitVec.ofNat 32 d) (x.move write buff d) = o) :
    o.2.2 = x.move write buff (count - o.2.1) ∧ o.2.1 ≤ count - d ∧ (o.1 < 0 ↔ fails count results d) := by
  induction results generalizing d last with
  | nil =>
    subst ho
    simp only [devLoop, Nat.sub_sub_self hd, Nat.le_refl, true_and]
    exact iff_of_false (by split <;> omega) id
  | cons r rs ih =>
    rw [devLoop] at ho
    split_ifs at ho with hleft hr
    · subst ho
      simp only [Nat.sub_sub_self hd, Nat.le_refl, true_and, fails]
      exact iff_of_false (by omega) fun h => by omega
    · subst ho
      simp only [Nat.sub_sub_self hd, Nat.le_refl, true_and, fails]
      exact ⟨fun h => ⟨by omega, .inl h⟩, fun h => h.2.resolve_right fun h => by omega⟩
    · have hle := piece_le (count - d) r
      rw [BitVec.add_assoc, ← BitVec.ofNat_add, Xfer.move_move (by omega), Nat.sub_sub] at ho
      obtain ⟨hstate, hleft', hfails⟩ := ih (by omega) (by omega) ho
      refine ⟨hstate, by omega, hfails.trans ⟨fun h => ⟨by omega, .inr ⟨by omega, h⟩⟩, fun h => ?_⟩⟩
      exact (h.2.resolve_left (by omega)).2

theorem devLoop_start (hcount : count < 2 ^ 32) (ho : devLoop write results 0 count buff x = o) :
    o.2.2 = x.move write buff (count - o.2.1) ∧ o.2.1 ≤ count ∧ (o.1 < 0 ↔ fails count results 0) := by
  refine devLoop_spec hcount (Nat.zero_le count) (Int.le_refl 0) ?_
  rwa [Xfer.move_zero, show buff + BitVec.ofNat 32 0 = buff from BitVec.add_zero _]

/-- After a failure the state is as before exactly if it was the first call that failed. -/
theorem devLoop_first (hcount : count < 2 ^ 32) (h : fails count results 0)
    (ho : devLoop write results 0 count buff x = o) : o.2.2 = x ↔ ∃ r ∈ results.head?, r < 0 := by
  cases results with
  | nil => exact h.elim
  | cons r rs =>
    obtain ⟨hpos, hr⟩ := h
    rw [devLoop, if_neg (by omega)] at ho
    split_ifs at ho with hle
    · subst ho; exact iff_of_true rfl ⟨r, rfl, by omega⟩
    · have hn : 0 < piece count r := by unfold piece frdwrBufferLength; omega
      obtain ⟨hstate, hleft, -⟩ := devLoop_spec hcount (piece_le ..) (by omega) ho
      refine iff_of_false (fun hsame => ?_) ?_
      · have hmoved := congrArg Xfer.pos (hstate.symm.trans hsame)
        have := piece_le count r
        simp only [Xfer.move] at hmoved; omega
      · rintro ⟨_, ⟨⟩, h⟩; omega

theorem reported_iff (herr : err < 0) (hcount : count < 2 ^ 31) :
    Reported write buff x (xfsDev write err results buff count x) ↔
      (fails count results 0 → ∃ r ∈ results.head?, r < 0) := by
  unfold Reported xfsDev
  generalize ho : devLoop write results 0 count buff x = o
  obtain ⟨hstate, hleft, hfails⟩ := devLoop_start (by omega) ho
  dsimp only
  split_ifs with hneg
  · rw [imp_iff_right (hfails.mp hneg), ← devLoop_first (by omega) (hfails.mp hneg) ho, imp_iff_right herr]
    exact and_iff_right fun h => absurd h (by omega)
  · rw [hfails] at hneg
    refine iff_of_true ⟨fun _ => ?_, fun h => by omega⟩ fun h => absurd h hneg
    rw [← Int.ofNat_sub hleft]; exact hstate

/-- A transfer is reported right exactly if no call fails but the first. -/
theorem transfer_reported_iff (err : Int) (herr : err < 0) (results : List Int) (buffer : BitVec 32) (count : Nat)
    (hcount : count < 2 ^ 31) (x : Xfer) :
    (Reported false buffer x (xfsDevRead err results buffer count x) ↔
      (fails count results 0 → ∃ r ∈ results.head?, r < 0)) ∧
    (Reported true buffer x (xfsDevWrite err results buffer count x) ↔
      (fails count results 0 → ∃ r ∈ results.head?, r < 0)) :=
  ⟨reported_iff herr hcount, reported_iff herr hcount⟩

theorem short_read_reported : Reported false 0x1000 ⟨fun _ => 0, fun _ => 7, 0⟩
    (xfsDevRead (-1) [2] 0x1000 4 ⟨fun _ => 0, fun _ => 7, 0⟩) :=
  (transfer_reported_iff (-1) (by decide) [2] _ 4 (by decide) _).1.mpr fun h => by simp [fails] at h

theorem late_error_not_reported : ¬ Reported false 0x1000 ⟨fun _ => 0, fun _ => 7, 0⟩
    (xfsDevRead (-1) [2, -1] 0x1000 4 ⟨fun _ => 0, fun _ => 7, 0⟩) :=
  fun h => absurd (congrArg Xfer.pos (h.2 (by decide))) (by decide)

end Aranym.Hostfs
