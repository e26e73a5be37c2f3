import Aranym.Ikbd.Defs
import Aranym.Lib.Run

/-!
# The receive status

The bit for a full receiver belongs to the ACIA and the queue to the keyboard: each of the two resets touches one
of them.
-/

namespace Aranym.Ikbd

open Aranym.Lib

variable (inbuffer : BitVec 13 → BitVec 8) (mfp : Mfp.State) (s : State)

/-- What changes the state of the keyboard's interface. -/
inductive Access
  | send (value : BitVec 8)
  | readData
  | writeControl (value : BitVec 8)
  | reset

def Access.run : Access → State
  | .send value => s.send value
  | .readData => s.readData.2
  | .writeControl value => s.writeControl value
  | .reset => s.reset

namespace State

/-- The bit is set exactly when there is something to read. -/
def Truthful : Prop := s.sr.getLsbD 0 = true ↔ s.inread ≠ s.inwrite

/-- The state after the constructors, with a buffer and an MFP in any state. -/
def created : State :=
  (aciaReset ⟨inbuffer, 0, 0, .unknown, false, false, fun _ => false, fun _ => 0, 0, 0, 0, 0, mfp, 0⟩).reset

theorem truthful_created : (created inbuffer mfp).Truthful :=
  show (srTxempty.getLsbD 0 = true ↔ (0 : BitVec 13) ≠ 0) by decide

theorem throwInterrupt_eq : ∃ sr mfp, s.throwInterrupt = { s with sr := sr, mfp := mfp } ∧
    sr.getLsbD 0 = s.sr.getLsbD 0 := by
  have hor : (s.sr ||| srInterrupt).getLsbD 0 = s.sr.getLsbD 0 := by
    rw [BitVec.getLsbD_or, show srInterrupt.getLsbD 0 = false from rfl, Bool.or_false]
  unfold throwInterrupt
  dsimp only
  split_ifs
  · exact ⟨s.sr, s.mfp, rfl, rfl⟩
  · exact ⟨s.sr ||| srInterrupt, s.mfp, rfl, hor⟩
  · exact ⟨s.sr ||| srInterrupt, _, rfl, hor⟩

theorem packetLen_pos_le (c : BitVec 8) : 1 ≤ packetLen c ∧ packetLen c ≤ 8 := by
  unfold packetLen
  split_ifs <;> decide

theorem cleanup_ne : s.cleanup.inread ≠ s.cleanup.inwrite := by
  unfold cleanup
  split
  · next h =>
    obtain ⟨hpos, hle⟩ := packetLen_pos_le (s.inbuffer s.inread)
    intro heq
    have hzero : BitVec.ofNat 13 (packetLen (s.inbuffer s.inread)) = 0 := by
      rw [show s.inwrite = s.inread from h.symm] at heq; simpa using heq
    have hmod := congrArg BitVec.toNat hzero
    rw [BitVec.toNat_ofNat, Nat.mod_eq_of_lt (by omega)] at hmod
    simp only [BitVec.ofNat_eq_ofNat, BitVec.toNat_ofNat, Nat.zero_mod] at hmod; omega
  · next h => exact h

theorem truthful_throwInterrupt {s : State} (h : s.inread ≠ s.inwrite) :
    (throwInterrupt { s with sr := s.sr ||| srRxfull }).Truthful := by
  obtain ⟨sr, mfp, heq, hsr⟩ := throwInterrupt_eq { s with sr := s.sr ||| srRxfull }
  rw [heq]
  refine iff_of_true ?_ h
  rw [hsr, BitVec.getLsbD_or, show srRxfull.getLsbD 0 = true from rfl, Bool.or_true]

theorem truthful_send (value : BitVec 8) : (s.send value).Truthful := by
  unfold send
  dsimp only
  exact truthful_throwInterrupt (cleanup_ne _)

theorem truthful_readData {s : State} (h : s.Truthful) : s.readData.2.Truthful := by
  have hclear : (~~~(srInterrupt ||| srRxfull)).getLsbD 0 = false := rfl
  unfold readData
  dsimp only
  split
  · exact h
  · split
    · next hempty =>
      unfold Truthful
      rw [BitVec.getLsbD_and, hclear, Bool.and_false]
      exact iff_of_false Bool.false_ne_true (not_not.mpr hempty)
    · next hne => exact truthful_throwInterrupt (s := s.pop) hne

end State

/-- Neither of the two resets while there is something to read. -/
def Access.Keeps : Access → Prop
  | .writeControl value => value &&& 3 = 3 → s.inread = s.inwrite
  | .reset => s.inread = s.inwrite
  | _ => True

theorem Access.run_truthful_iff (access : Access) (h : s.Truthful) :
    (access.run s).Truthful ↔ access.Keeps s := by
  cases access with
  | send value => exact iff_of_true (s.truthful_send value) trivial
  | readData => exact iff_of_true (State.truthful_readData h) trivial
  | writeControl value =>
    by_cases hreset : value &&& 3 = 3
    · rw [run, State.writeControl, if_pos hreset]
      change (srTxempty.getLsbD 0 = true ↔ s.inread ≠ s.inwrite) ↔ (value &&& 3 = 3 → s.inread = s.inwrite)
      simp only [show srTxempty.getLsbD 0 = false from rfl, Bool.false_eq_true, false_iff, not_not, hreset,
        forall_const]
    · rw [run, State.writeControl, if_neg hreset]; exact iff_of_true h fun h3 => absurd h3 hreset
  | reset =>
    have hclear : (s.sr.getLsbD 0 = false) ↔ s.inread = s.inwrite := by
      unfold State.Truthful at h
      rw [← Bool.not_eq_true, h, not_not]
    change (s.sr.getLsbD 0 = true ↔ (0 : BitVec 13) ≠ 0) ↔ s.inread = s.inwrite; simpa using hclear

/-- The status is right throughout a run exactly if nothing is reset while the queue has bytes. -/
theorem status_truthful_iff (accesses : List Access) :
    (∀ pre post, accesses = pre ++ post → (pre.foldl Access.run (.created inbuffer mfp)).Truthful) ↔
      ∀ pre access post, accesses = pre ++ access :: post →
        access.Keeps (pre.foldl Access.run (.created inbuffer mfp)) :=
  foldl_invariant_iff (State.truthful_created inbuffer mfp) Access.run_truthful_iff accesses

/-- A master reset of the ACIA, or a reset of the keyboard, after one byte. -/
theorem status_not_truthful : ∃ s : State, (∃ inbuffer mfp, s = .created inbuffer mfp) ∧
    ¬ ([.send 0x1e, .writeControl 3].foldl Access.run s).Truthful ∧
      ¬ ([.send 0x1e, .reset].foldl Access.run s).Truthful := by
  let mfp : Mfp.State := ⟨0, 0, 0, 0, 0, 0, 0, 0, .reset, .reset, .reset, .reset, 0, 0, false⟩
  refine ⟨.created (fun _ => 0) mfp, ⟨_, _, rfl⟩, ?_⟩
  have hsent : ((State.created (fun _ => 0) mfp).send 0x1e).Truthful := State.truthful_send _ _
  have hqueue : ((State.created (fun _ => 0) mfp).send 0x1e).inread ≠
      ((State.created (fun _ => 0) mfp).send 0x1e).inwrite := hsent.mp (by decide)
  constructor
  · exact fun h => hqueue ((Access.run_truthful_iff _ (.writeControl 3) hsent).mp h rfl)
  · exact fun h => hqueue ((Access.run_truthful_iff _ .reset hsent).mp h)

end Aranym.Ikbd
