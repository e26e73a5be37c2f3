import Aranym.Ikbd.Status
import Aranym.Lib.Ring

/-!
# The queue as a list

What the guest has not read yet, from the oldest byte on.
-/

namespace Aranym.Ikbd

open Aranym.Lib BitVec Function

/-- A byte behind the others. If there is no room for it, what its first byte says is removed from the front. -/
def enqueue (q : List (BitVec 8)) (v : BitVec 8) : List (BitVec 8) :=
  if q.length < 8191 then q ++ [v] else (q ++ [v]).drop (packetLen ((q ++ [v]).headD 0))

namespace State

variable {s : State} {n : Nat}

def unread (s : State) : List (BitVec 8) := Ring.contents s.inbuffer s.inread (s.inwrite - s.inread).toNat

theorem length_unread (s : State) : s.unread.length = (s.inwrite - s.inread).toNat := Ring.length_contents _ _ _

theorem unread_eq (h : n < 8192) (hw : s.inwrite = s.inread + BitVec.ofNat 13 n) :
    s.unread = Ring.contents s.inbuffer s.inread n := by
  rw [unread, hw, BitVec.add_comm, BitVec.add_sub_cancel, toNat_ofNat, Nat.mod_eq_of_lt h]

theorem inwrite_eq (s : State) : s.inwrite = s.inread + BitVec.ofNat 13 s.unread.length := by
  rw [length_unread, ofNat_toNat, setWidth_eq, BitVec.add_comm, BitVec.sub_add_cancel]

theorem length_unread_lt (s : State) : s.unread.length < 8192 := by
  rw [length_unread]
  exact BitVec.isLt _

theorem unread_eq_nil : s.unread = [] ↔ s.inread = s.inwrite := by
  constructor
  · intro h; have hw := s.inwrite_eq; rw [h, List.length_nil] at hw; exact (hw.trans (BitVec.add_zero _)).symm
  · intro h; rw [unread, h, BitVec.sub_self]; rfl

/-! ## Sending -/

theorem send_eq (s : State) (v : BitVec 8) : ∃ sr mfp inread cleanups, s.send v = { s with
      inbuffer := update s.inbuffer s.inwrite v, inwrite := s.inwrite + 1, sr := sr, mfp := mfp
      inread := inread, cleanups := cleanups } := by
  unfold send cleanup
  dsimp only
  split <;> (obtain ⟨sr, mfp, heq, -⟩ := throwInterrupt_eq _; exact ⟨sr, mfp, _, _, heq⟩)

theorem unread_throwInterrupt (s : State) (sr : BitVec 8) :
    (throwInterrupt { s with sr := sr }).unread = s.unread ∧
      (throwInterrupt { s with sr := sr }).cleanups = s.cleanups := by
  obtain ⟨sr', mfp, heq, -⟩ := throwInterrupt_eq { s with sr := sr }
  rw [heq]
  exact ⟨rfl, rfl⟩

theorem written (s : State) (v : BitVec 8) :
    Ring.contents (update s.inbuffer s.inwrite v) s.inread (s.unread.length + 1) = s.unread ++ [v] := by
  rw [s.inwrite_eq, Ring.contents_write s.length_unread_lt, length_unread]
  rfl

theorem unread_send (s : State) (v : BitVec 8) : (s.send v).unread = enqueue s.unread v ∧
    (s.send v).cleanups = s.cleanups + if s.unread.length < 8191 then 0 else 1 := by
  have hlt := s.length_unread_lt
  have hw : s.inwrite + 1 = s.inread + BitVec.ofNat 13 (s.unread.length + 1) := by
    rw [Ring.add_ofNat_succ, s.inwrite_eq]; exact add_right_comm ..
  have hwritten := s.written v
  unfold send
  dsimp only
  obtain ⟨hunread, hcleanups⟩ := unread_throwInterrupt
    (cleanup { s with inbuffer := update s.inbuffer s.inwrite v, inwrite := s.inwrite + 1 }) _
  rw [hunread, hcleanups]
  unfold cleanup enqueue
  dsimp only
  by_cases hroom : s.unread.length < 8191
  · have hne : s.inread ≠ s.inwrite + 1 := by
      intro heq
      have hempty := unread_eq (s := { s with inwrite := s.inread }) (n := s.unread.length + 1) (by omega)
        (heq.trans hw)
      have hlen := congrArg List.length hempty
      rw [Ring.length_contents, length_unread, BitVec.sub_self] at hlen; cases hlen
    rw [if_neg hne, if_pos hroom, if_pos hroom]
    exact ⟨(unread_eq (by omega) hw).trans hwritten, rfl⟩
  · have hfull : s.unread.length + 1 = 8192 := by omega
    have heq : s.inread = s.inwrite + 1 := by rw [hw, hfull]; exact (BitVec.add_zero _).symm
    have hhead : update s.inbuffer s.inwrite v s.inread = (s.unread ++ [v]).headD 0 := by
      rw [← hwritten]; rfl
    rw [if_pos heq, if_neg hroom, if_neg hroom, hhead]
    refine ⟨?_, rfl⟩
    have hk := packetLen_pos_le ((s.unread ++ [v]).headD 0)
    generalize packetLen ((s.unread ++ [v]).headD 0) = k at hk ⊢
    rw [← hwritten, hfull, ← Ring.contents_drop (by omega)]
    refine unread_eq (by omega) ?_
    change s.inwrite + 1 = s.inread + BitVec.ofNat 13 k + BitVec.ofNat 13 (8192 - k)
    rw [BitVec.add_assoc, ← ofNat_add, Nat.add_sub_cancel' (by omega), hw, hfull]

theorem unread_rewind (h : 3 ≤ s.unread.length) : s.unread = { s with inwrite := s.inwrite - 3 }.unread ++
      [s.inbuffer (s.inwrite - 3), s.inbuffer (s.inwrite - 3 + 1), s.inbuffer (s.inwrite - 3 + 2)] := by
  have hlt := s.length_unread_lt
  obtain ⟨k, hk⟩ := Nat.exists_eq_add_of_le' h
  have hback : s.inwrite - 3 = s.inread + BitVec.ofNat 13 k := by
    rw [s.inwrite_eq, hk, ofNat_add, ← BitVec.add_assoc]; exact BitVec.add_sub_cancel _ _
  have hcut : { s with inwrite := s.inwrite - 3 }.unread = Ring.contents s.inbuffer s.inread k :=
    unread_eq (by omega) hback
  have hthree : ∀ r : BitVec 13, Ring.contents s.inbuffer r 3 = [s.inbuffer r, s.inbuffer (r + 1), s.inbuffer (r + 2)] :=
    fun r => by
      rw [Ring.contents, Ring.contents, Ring.contents, Ring.contents, BitVec.add_assoc]; rfl
  rw [unread_eq hlt s.inwrite_eq, hk, Ring.contents_add, hthree, ← hback, hcut]

/-! ## Reading -/

theorem readData_eq (s : State) : ∃ sr mfp rxdr inread, s.readData.2 =
    { s with sr := sr, mfp := mfp, rxdr := rxdr, inread := inread } := by
  unfold readData
  dsimp only
  split_ifs
  · exact ⟨s.sr, s.mfp, s.rxdr, s.inread, rfl⟩
  · exact ⟨_, _, _, _, rfl⟩
  · obtain ⟨sr, mfp, heq, -⟩ := throwInterrupt_eq { s.pop with sr := s.pop.sr ||| srRxfull }
    exact ⟨sr, mfp, _, _, heq⟩

theorem readData_of_cons {b q} (h : s.unread = b :: q) : s.readData.1 = b ∧ s.readData.2.unread = q := by
  have hne : s.inread ≠ s.inwrite := fun heq => by
    rw [unread_eq_nil.mpr heq] at h; cases h
  have hlen : s.unread.length = q.length + 1 := congrArg List.length h
  have hcons : Ring.contents s.inbuffer s.inread (q.length + 1) = b :: q := by
    rw [← hlen, length_unread]; exact h
  obtain ⟨hb, hq⟩ := List.cons.inj hcons
  have hpop : s.pop.unread = q := by
    refine (unread_eq (s := s.pop) (n := q.length) (by have := s.length_unread_lt; omega) ?_).trans hq
    change s.inwrite = s.inread + 1 + BitVec.ofNat 13 q.length
    rw [← Ring.add_ofNat_succ, ← hlen]; exact s.inwrite_eq
  unfold readData
  dsimp only
  rw [if_neg hne]
  split
  · exact ⟨hb, hpop⟩
  · exact ⟨hb, (unread_throwInterrupt s.pop _).1.trans hpop⟩

end State

end Aranym.Ikbd
