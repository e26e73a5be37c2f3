import Aranym.Ikbd.Lemmas.Queue

/-!
# Packets in the queue

A full queue is relieved of the packet that begins at its front.
-/

namespace Aranym.Ikbd

open Aranym.Lib List

variable (s : State) (inbuffer : BitVec 13 → BitVec 8) (mfp : Mfp.State)

inductive Packet
  | key (scancode : BitVec 8)
  | mouse (buttons : BitVec 32) (x y : BitVec 8)
  | joystick (numjoy : Bool) (state : BitVec 8)
  deriving DecidableEq

variable (p : Packet) (ps : List Packet) (inbuffer : BitVec 13 → BitVec 8) (mfp : Mfp.State)

namespace Packet

def bytes : Packet → List (BitVec 8)
  | key scancode => [scancode]
  | mouse buttons x y => [State.mouseHeader buttons, x, y]
  | joystick numjoy state => [if numjoy then 0xff else 0xfe, state]

def type : Packet → PacketType
  | key _ => .keyboard
  | mouse _ _ _ => .mouse
  | joystick _ _ => .joystick

/-- The scan code is not the first byte of a longer packet. -/
def Single : Packet → Prop
  | key scancode => packetLen scancode = 1
  | _ => True

instance decidableSingle : ∀ p : Packet, Decidable p.Single
  | key scancode => inferInstanceAs (Decidable (packetLen scancode = 1))
  | mouse _ _ _ => isTrue trivial
  | joystick _ _ => isTrue trivial

theorem packetLen_mouseHeader (buttons : BitVec 32) : packetLen (State.mouseHeader buttons) = 3 := by
  unfold State.mouseHeader
  generalize buttons.setWidth 8 = b
  revert b
  decide

theorem Single.bytes_eq {p : Packet} (h : p.Single) : ∃ b rest, p.bytes = b :: rest ∧ packetLen b = rest.length + 1 := by
  cases p with
  | key scancode => exact ⟨_, _, rfl, h⟩
  | mouse buttons x y => exact ⟨_, _, rfl, packetLen_mouseHeader buttons⟩
  | joystick numjoy state => refine ⟨_, _, rfl, ?_⟩; cases numjoy <;> rfl

theorem length_bytes_le : p.bytes.length ≤ 3 := by cases p <;> simp [bytes]

end Packet

/-- `SendKey`, the end of the joystick functions, and the end of a round of `SendMouseMotion`. -/
def State.sendPacket : State := p.bytes.foldl State.send { s with intype := p.type }

def stream : List (BitVec 8) := ps.flatMap Packet.bytes

@[simp] theorem stream_append (qs : List Packet) : stream (ps ++ qs) = stream ps ++ stream qs :=
  flatMap_append

@[simp] theorem stream_cons : stream (p :: ps) = p.bytes ++ stream ps := flatMap_cons

theorem State.unread_foldl_send (bs : List (BitVec 8)) :
    (bs.foldl State.send s).unread = bs.foldl enqueue s.unread := by
  induction bs generalizing s with
  | nil => rfl
  | cons b bs ih => rw [foldl_cons, ih, (s.unread_send b).1, foldl_cons]

theorem State.unread_sendPacket :
    (s.sendPacket p).unread = p.bytes.foldl enqueue s.unread := State.unread_foldl_send _ _

theorem foldl_enqueue_room {q bs : List (BitVec 8)} (h : q.length + bs.length ≤ 8191) :
    bs.foldl enqueue q = q ++ bs := by
  induction bs generalizing q with
  | nil => simp
  | cons b bs ih =>
    rw [length_cons] at h
    rw [foldl_cons, enqueue, if_pos (by omega), ih (by simp; omega)]; simp

theorem foldl_enqueue_stream {ps : List Packet} (hps : ∀ p ∈ ps, p.Single) (front bs : List (BitVec 8))
    (h : front.length + bs.length ≤ 3) :
    ∃ qs, qs.Sublist ps ∧ bs.foldl enqueue (stream ps ++ front) = stream qs ++ (front ++ bs) := by
  induction bs generalizing ps front with
  | nil => exact ⟨ps, .refl _, by simp⟩
  | cons b bs ih =>
    rw [length_cons] at h
    have hnext : ∀ qs : List Packet, qs.Sublist ps → enqueue (stream ps ++ front) b = stream qs ++ (front ++ [b]) →
        ∃ rs, rs.Sublist ps ∧ (b :: bs).foldl enqueue (stream ps ++ front) = stream rs ++ (front ++ b :: bs) := by
      intro qs hqs heq
      obtain ⟨rs, hrs, hfold⟩ := ih (fun p hp => hps p (hqs.subset hp)) (front ++ [b])
        (by simp; omega)
      refine ⟨rs, hrs.trans hqs, ?_⟩
      rw [foldl_cons, heq, hfold]; simp
    by_cases hroom : (stream ps ++ front).length < 8191
    · exact hnext ps (.refl _) (by rw [enqueue, if_pos hroom, append_assoc])
    · cases ps with
      | nil => simp only [stream, flatMap_nil, nil_append] at hroom; omega
      | cons p ps =>
        obtain ⟨c, rest, hbytes, hlen⟩ := (hps p (mem_cons_self ..)).bytes_eq
        refine hnext ps (sublist_cons_self p ps) ?_
        rw [enqueue, if_neg hroom, stream_cons, hbytes]; simp [hlen]

theorem State.intype_foldl_send (bs : List (BitVec 8)) : (bs.foldl State.send s).intype = s.intype := by
  induction bs generalizing s with
  | nil => rfl
  | cons b bs ih => obtain ⟨sr, mfp, inread, cleanups, heq⟩ := s.send_eq b; rw [foldl_cons, ih, heq]

/-! ## One packet of a motion -/

def along (rev : Bool) (movey : Int) : Int := if rev then -movey else movey

theorem sendMousePacket_eq (s : State) (movex movey : Int) (buttons : BitVec 32) :
    s.sendMousePacket movex movey buttons =
      s.sendPacket (.mouse buttons (.ofInt 8 movex) (.ofInt 8 (along s.yaxisReversed movey))) := rfl

theorem mergeMousePacket_cases (s : State) (movex movey : Int) (buttons : BitVec 32) :
    s.mergeMousePacket movex movey buttons = (s, movex, movey) ∨ ∃ x y : BitVec 8, s.intype = .mouse ∧
        s.unread = { s with inwrite := s.inwrite - 3 }.unread ++ [State.mouseHeader buttons, x, y] ∧
        (movex + x.toNat).natAbs ≤ 63 ∧ (movey + y.toNat).natAbs ≤ 63 ∧
        s.mergeMousePacket movex movey buttons =
          ({ s with inwrite := s.inwrite - 3 }, movex + x.toNat, movey + y.toNat) := by
  unfold State.mergeMousePacket
  dsimp only
  split_ifs with hkind hread hheader hfar
  · exact .inl rfl
  · exact .inl rfl
  · exact .inl rfl
  · exact .inl rfl
  · rw [not_or, not_not] at hkind
    have hlong : 3 ≤ s.unread.length := by
      have hw := s.inwrite_eq
      by_contra hshort
      rcases (by omega : s.unread.length = 0 ∨ s.unread.length = 1 ∨ s.unread.length = 2) with hn | hn | hn
      · exact hkind.2 (State.unread_eq_nil.mp (length_eq_zero_iff.mp hn))
      · rw [hn] at hw; exact hread (.inr (.inr (by rw [hw]; bv_omega)))
      · rw [hn] at hw; exact hread (.inr (.inl (by rw [hw]; bv_omega)))
    refine .inr ⟨_, _, hkind.1, ?_, ?_, ?_, rfl⟩
    · rw [← not_not.mp hheader]; exact State.unread_rewind hlong
    · exact not_lt.mp (not_or.mp hfar).1
    · exact not_lt.mp (not_or.mp hfar).2

/-! ## The guest -/

/-- What was sent and what the guest has read; `left` is what is missing from the packet it reads, by the first byte
of it. -/
structure Guest where
  ikbd : State
  sent : List Packet
  got : List (BitVec 8)
  left : Nat

/-- What happens to the buffer: packets, rounds of motion and reads of the guest. -/
inductive Event
  | packet (p : Packet)
  /-- A round of `SendMouseMotion`. -/
  | motion (movex movey : Int) (buttons : BitVec 32)
  | readData

def Guest.send (g : Guest) (p : Packet) : Guest := { g with ikbd := g.ikbd.sendPacket p, sent := g.sent ++ [p] }

/-- A packet that is merged takes the place of the last one. -/
def Guest.merge (g : Guest) (movex movey : Int) (buttons : BitVec 32) : Guest × Packet :=
  let (t, movex, movey) := g.ikbd.mergeMousePacket movex movey buttons
  ({ g with ikbd := t, sent := if t.inwrite = g.ikbd.inwrite then g.sent else g.sent.dropLast },
    .mouse buttons (.ofInt 8 movex) (.ofInt 8 (along t.yaxisReversed movey)))

def Event.run (g : Guest) : Event → Guest
  | .packet p => g.send p
  | .motion movex movey buttons => (g.merge movex movey buttons).1.send (g.merge movex movey buttons).2
  | .readData =>
    -- an empty queue gives the last byte again
    if g.ikbd.inread = g.ikbd.inwrite then { g with ikbd := g.ikbd.readData.2 }
    else
      let b := g.ikbd.readData.1
      { g with
        ikbd := g.ikbd.readData.2, got := g.got ++ [b]
        left := if g.left = 0 then packetLen b - 1 else g.left - 1 }

namespace Guest

/-- What the guest reads is whole packets: of the sent ones some are missing, but none in part. -/
def Framed (g : Guest) : Prop := ∃ ps : List Packet, ps.Sublist g.sent ∧ g.got ++ g.ikbd.unread = stream ps

theorem ikbd_motion (g : Guest) (movex movey : Int) (buttons : BitVec 32) :
    ((Event.motion movex movey buttons).run g).ikbd = g.ikbd.sendMotionPart movex movey buttons false := rfl

def Fits (g : Guest) (p : Packet) : Prop := g.ikbd.unread.length + p.bytes.length ≤ 8191 ∨ g.left = 0

instance (g : Guest) (p : Packet) : Decidable (g.Fits p) := inferInstanceAs (Decidable (_ ∨ _))

/-- The packet is one the keyboard sends, and the buffer has room for it. -/
def Safe (g : Guest) : Event → Prop
  | .packet p => p.Single ∧ g.Fits p
  | .motion movex movey buttons => (g.merge movex movey buttons).1.Fits (g.merge movex movey buttons).2
  | .readData => True

instance decidableSafe (g : Guest) : ∀ e : Event, Decidable (g.Safe e)
  | .packet p => inferInstanceAs (Decidable (p.Single ∧ g.Fits p))
  | .motion movex movey buttons =>
    inferInstanceAs (Decidable ((g.merge movex movey buttons).1.Fits (g.merge movex movey buttons).2))
  | .readData => isTrue trivial

structure Split (g : Guest) (begun waiting : List Packet) (rest : List (BitVec 8)) : Prop where
  sublist : (begun ++ waiting).Sublist g.sent
  single : ∀ p ∈ g.sent, p.Single
  got : g.got ++ rest = stream begun
  unread : g.ikbd.unread = rest ++ stream waiting
  left : rest.length = g.left
  short : rest.length < 3

variable {g : Guest} {begun waiting : List Packet} {rest : List (BitVec 8)}

theorem Split.framed (h : g.Split begun waiting rest) : g.Framed :=
  ⟨begun ++ waiting, h.sublist, by rw [h.unread, ← append_assoc, h.got, stream_append]⟩

theorem Split.send (h : g.Split begun waiting rest) {p : Packet} (hsingle : p.Single) (hsafe : g.Fits p) :
    ∃ qs, (g.send p).Split begun (qs ++ [p]) rest := by
  have hall : ∀ q ∈ g.sent ++ [p], q.Single := fun q hq => by
    rcases mem_append.mp hq with hq | hq
    · exact h.single q hq
    · rwa [mem_singleton.mp hq]
  have hunread : (g.send p).ikbd.unread = p.bytes.foldl enqueue g.ikbd.unread := g.ikbd.unread_sendPacket p
  have hsplit : ∀ qs : List Packet, qs.Sublist waiting →
      p.bytes.foldl enqueue g.ikbd.unread = rest ++ (stream qs ++ p.bytes) →
      ∃ qs, (g.send p).Split begun (qs ++ [p]) rest := by
    intro qs hqs heq
    refine ⟨qs, ?_, hall, h.got, ?_, h.left, h.short⟩
    · rw [← append_assoc]; exact ((hqs.append_left begun).trans h.sublist).append_right [p]
    · rw [hunread, heq, stream_append]; simp [stream]
  rcases hsafe with hroom | hleft
  · refine hsplit waiting (.refl _) ?_; rw [foldl_enqueue_room hroom, h.unread, append_assoc]
  · have hrest : rest = [] := length_eq_zero_iff.mp (h.left.trans hleft)
    have hwaiting : ∀ q ∈ waiting, q.Single := fun q hq =>
      h.single q (h.sublist.subset (mem_append_right _ hq))
    obtain ⟨qs, hqs, heq⟩ := foldl_enqueue_stream hwaiting [] p.bytes
      (by simpa using p.length_bytes_le)
    refine hsplit qs hqs ?_
    rw [h.unread, hrest]; simpa using heq

theorem Split.readData (h : g.Split begun waiting rest) : ∃ begun' waiting' rest',
    (Event.readData.run g).Split begun' waiting' rest' ∧ begun' ++ waiting' = begun ++ waiting := by
  unfold Event.run
  dsimp only
  split
  · next hempty =>
    have hsame : g.ikbd.readData.2 = g.ikbd := by rw [State.readData, if_pos hempty]
    exact ⟨begun, waiting, rest, by rw [hsame]; exact h, rfl⟩
  · next hne =>
    cases rest with
    | nil =>
      have hleft : g.left = 0 := h.left.symm
      cases waiting with
      | nil => exact absurd (State.unread_eq_nil.mp h.unread) hne
      | cons p waiting =>
        have hp : p ∈ g.sent := h.sublist.subset (mem_append_right _ (mem_cons_self ..))
        obtain ⟨b, rest, hbytes, hlen⟩ := (h.single p hp).bytes_eq
        have hunread : g.ikbd.unread = b :: (rest ++ stream waiting) := by
          rw [h.unread, stream_cons, hbytes]; rfl
        obtain ⟨hb, hq⟩ := State.readData_of_cons hunread
        have hgot : g.got = stream begun := by simpa using h.got
        have hshort := p.length_bytes_le
        rw [hbytes, length_cons] at hshort
        refine ⟨begun ++ [p], waiting, rest, ⟨?_, h.single, ?_, hq, ?_, by omega⟩, by simp⟩
        · simpa using h.sublist
        · simp [hb, hgot, hbytes, stream]
        · simp [hleft, hb, hlen]
    | cons b rest =>
      have hleft : rest.length + 1 = g.left := h.left
      obtain ⟨hb, hq⟩ := State.readData_of_cons h.unread
      refine ⟨begun, waiting, rest, ⟨h.sublist, h.single, ?_, hq, ?_, Nat.lt_of_succ_lt h.short⟩, rfl⟩
      · simpa [hb] using h.got
      · change rest.length = if g.left = 0 then _ else g.left - 1; rw [if_neg (by omega)]; omega

/-- The packet that was sent last is not lost, and `intype` tells what it is. -/
structure Whole (g : Guest) (begun waiting : List Packet) (rest : List (BitVec 8)) : Prop extends
    g.Split begun waiting rest where
  last : (begun ++ waiting).getLast? = g.sent.getLast?
  intype : g.ikbd.intype = (g.sent.getLast?.map Packet.type).getD .unknown

theorem Split.whole_send (h : g.Split begun waiting rest) {p : Packet} (hsingle : p.Single) (hsafe : g.Fits p) :
    ∃ waiting', (g.send p).Whole begun waiting' rest := by
  obtain ⟨qs, h'⟩ := h.send hsingle hsafe
  exact ⟨qs ++ [p], h', by simp [Guest.send, ← append_assoc],
    by simp [Guest.send, State.sendPacket, State.intype_foldl_send]⟩

/-- The packet that the motion is merged with has been sent last, and the guest has not come to it. -/
theorem Whole.merge (h : g.Whole begun waiting rest) (movex movey : Int) (buttons : BitVec 32) :
    ∃ waiting', (g.merge movex movey buttons).1.Split begun waiting' rest := by
  unfold Guest.merge
  rcases mergeMousePacket_cases g.ikbd movex movey buttons with hsame | ⟨x, y, hmouse, hunread, -, -, heq⟩
  · rw [hsame]; exact ⟨waiting, by simpa using h.toSplit⟩
  · have hne : g.ikbd.inwrite - 3 ≠ g.ikbd.inwrite := by bv_omega
    rw [heq]
    simp only [if_neg hne]
    have hintype := h.intype
    rw [hmouse] at hintype
    cases hlast : g.sent.getLast? with
    | none => rw [hlast] at hintype; cases hintype
    | some p =>
      obtain ⟨sent, hsent⟩ := getLast?_eq_some_iff.mp hlast
      have hp : p.bytes.length = 3 := by rw [hlast] at hintype; cases p <;> first | rfl | cases hintype
      have hshort := h.short
      rcases eq_nil_or_concat waiting with rfl | ⟨qs, q, rfl⟩
      · have hlen := congrArg List.length (h.unread.symm.trans hunread)
        simp [stream] at hlen
        omega
      · obtain rfl : q = p := by simpa [← append_assoc, hlast] using h.last
        have hcut := h.unread.symm.trans hunread
        rw [concat_eq_append, stream_append, ← append_assoc] at hcut
        obtain ⟨hqs, -⟩ := append_inj' hcut (by simpa [stream] using hp)
        refine ⟨qs, ?_, fun r hr => h.single r (mem_of_mem_dropLast hr), h.got, hqs.symm, h.left, h.short⟩
        have hsub := h.sublist
        rw [concat_eq_append, ← append_assoc, hsent] at hsub
        rw [hsent, dropLast_concat]
        exact (append_sublist_append_right _).mp hsub

theorem whole_run (g : Guest) (e : Event) (hsafe : g.Safe e) (h : ∃ begun waiting rest, g.Whole begun waiting rest) :
    ∃ begun waiting rest, (e.run g).Whole begun waiting rest := by
  obtain ⟨begun, waiting, rest, h⟩ := h
  cases e with
  | packet p => obtain ⟨waiting', h'⟩ := h.whole_send hsafe.1 hsafe.2; exact ⟨begun, waiting', rest, h'⟩
  | motion movex movey buttons =>
    obtain ⟨waiting', hmerged⟩ := h.merge movex movey buttons
    obtain ⟨waiting'', h'⟩ := hmerged.whole_send (p := (g.merge movex movey buttons).2) trivial hsafe
    exact ⟨begun, waiting'', rest, h'⟩
  | readData =>
    obtain ⟨begun', waiting', rest', h', hsame⟩ := h.readData
    have hrun : (Event.readData.run g).sent = g.sent ∧ (Event.readData.run g).ikbd.intype = g.ikbd.intype := by
      obtain ⟨sr, mfp, rxdr, inread, heq⟩ := g.ikbd.readData_eq
      unfold Event.run
      dsimp only
      split <;> simp [heq]
    exact ⟨begun', waiting', rest', h', by rw [hsame, hrun.1]; exact h.last, by rw [hrun.1, hrun.2]; exact h.intype⟩

/-- The keyboard when it is created; the guest has read nothing. -/
def start : Guest := ⟨.created inbuffer mfp, [], [], 0⟩

theorem unread_start : (start inbuffer mfp).ikbd.unread = [] := State.unread_eq_nil.mpr rfl

end Guest

/-- The guest reads whole packets as long as the queue is only cleaned up while it is between two packets. -/
theorem packets_framed (pre post : List Event)
    (hsafe : Each Event.run Guest.Safe (.start inbuffer mfp) (pre ++ post)) :
    (pre.foldl Event.run (.start inbuffer mfp)).Framed := by
  have hstart : (Guest.start inbuffer mfp).Whole [] [] [] :=
    ⟨⟨nil_sublist _, fun _ hp => absurd hp not_mem_nil, rfl, Guest.unread_start inbuffer mfp, rfl, by decide⟩, rfl, rfl⟩
  obtain ⟨begun, waiting, rest, h⟩ := hsafe.invariant Guest.whole_run ⟨_, _, _, hstart⟩
  exact h.framed

theorem packets_framed_two :
    ([.packet (.mouse 0 5 7), .readData, .motion 3 4 0, .motion 5 6 0, .packet (.key 0x1e)].foldl Event.run
      (.start (fun _ => 0) (.reset ⟨0, 0, 0, 0, 0, 0, 0, 0, .reset, .reset, .reset, .reset, 0, 0, false⟩))).Framed :=
  packets_framed _ _ _ [] (by decide)

/-! ## A packet in part -/

theorem unread_packets (g : Guest) (h : g.ikbd.unread.length + (stream ps).length ≤ 8191) :
    ((ps.map Event.packet).foldl Event.run g).ikbd.unread = g.ikbd.unread ++ stream ps ∧
      ((ps.map Event.packet).foldl Event.run g).got = g.got ∧
      ((ps.map Event.packet).foldl Event.run g).sent = g.sent ++ ps := by
  induction ps generalizing g with
  | nil => simp [stream]
  | cons p ps ih =>
    rw [stream_cons, length_append] at h
    have hunread : ((Event.packet p).run g).ikbd.unread = g.ikbd.unread ++ p.bytes :=
      (g.ikbd.unread_sendPacket p).trans (foldl_enqueue_room (by omega))
    obtain ⟨hq, hgot, hsent⟩ := ih ((Event.packet p).run g) (by rw [hunread, length_append]; omega)
    rw [map_cons, foldl_cons]
    refine ⟨?_, hgot, ?_⟩
    · rw [hq, hunread, stream_cons, append_assoc]
    · rw [hsent]; simp [Event.run, Guest.send]

/-- The second byte of a packet is taken for a packet, and its third one stays. -/
theorem not_framed_of_part {g rest} (hq : g.ikbd.unread = 0xf8 :: 5 :: 7 :: rest)
    (hlen : rest.length = 8187) (hgot : g.got = []) (hsent : ∀ p ∈ g.sent, p = .mouse 0 5 7) :
    ¬ ([.readData, .packet (.key 1), .packet (.key 1), .packet (.key 1)].foldl Event.run g).Framed := by
  obtain ⟨hb, hread⟩ := State.readData_of_cons hq
  have hne : g.ikbd.inread ≠ g.ikbd.inwrite := fun h => by
    rw [State.unread_eq_nil.mpr h] at hq; cases hq
  have hrun : ∃ g₁ : Guest, Event.readData.run g = g₁ ∧ g₁.got = [0xf8] ∧ g₁.ikbd.unread = 5 :: 7 :: rest ∧
      g₁.sent = g.sent := ⟨_, if_neg hne, by simp [hgot, hb], hread, rfl⟩
  obtain ⟨g₁, hg₁, hgot₁, hread₁, hsent₁⟩ := hrun
  obtain ⟨hq₂, hgot₂, hsent₂⟩ := unread_packets [.key 1, .key 1] g₁ (by simp [hread₁, hlen, stream, Packet.bytes])
  have hfull : ¬ (g₁.ikbd.unread ++ stream [.key 1, .key 1]).length < 8191 := by
    simp [hread₁, hlen, stream, Packet.bytes]
  generalize hg₂ : (List.map Event.packet [.key 1, .key 1]).foldl Event.run g₁ = g₂ at hq₂ hgot₂ hsent₂
  have hlast : ((Event.packet (.key 1)).run g₂).ikbd.unread = 7 :: (rest ++ [1, 1, 1]) := by
    refine (g₂.ikbd.unread_sendPacket (.key 1)).trans ?_
    change enqueue g₂.ikbd.unread 1 = _
    rw [enqueue, hq₂, if_neg hfull, hread₁]
    simp [stream, Packet.bytes, show packetLen 5#8 = 1 from rfl]
  have hgoal : [.readData, .packet (.key 1), .packet (.key 1), .packet (.key 1)].foldl Event.run g =
      (Event.packet (.key 1)).run g₂ := by
    rw [← hg₂, ← hg₁]; rfl
  rw [hgoal]
  rintro ⟨ps, hsub, heq⟩
  rw [hlast] at heq
  change g₂.got ++ _ = _ at heq
  change ps.Sublist (g₂.sent ++ [.key 1]) at hsub
  rw [hgot₂, hgot₁] at heq
  cases ps with
  | nil => cases heq
  | cons p ps =>
    have hp := hsub.subset (mem_cons_self ..)
    rw [hsent₂, hsent₁] at hp
    simp only [append_assoc, mem_append, cons_append, nil_append, mem_cons,
      not_mem_nil, or_false, or_self] at hp
    rcases hp with hp | rfl
    · rw [hsent p hp] at heq; exact absurd (List.cons.inj (List.cons.inj heq).2).1 (by decide)
    · exact absurd (List.cons.inj heq).1 (by decide)

def partRead (n : Nat) : List Event :=
  (List.replicate n (Packet.mouse 0 5 7)).map .packet ++
    [.readData, .packet (.key 1), .packet (.key 1), .packet (.key 1)]

theorem not_framed_partRead {n} (hn : n * 3 = 8187) (inbuffer : BitVec 13 → BitVec 8) (mfp : Mfp.State) :
    ¬ ((partRead (n + 1)).foldl Event.run (.start inbuffer mfp)).Framed := by
  have hlen : ∀ k, (stream (List.replicate k (.mouse 0 5 7))).length = k * 3 := fun k => by
    simp [stream, flatMap_replicate, Packet.bytes]
  obtain ⟨hq, hgot, hsent⟩ := unread_packets (List.replicate (n + 1) (.mouse 0 5 7)) (.start inbuffer mfp)
    (by rw [Guest.unread_start, hlen]; simp; omega)
  rw [Guest.unread_start, nil_append, replicate_succ, stream_cons] at hq
  rw [partRead, foldl_append]
  refine not_framed_of_part hq ((hlen n).trans hn) hgot fun p hp => ?_
  rw [hsent] at hp
  exact eq_of_mem_replicate hp

theorem packets_not_framed : ∃ inbuffer mfp, ¬ ((partRead 2730).foldl Event.run (.start inbuffer mfp)).Framed :=
  ⟨fun _ => 0, .reset ⟨0, 0, 0, 0, 0, 0, 0, 0, .reset, .reset, .reset, .reset, 0, 0, false⟩,
    not_framed_partRead (n := 2729) rfl _ _⟩

end Aranym.Ikbd
