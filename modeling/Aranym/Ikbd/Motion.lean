import Aranym.Ikbd.Framing
import Mathlib.Algebra.Group.Prod

/-!
# The motion of the mouse

A motion is split into packets, and a packet is added to the last one if the guest has not come to it. The sum is
made with the byte that is in the queue: with a reversed axis this one has the other sign.
-/

namespace Aranym.Ikbd

open Aranym.Lib List
open State (movePart mouseDeltaMax)

/-- The motion that the mouse packets of a stream add up to. -/
def motionOf : List (BitVec 8) → Int × Int
  | b :: x :: y :: rest =>
    if packetLen b = 3 then (x.toInt, y.toInt) + motionOf rest
    else if packetLen b = 2 then motionOf (y :: rest)
    else motionOf (x :: y :: rest)
  | _ => 0

def Packet.motion : Packet → Int × Int
  | mouse _ x y => (x.toInt, y.toInt)
  | _ => 0

theorem motionOf_bytes {p : Packet} (h : p.Single) (rest : List (BitVec 8)) :
    motionOf (p.bytes ++ rest) = p.motion + motionOf rest := by
  cases p with
  | key scancode =>
    have hone : packetLen scancode = 1 := h
    rcases rest with _ | ⟨x, _ | ⟨y, rest⟩⟩
    · rfl
    · rfl
    · simp [Packet.bytes, Packet.motion, motionOf, hone]
  | mouse buttons x y => simp [Packet.bytes, Packet.motion, motionOf, Packet.packetLen_mouseHeader]
  | joystick numjoy state =>
    have htwo : packetLen 0xfe#8 = 2 ∧ packetLen 0xff#8 = 2 := by decide
    cases rest with
    | nil => rfl
    | cons y rest => cases numjoy <;> simp [Packet.bytes, Packet.motion, motionOf, htwo]

theorem motionOf_stream {ps : List Packet} (h : ∀ p ∈ ps, p.Single) :
    motionOf (stream ps) = (ps.map Packet.motion).sum := by
  induction ps with
  | nil => rfl
  | cons p ps ih =>
    rw [stream_cons, motionOf_bytes (h p (mem_cons_self ..)), ih fun q hq => h q (mem_cons_of_mem _ hq),
      map_cons, sum_cons]

/-! ## Packets without a cleanup -/

/-- The packet is behind the others, and nothing else has changed that matters for the mouse. -/
structure State.Appended (s t : State) (bs : List (BitVec 8)) : Prop where
  cleanups : s.cleanups = 0
  unread : t.unread = s.unread ++ bs
  intype : t.intype = s.intype
  mouseEnabled : t.mouseEnabled = s.mouseEnabled
  yaxisReversed : t.yaxisReversed = s.yaxisReversed

theorem State.appended_foldl {s} {bs : List (BitVec 8)} (h : (bs.foldl State.send s).cleanups = 0) :
    s.Appended (bs.foldl State.send s) bs := by
  induction bs generalizing s with
  | nil => exact ⟨h, by simp, rfl, rfl, rfl⟩
  | cons b bs ih =>
    rw [foldl_cons] at h ⊢
    obtain ⟨hcleanups, hunread, hintype, henabled, haxis⟩ := ih h
    obtain ⟨sr, mfp, inread, cleanups, heq⟩ := s.send_eq b
    obtain ⟨hq, hc⟩ := s.unread_send b
    rw [hcleanups] at hc
    have hroom : s.unread.length < 8191 := by by_contra hfull; rw [if_neg hfull] at hc; omega
    rw [if_pos hroom] at hc
    refine ⟨hc.symm, ?_, ?_, ?_, ?_⟩
    · rw [hunread, hq, enqueue, if_pos hroom, append_assoc, singleton_append]
    · rw [hintype, heq]
    · rw [henabled, heq]
    · rw [haxis, heq]

/-! ## What is conserved -/

structure Books (rev : Bool) (got : List (BitVec 8)) (sum : Int × Int) (s : State) (ps : List Packet) : Prop where
  bytes : got ++ s.unread = stream ps
  single : ∀ p ∈ ps, p.Single
  sum : (ps.map Packet.motion).sum = sum
  mouseEnabled : s.mouseEnabled = true
  yaxisReversed : s.yaxisReversed = rev

def EndsAs (rev : Bool) (s : State) (ps : List Packet) : Prop :=
  s.intype = .mouse → ∃ qs buttons x y, ps = qs ++ [.mouse buttons x y] ∧ (rev → y.toInt ≤ 0)

/-- As long as there was no cleanup, the packets add up to the sum. -/
def Accounts (rev : Bool) (got : List (BitVec 8)) (sum : Int × Int) (s : State) : Prop :=
  s.cleanups = 0 → ∃ ps, Books rev got sum s ps ∧ EndsAs rev s ps

variable {rev : Bool} {got : List (BitVec 8)} {sum : Int × Int} {s : State} {ps : List Packet}

theorem Books.append {p} (h : Books rev got sum s ps) (hp : p.Single)
    (hlast : ∀ buttons x y, p = .mouse buttons x y → rev → y.toInt ≤ 0)
    (hsent : (s.sendPacket p).cleanups = 0) :
    Books rev got (sum + p.motion) (s.sendPacket p) (ps ++ [p]) ∧ EndsAs rev (s.sendPacket p) (ps ++ [p]) := by
  have happ := State.appended_foldl hsent
  refine ⟨⟨?_, ?_, ?_, happ.mouseEnabled.trans h.mouseEnabled, happ.yaxisReversed.trans h.yaxisReversed⟩, ?_⟩
  · rw [show (s.sendPacket p).unread = s.unread ++ p.bytes from happ.unread, ← append_assoc, h.bytes,
      stream_append]
    simp [stream]
  · intro q hq
    rcases mem_append.mp hq with hq | hq
    · exact h.single q hq
    · rwa [mem_singleton.mp hq]
  · rw [map_append, sum_append, h.sum, map_singleton, sum_singleton]
  · intro hmouse
    rw [show (s.sendPacket p).intype = p.type from happ.intype] at hmouse
    cases p with
    | key scancode => cases hmouse
    | mouse buttons x y => exact ⟨ps, buttons, x, y, rfl, hlast buttons x y rfl⟩
    | joystick numjoy state => cases hmouse

theorem Accounts.sendPacket {p} (h : Accounts rev got sum s) (hp : p.Single) (hmotion : p.motion = 0)
    (hkind : p.type ≠ .mouse) : Accounts rev got sum (s.sendPacket p) := by
  intro hsent
  obtain ⟨ps, hbooks, -⟩ := h (State.appended_foldl hsent).cleanups
  have hnext := hbooks.append hp (fun buttons x y heq => absurd (by rw [heq]; rfl) hkind) hsent
  rw [hmotion, add_zero] at hnext
  exact ⟨_, hnext⟩

/-! ## One packet of a motion -/

theorem toInt_ofInt_of_le {x} (h : x.natAbs ≤ 63) : (BitVec.ofInt 8 x).toInt = x := by
  rw [BitVec.toInt_ofInt]
  refine Int.bmod_eq_of_le ?_ ?_
  · change -((256 : Int) / 2) ≤ x; omega
  · change x < ((256 : Int) + 1) / 2; omega

theorem Books.sendMousePacket (h : Books rev got sum s ps) (buttons : BitVec 32) {movex movey} (hx : movex.natAbs ≤ 63)
    (hy : movey.natAbs ≤ 63) (hrev : rev → 0 ≤ movey) :
    Accounts rev got (sum + (movex, along rev movey)) (s.sendMousePacket movex movey buttons) := by
  have hside : (along rev movey).natAbs ≤ 63 := by
    unfold along
    split <;> omega
  intro hsent
  rw [sendMousePacket_eq, h.yaxisReversed] at hsent ⊢
  have hnext := h.append (p := .mouse buttons (.ofInt 8 movex) (.ofInt 8 (along rev movey))) trivial ?_ hsent
  · rw [Packet.motion, toInt_ofInt_of_le hx, toInt_ofInt_of_le hside] at hnext; exact ⟨_, hnext⟩
  · rintro _ _ _ heq hr; cases heq; rw [toInt_ofInt_of_le hside, along, if_pos hr]; have := hrev hr; omega

theorem toInt_eq_toNat {x : BitVec 8} {move : Int} (hmove : move.natAbs ≤ 63) (h : (move + x.toNat).natAbs ≤ 63) :
    x.toInt = x.toNat := by rw [BitVec.toInt_eq_toNat_cond, if_pos (by omega)]

/-- The packet that the motion is merged with is taken back: its bytes count as positive, and a byte of the y axis
that is zero or negative is merged only if it is zero. -/
theorem Books.merge (h : Books rev got sum s ps) (hend : EndsAs rev s ps) {movex movey : Int}
    (hx : movex.natAbs ≤ 63) (hy : movey.natAbs ≤ 63) (hrev : rev → 0 ≤ movey) {t : State} {distx disty : Int}
    {buttons : BitVec 32} (hmerge : s.mergeMousePacket movex movey buttons = (t, distx, disty)) :
    ∃ qs, Books rev got (sum + (movex, along rev movey) - (distx, along rev disty)) t qs ∧
      distx.natAbs ≤ 63 ∧ disty.natAbs ≤ 63 ∧ (rev → 0 ≤ disty) := by
  rcases mergeMousePacket_cases s movex movey buttons with hsame | ⟨x, y, hmouse, hunread, hdistx, hdisty, heq⟩
  · rw [hsame] at hmerge; cases hmerge; rw [add_sub_cancel_right]; exact ⟨ps, h, hx, hy, hrev⟩
  · rw [heq] at hmerge
    cases hmerge
    obtain ⟨qs, b, x', y', rfl, hneg⟩ := hend hmouse
    have hbytes := h.bytes
    rw [hunread, ← append_assoc, stream_append] at hbytes
    obtain ⟨hqs, hlast⟩ := append_inj' hbytes rfl
    obtain ⟨-, rfl, rfl⟩ : _ ∧ x = x' ∧ y = y' := by simpa [stream, Packet.bytes] using hlast
    have hxn := toInt_eq_toNat hx hdistx
    have hyn := toInt_eq_toNat hy hdisty
    have hsum := h.sum
    rw [map_append, sum_append] at hsum
    refine ⟨qs, ⟨hqs, fun q hq => h.single q (mem_append_left _ hq), ?_, h.mouseEnabled, h.yaxisReversed⟩,
      hdistx, hdisty, fun hr => by have := hrev hr; omega⟩
    have hstep : (movex, along rev movey) + (x.toInt, y.toInt) = (movex + x.toNat, along rev (movey + y.toNat)) := by
      rw [Prod.mk_add_mk, hxn, hyn]
      cases rev with
      | false => rfl
      | true =>
        have hzero : y.toNat = 0 := by have := hneg rfl; omega
        rw [hzero, Nat.cast_zero, add_zero, add_zero]
    rw [map_singleton, sum_singleton, Packet.motion] at hsum
    rw [← hsum, ← hstep, add_assoc, add_comm (x.toInt, y.toInt), add_sub_cancel_right]

/-! ## Motions -/

theorem Accounts.sendMotionPart (h : Accounts rev got sum s) (buttons : BitVec 32) {movex movey} (hx : movex.natAbs ≤ 63)
    (hy : movey.natAbs ≤ 63) (hrev : rev → 0 ≤ movey) :
    Accounts rev got (sum + (movex, along rev movey)) (s.sendMotionPart movex movey buttons false) := by
  intro hsent
  rw [State.sendMotionPart, if_neg (by decide)] at hsent ⊢
  obtain ⟨t, distx, disty, hmerge⟩ : ∃ t distx disty, s.mergeMousePacket movex movey buttons = (t, distx, disty) :=
    ⟨_, _, _, rfl⟩
  rw [hmerge] at hsent ⊢
  dsimp only at hsent ⊢
  have hpart : s.cleanups = 0 := by
    have ht : t.cleanups = s.cleanups := by
      rcases mergeMousePacket_cases s movex movey buttons with hsame | ⟨x, y, -, -, -, -, heq⟩
      · rw [hsame] at hmerge; cases hmerge; rfl
      · rw [heq] at hmerge; cases hmerge; rfl
    rw [← ht]
    rw [sendMousePacket_eq] at hsent; exact (State.appended_foldl hsent).cleanups
  obtain ⟨ps, hbooks, hend⟩ := h hpart
  obtain ⟨qs, hqs, hdistx, hdisty, hnonneg⟩ := hbooks.merge hend hx hy hrev hmerge
  have hnext := hqs.sendMousePacket buttons hdistx hdisty hnonneg
  rw [sub_add_cancel] at hnext
  exact hnext hsent

theorem movePart_bounds (rel : Int) : (movePart false rel).natAbs ≤ 63 ∧ (0 ≤ rel → 0 ≤ movePart false rel) ∧
    (0 ≤ rel → 0 ≤ rel - movePart false rel) ∧ (rel - movePart false rel).natAbs ≤ rel.natAbs ∧
    (rel - movePart false rel ≠ 0 → (rel - movePart false rel).natAbs < rel.natAbs) := by
  unfold movePart mouseDeltaMax
  rw [if_neg (by decide)]
  split_ifs <;> omega

theorem along_add (rev : Bool) (a b : Int) : along rev a + along rev b = along rev (a + b) := by
  unfold along
  split <;> omega

theorem Accounts.motionLoop {rounds} (h : Accounts rev got sum s) (buttons : BitVec 32) (relx rely : Int)
    (hrounds : relx.natAbs + rely.natAbs ≤ rounds) (hrev : rev → 0 ≤ rely) :
    Accounts rev got (sum + (relx, along rev rely)) (State.motionLoop buttons false rounds s relx rely) := by
  induction rounds generalizing s sum relx rely with
  | zero =>
    obtain ⟨rfl, rfl⟩ : relx = 0 ∧ rely = 0 := by omega
    exact h.sendMotionPart buttons (by decide) (by decide) fun _ => le_rfl
  | succ rounds ih =>
    obtain ⟨hx, -, -, hlex, hltx⟩ := movePart_bounds relx
    obtain ⟨hy, hy0, hrest, hley, hlty⟩ := movePart_bounds rely
    have hpart := h.sendMotionPart buttons hx hy fun hr => hy0 (hrev hr)
    rw [State.motionLoop]
    split
    · next hdone =>
      rw [show movePart false relx = relx by omega, show movePart false rely = rely by omega] at hpart ⊢
      exact hpart
    · next hmore =>
      have hnext := ih hpart (relx - movePart false relx) (rely - movePart false rely) (by omega)
        fun hr => hrest (hrev hr)
      have hsum : (movePart false relx, along rev (movePart false rely)) +
          (relx - movePart false relx, along rev (rely - movePart false rely)) = (relx, along rev rely) := by
        rw [Prod.mk_add_mk, along_add, add_sub_cancel, add_sub_cancel]
      rwa [add_assoc, hsum] at hnext

/-! ## Runs -/

inductive HostEvent
  | key (scancode : BitVec 8)
  | motion (relx rely : Int) (buttons : BitVec 32)
  | joystickAxis (numjoy : Bool) (numaxis value : Int)
  | joystickHat (numjoy : Bool) (value : BitVec 32)
  | joystickButton (numjoy : Bool) (pressed : BitVec 32)
  | readData

/-- The bytes that the guest has read go along with the state. -/
def HostEvent.run (t : State × List (BitVec 8)) : HostEvent → State × List (BitVec 8)
  | .key scancode => (t.1.sendKey scancode, t.2)
  | .motion relx rely buttons => (t.1.sendMouseMotion relx rely buttons false, t.2)
  | .joystickAxis numjoy numaxis value => (t.1.sendJoystickAxis numjoy numaxis value, t.2)
  | .joystickHat numjoy value => (t.1.sendJoystickHat numjoy value, t.2)
  | .joystickButton numjoy pressed => (t.1.sendJoystickButton numjoy pressed, t.2)
  | .readData =>
    (t.1.readData.2, if t.1.inread = t.1.inwrite then t.2 else t.2 ++ [t.1.readData.1])

def HostEvent.moved : HostEvent → Int × Int
  | .motion relx rely _ => (relx, rely)
  | _ => 0

/-- With a reversed axis the mouse does not move against it. -/
def HostEvent.Forward (rev : Bool) : HostEvent → Prop
  | .key scancode => packetLen scancode = 1
  | .motion relx rely _ => relx.natAbs ≤ 2048 ∧ rely.natAbs ≤ 2048 ∧ (rev → 0 ≤ rely)
  | _ => True

instance decidableForward (rev : Bool) : ∀ e : HostEvent, Decidable (e.Forward rev)
  | .key scancode => inferInstanceAs (Decidable (packetLen scancode = 1))
  | .motion relx rely _ => inferInstanceAs (Decidable (relx.natAbs ≤ 2048 ∧ rely.natAbs ≤ 2048 ∧ (rev → 0 ≤ rely)))
  | .joystickAxis .. | .joystickHat .. | .joystickButton .. | .readData => isTrue trivial

theorem Accounts.readData (h : Accounts rev got sum s) :
    Accounts rev (if s.inread = s.inwrite then got else got ++ [s.readData.1]) sum s.readData.2 := by
  obtain ⟨sr, mfp, rxdr, inread, heq⟩ := s.readData_eq
  intro hcleanups
  rw [heq] at hcleanups
  obtain ⟨ps, hbooks, hend⟩ := h hcleanups
  have hbytes : (if s.inread = s.inwrite then got else got ++ [s.readData.1]) ++ s.readData.2.unread = stream ps := by
    rw [← hbooks.bytes]
    split
    · next hempty => rw [State.readData, if_pos hempty]
    · next hne =>
      obtain ⟨b, q, hq⟩ := exists_cons_of_ne_nil fun hnil => hne (State.unread_eq_nil.mp hnil)
      obtain ⟨hb, hrest⟩ := State.readData_of_cons hq
      rw [hb, hrest, hq, append_assoc, singleton_append]
  refine ⟨ps, ⟨hbytes, hbooks.single, hbooks.sum, ?_, ?_⟩, ?_⟩
  · rw [heq]; exact hbooks.mouseEnabled
  · rw [heq]; exact hbooks.yaxisReversed
  · intro hmouse; rw [heq] at hmouse; exact hend hmouse

theorem Accounts.still (h : Accounts rev got sum s) : Accounts rev got (sum + (0, along rev 0)) s := by
  have hzero : ((0 : Int), along rev 0) = 0 := by cases rev <;> rfl
  rwa [hzero, add_zero]

theorem sendJoystick_cases (s : State) (numjoy : Bool) (newjoyState : BitVec 8 → BitVec 8) :
    s.sendJoystick numjoy newjoyState = s ∨ ∃ joyState state,
      s.sendJoystick numjoy newjoyState = { s with joyState := joyState }.sendPacket (.joystick numjoy state) := by
  unfold State.sendJoystick
  dsimp only
  split
  · exact .inl rfl
  · exact .inr ⟨Function.update s.joyState numjoy (newjoyState (s.joyState numjoy)), newjoyState (s.joyState numjoy), rfl⟩

theorem Accounts.joyState (h : Accounts rev got sum s) (joyState : Bool → BitVec 8) :
    Accounts rev got sum { s with joyState := joyState } := fun hcleanups => by
  obtain ⟨ps, hbooks, hend⟩ := h hcleanups
  exact ⟨ps, ⟨hbooks.bytes, hbooks.single, hbooks.sum, hbooks.mouseEnabled, hbooks.yaxisReversed⟩, hend⟩

theorem Accounts.sendJoystick (h : Accounts rev got sum s) (numjoy : Bool) (newjoyState : BitVec 8 → BitVec 8) :
    Accounts rev got sum (s.sendJoystick numjoy newjoyState) := by
  rcases sendJoystick_cases s numjoy newjoyState with heq | ⟨joyState, state, heq⟩
  · rwa [heq]
  · rw [heq]; exact (h.joyState joyState).sendPacket trivial rfl (by intro hkind; cases hkind)

theorem Accounts.run (h : Accounts rev got sum s) {e : HostEvent} (he : e.Forward rev) :
    Accounts rev (e.run (s, got)).2 (sum + (e.moved.1, along rev e.moved.2)) (e.run (s, got)).1 := by
  cases e with
  | key scancode =>
    have hkey : Accounts rev got sum (s.sendPacket (.key scancode)) :=
      h.sendPacket he rfl (by intro hkind; cases hkind)
    exact hkey.still
  | motion relx rely buttons =>
    obtain ⟨hx, hy, hrev⟩ := he
    unfold HostEvent.run State.sendMouseMotion
    dsimp only
    split_ifs with henabled hfar
    · omega
    · exact h.motionLoop buttons relx rely le_rfl hrev
    · intro hcleanups; obtain ⟨ps, hbooks, -⟩ := h hcleanups; exact absurd hbooks.mouseEnabled henabled
  | joystickAxis numjoy numaxis value => exact (h.sendJoystick numjoy _).still
  | joystickHat numjoy value => exact (h.sendJoystick numjoy _).still
  | joystickButton numjoy pressed => exact (h.sendJoystick numjoy _).still
  | readData => exact h.readData.still

theorem Accounts.foldl {m : Int × Int} {events : List HostEvent}
    (h : Accounts rev got (m.1, along rev m.2) s) (he : ∀ e ∈ events, e.Forward rev) :
    Accounts rev (events.foldl HostEvent.run (s, got)).2
      ((m + (events.map HostEvent.moved).sum).1, along rev (m + (events.map HostEvent.moved).sum).2)
      (events.foldl HostEvent.run (s, got)).1 := by
  induction events generalizing m s got with
  | nil => rwa [map_nil, sum_nil, add_zero]
  | cons e events ih =>
    have hstep := h.run (he e (mem_cons_self ..))
    rw [Prod.mk_add_mk, along_add] at hstep
    have hrest := ih (m := m + e.moved) hstep fun e' he' => he e' (mem_cons_of_mem _ he')
    rwa [add_assoc] at hrest

/-- The mouse does not lose motion, as long as it does not move against a reversed axis. -/
theorem motion_conserved (inbuffer : BitVec 13 → BitVec 8) (mfp : Mfp.State) (rev : Bool) (events : List HostEvent)
    {s : State} {got : List (BitVec 8)}
    (hrun : events.foldl HostEvent.run ({ State.created inbuffer mfp with yaxisReversed := rev }, []) = (s, got))
    (he : ∀ e ∈ events, e.Forward rev) (hroom : s.cleanups = 0) (hdrained : s.inread = s.inwrite) :
    motionOf got = ((events.map HostEvent.moved).sum.1, along rev (events.map HostEvent.moved).sum.2) := by
  have hstart : Accounts rev [] ((0 : Int × Int).1, along rev (0 : Int × Int).2)
      { State.created inbuffer mfp with yaxisReversed := rev } := fun _ =>
    ⟨[], ⟨State.unread_eq_nil.mpr rfl, fun _ hp => absurd hp not_mem_nil, by cases rev <;> rfl, rfl, rfl⟩,
      fun hmouse => by cases hmouse⟩
  have hall := hstart.foldl he
  rw [hrun, zero_add] at hall
  obtain ⟨ps, hbooks, -⟩ := hall hroom
  have hbytes : got ++ s.unread = stream ps := hbooks.bytes
  rw [State.unread_eq_nil.mpr hdrained, append_nil] at hbytes
  rw [hbytes, motionOf_stream hbooks.single, hbooks.sum]

def keyAndMotions (motions : List (Int × Int)) (reads : Nat) : List HostEvent :=
  .key 1 :: motions.map (fun d => .motion d.1 d.2 0) ++ List.replicate reads .readData

def idleMfp : Mfp.State := .reset ⟨0, 0, 0, 0, 0, 0, 0, 0, .reset, .reset, .reset, .reset, 0, 0, false⟩

theorem motion_conserved_merged : motionOf ((keyAndMotions [(70, 3), (-4, 5)] 7).foldl HostEvent.run
      ({ State.created (fun _ => 0) idleMfp with yaxisReversed := true }, [])).2 = (66, -8) :=
  motion_conserved (fun _ => 0) idleMfp true _ rfl (by decide) (by decide) (by decide)

/-- With a reversed axis the second motion is merged with a byte that has the other sign. -/
theorem motion_not_conserved : ∃ s got, (keyAndMotions [(0, -5), (0, 3)] 4).foldl HostEvent.run
      ({ State.created (fun _ => 0) idleMfp with yaxisReversed := true }, []) = (s, got) ∧
      s.cleanups = 0 ∧ s.inread = s.inwrite ∧ motionOf got = (0, -8) ∧
      along true ((keyAndMotions [(0, -5), (0, 3)] 4).map HostEvent.moved).sum.2 = 2 :=
  ⟨_, _, rfl, by decide, by decide, by decide, by decide⟩

end Aranym.Ikbd
