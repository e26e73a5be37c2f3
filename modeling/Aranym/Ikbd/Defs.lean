import Aranym.Mfp.Defs

/-!
# The keyboard controller

The queue of bytes for the guest, filled by the events of the host and read through the ACIA.

Source: `ikbd.cpp`, `ikbd.h`, `acia.cpp`.
-/

namespace Aranym.Ikbd

open Function

inductive PacketType
  | unknown
  | keyboard
  | mouse
  | joystick
  deriving DecidableEq

/-- The buffer has 8192 bytes, so that the indices wrap as they do with `& (inbufferlen-1)`. `cleanups` counts how
often the queue was full, which the source does not. -/
structure State where
  inbuffer : BitVec 13 → BitVec 8
  inread : BitVec 13
  inwrite : BitVec 13
  intype : PacketType
  mouseEnabled : Bool
  yaxisReversed : Bool
  joyEnabled : Bool → Bool
  joyState : Bool → BitVec 8
  sr : BitVec 8
  cr : BitVec 8
  rxdr : BitVec 8
  txdr : BitVec 8
  mfp : Mfp.State
  cleanups : Nat

variable (s : State) (numjoy : Bool)

def srRxfull : BitVec 8 := 0x01
def srTxempty : BitVec 8 := 0x02
def srInterrupt : BitVec 8 := 0x80
def crRecInter : BitVec 8 := 0x80

namespace State

def reset : State :=
  { s with
    inread := 0, inwrite := 0, intype := .unknown, mouseEnabled := true, yaxisReversed := false
    joyEnabled := fun numjoy => numjoy, joyState := fun _ => 0 }

def aciaReset : State := { s with cr := 0, rxdr := 0, txdr := 0, sr := srTxempty }

def writeControl (value : BitVec 8) : State := if value &&& 3 = 3 then s.aciaReset else { s with cr := value }

def throwInterrupt : State :=
  if s.cr &&& crRecInter = 0 then s
  else
    let s := { s with sr := s.sr ||| srInterrupt }
    if (s.mfp.readReg 0 0x09).1 &&& 0x40 = 0 then s
    else { s with mfp := (s.mfp.setGPIPbit 0x10 0x10).setGPIPbit 0x10 0 }

def pop : State := { s with rxdr := s.inbuffer s.inread, inread := s.inread + 1 }

def readData : BitVec 8 × State :=
  if s.inread = s.inwrite then (s.rxdr, s)
  else
    let s := s.pop
    if s.inread = s.inwrite then
      (s.rxdr, { s with mfp := s.mfp.setGPIPbit 0x10 0x10, sr := s.sr &&& ~~~(srInterrupt ||| srRxfull) })
    else (s.rxdr, throwInterrupt { s with sr := s.sr ||| srRxfull })

/-! ## The queue -/

end State

def packetLen (c : BitVec 8) : Nat :=
  if c = 0xf6 then 8
  else if c = 0xf7 then 6
  else if 0xf8 ≤ c ∧ c ≤ 0xfb then 3
  else if c = 0xfc then 7
  else if c = 0xfe ∨ c = 0xff then 2
  else 1

namespace State

def cleanup : State :=
  if s.inread = s.inwrite then
    { s with inread := s.inread + BitVec.ofNat 13 (packetLen (s.inbuffer s.inread)), cleanups := s.cleanups + 1 }
  else s

def send (value : BitVec 8) : State :=
  let s := { s with inbuffer := update s.inbuffer s.inwrite value, inwrite := s.inwrite + 1 }.cleanup
  throwInterrupt { s with sr := s.sr ||| srRxfull }

/-! ## Events of the host -/

def sendKey (scancode : BitVec 8) : State := { s with intype := .keyboard }.send scancode

def mouseHeader (buttons : BitVec 32) : BitVec 8 := 0xf8 ||| (buttons.setWidth 8 &&& 3)

def mouseDeltaMax : Nat := 63

/-- The queue without the packet that the motion is added to, and the sum. The check of the header in the source
holds for no byte. -/
def mergeMousePacket (relx rely : Int) (buttons : BitVec 32) : State × Int × Int :=
  let mouseInwrite := s.inwrite - 3
  let distx := relx + (s.inbuffer (mouseInwrite + 1)).toNat
  let disty := rely + (s.inbuffer (mouseInwrite + 2)).toNat
  if s.intype ≠ .mouse ∨ s.inread = s.inwrite then (s, relx, rely)
  else if s.inread = mouseInwrite ∨ s.inread = mouseInwrite + 1 ∨ s.inread = mouseInwrite + 2 then (s, relx, rely)
  else if s.inbuffer mouseInwrite ≠ mouseHeader buttons then (s, relx, rely)
  else if distx.natAbs > mouseDeltaMax ∨ disty.natAbs > mouseDeltaMax then (s, relx, rely)
  else ({ s with inwrite := mouseInwrite }, distx, disty)

def sendMousePacket (movex movey : Int) (buttons : BitVec 32) : State :=
  (({ s with intype := .mouse }.send (mouseHeader buttons)).send (.ofInt 8 movex)).send
    (.ofInt 8 (if s.yaxisReversed then -movey else movey))

def movePart (slow : Bool) (rel : Int) : Int :=
  if slow then (if rel > 0 then 1 else if rel < 0 then -1 else 0)
  else if rel.natAbs > mouseDeltaMax then (if rel > 0 then mouseDeltaMax else -mouseDeltaMax)
  else rel

def sendMotionPart (movex movey : Int) (buttons : BitVec 32) (slow : Bool) : State :=
  if slow then s.sendMousePacket movex movey buttons
  else
    let (s, movex, movey) := s.mergeMousePacket movex movey buttons
    s.sendMousePacket movex movey buttons

def motionLoop (buttons : BitVec 32) (slow : Bool) : Nat → State → Int → Int → State
  | rounds, s, relx, rely =>
    let movex := movePart slow relx
    let movey := movePart slow rely
    let s := s.sendMotionPart movex movey buttons slow
    match rounds with
    | 0 => s
    | rounds + 1 =>
      if relx - movex = 0 ∧ rely - movey = 0 then s
      else motionLoop buttons slow rounds s (relx - movex) (rely - movey)

def sendMouseMotion (relx rely : Int) (buttons : BitVec 32) (slow : Bool) : State :=
  if ¬ s.mouseEnabled then s
  else if ¬ slow ∧ (relx.natAbs > 2048 ∨ rely.natAbs > 2048) then s
  else motionLoop buttons slow (relx.natAbs + rely.natAbs) s relx rely

def sendJoystick (newjoyState : BitVec 8 → BitVec 8) : State :=
  let state := newjoyState (s.joyState numjoy)
  if ¬ s.joyEnabled numjoy ∨ s.joyState numjoy = state then s
  else
    ({ s with joyState := update s.joyState numjoy state, intype := .joystick }.send
      (if numjoy then 0xff else 0xfe)).send state

def axisState (low high : BitVec 8) (value : Int) (state : BitVec 8) : BitVec 8 :=
  state &&& ~~~(low ||| high) ||| (if value < -16384 then low else 0) ||| (if value > 16384 then high else 0)

def sendJoystickAxis (numaxis value : Int) : State :=
  s.sendJoystick numjoy fun state =>
    if numaxis = 0 then axisState 0x04 0x08 value state
    else if numaxis = 1 then axisState 0x01 0x02 value state
    else state

/-- The bits of `SDL_HAT_UP`, `SDL_HAT_RIGHT`, `SDL_HAT_DOWN` and `SDL_HAT_LEFT` are 1, 2, 4 and 8. -/
def sendJoystickHat (value : BitVec 32) : State :=
  s.sendJoystick numjoy fun state =>
    state &&& 0x80 ||| (if value.getLsbD 3 then 0x04 else 0) ||| (if value.getLsbD 1 then 0x08 else 0) |||
      (if value.getLsbD 0 then 0x01 else 0) ||| (if value.getLsbD 2 then 0x02 else 0)

def sendJoystickButton (pressed : BitVec 32) : State :=
  s.sendJoystick numjoy fun state => state &&& 0x7f ||| (pressed.setWidth 8 &&& 1) <<< 7

end State

end Aranym.Ikbd
