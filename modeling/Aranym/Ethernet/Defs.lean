import Mathlib.Data.BitVec

/-!
# Receiving packets

The thread that receives packets for one device, and the calls by which the guest learns of a packet and
acknowledges it. The thread takes the lock of the device, the guest never does.

Source: `natfeat/ethernet.cpp`, `natfeat/ethernet.h`.
-/

namespace Aranym.Ethernet

/-- Where the thread is in `receiveFunc`. `waiting` and `waking` are inside `pthread_cond_wait`: blocked, and
about to take the lock again. -/
inductive Pc
  | receive
  | lock
  | setPending
  | trigger
  | wait
  | waiting
  | waking
  | clear
  | unlock
  deriving DecidableEq

/-- The receiver thread, the lock and what the guest sees. -/
structure State where
  pc : Pc
  packet : Nat
  packetLength : Int
  locked : Bool
  pendingInterrupts : BitVec 32
  irq : Bool
  /-- The packet whose interrupt was shown to the guest and is not acknowledged yet. -/
  shown : Option Nat
  served : Nat
  deriving DecidableEq

def initial : State := ⟨.receive, 0, 0, false, 0, false, none, 0⟩

/-- The steps of the receiver thread and of the guest. -/
inductive Action
  /-- `recv` returns the length, or a negative number for an error. -/
  | receive (result : Int)
  | lock
  | setPending
  | trigger
  | wait
  /-- The thread wakes up though nobody signalled. -/
  | spurious
  | relock
  | clear
  | unlock
  /-- The guest calls `XIF_IRQ`, with 0 to be told of interrupts or with the bit of a device. -/
  | xifIrq (devBit : BitVec 32)
  deriving DecidableEq

def deviceOf (devBit : BitVec 32) : Option Nat :=
  match devBit.toNat with
  | 0x01 => some 0
  | 0x02 => some 1
  | 0x04 => some 2
  | 0x08 => some 3
  | 0x10 => some 4
  | 0x20 => some 5
  | 0x40 => some 6
  | 0x80 => some 7
  | _ => none

variable (ethX : Nat)

def bit : BitVec 32 := BitVec.twoPow 32 ethX

def condSignal (s : State) : State := if s.pc = .waiting then { s with pc := .waking } else s

/-- A call of `XIF_IRQ`. The guest acknowledges what it was shown, and once only. -/
def xifIrq (s : State) (devBit : BitVec 32) : Option State :=
  if devBit = 0 then
    some (if s.pendingInterrupts &&& bit ethX ≠ 0 then { s with shown := some s.packet } else s)
  else if deviceOf devBit = some ethX then
    s.shown.map fun p => condSignal { s with shown := none, served := p }
  else some s

/-- One step; none if it cannot happen here. -/
def step (s : State) : Action → Option State
  | .receive result => if s.pc = .receive then some { s with
      pc := .lock, packet := s.packet + 1, packetLength := if result < 0 then 0 else result } else none
  | .lock => if s.pc = .lock ∧ s.locked = false
      then some { s with pc := .setPending, locked := true } else none
  | .setPending => if s.pc = .setPending then some { s with
      pc := .trigger, pendingInterrupts := s.pendingInterrupts ||| bit ethX } else none
  | .trigger => if s.pc = .trigger then some { s with pc := .wait, irq := true } else none
  | .wait => if s.pc = .wait then some { s with pc := .waiting, locked := false } else none
  | .spurious => if s.pc = .waiting then some { s with pc := .waking } else none
  | .relock => if s.pc = .waking ∧ s.locked = false
      then some { s with pc := .clear, locked := true } else none
  | .clear => if s.pc = .clear then some { s with
      pc := .unlock, pendingInterrupts := s.pendingInterrupts &&& ~~~bit ethX } else none
  | .unlock => if s.pc = .unlock then some { s with pc := .receive, locked := false } else none
  | .xifIrq devBit => xifIrq ethX s devBit

def run : State → List Action → Option State
  | s, [] => some s
  | s, a :: as => (step ethX s a).bind fun s => run s as

end Aranym.Ethernet
