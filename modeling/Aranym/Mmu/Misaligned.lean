import Aranym.Mmu.Operands
import Aranym.Mmu.Lemmas.Boundary

/-!
# Faults of word and long operands

The word and long accessors as one family: an operand is accessed in one part, or in bytes or words when
it crosses a page, and the first part that faults decides what the access-error frame will say.
-/

namespace Aranym.Mmu

open Aranym.Lib

variable {δ : Type}

/-! ## Operand accesses -/

inductive Port where
  | cpu (data : Bool)
  | moves (fc : BitVec 3)
deriving DecidableEq

def Port.super (p : Port) (m : Machine δ) : Bool :=
  match p with
  | .cpu _ => m.regs.s
  | .moves fc => (fcSpace fc).1

def Port.data : Port → Bool
  | .cpu data => data
  | .moves fc => (fcSpace fc).2

inductive OperandOp where
  | getWord
  | getLong
  | putWord (val : BitVec 16)
  | putLong (val : BitVec 32)
deriving DecidableEq

def OperandOp.write : OperandOp → Bool
  | .getWord | .getLong => false
  | .putWord _ | .putLong _ => true

def OperandOp.size : OperandOp → Sz
  | .getWord | .putWord _ => .word
  | .getLong | .putLong _ => .long

def OperandOp.bytes : OperandOp → BitVec 32
  | .getWord | .putWord _ => 2
  | .getLong | .putLong _ => 4

def OperandOp.val : OperandOp → BitVec 32
  | .getWord | .getLong => 0
  | .putWord val => val.setWidth 32
  | .putLong val => val

/-- An operand access of the CPU, aligned or not. -/
structure OperandAccess where
  port : Port
  op : OperandOp
  addr : BitVec 32
deriving DecidableEq

section

variable (cfg : Config) (hw : Hardware δ)

variable (x : OperandAccess)

def OperandAccess.run : MmuM δ Unit :=
  match x.port, x.op with
  | .cpu data, .getWord => do let _ ← getWord cfg hw x.addr data
  | .cpu data, .getLong => do let _ ← getLong cfg hw x.addr data
  | .cpu data, .putWord val => putWord cfg hw x.addr val data
  | .cpu data, .putLong val => putLong cfg hw x.addr val data
  | .moves fc, .getWord => do let _ ← sfcGetWord cfg hw fc x.addr
  | .moves fc, .getLong => do let _ ← sfcGetLong cfg hw fc x.addr
  | .moves fc, .putWord val => dfcPutWord cfg hw fc x.addr val
  | .moves fc, .putLong val => dfcPutLong cfg hw fc x.addr val

/-! ## Parts of an operand -/

structure Part where
  off : BitVec 32
  width : Sz
  val : BitVec 32
deriving DecidableEq

variable (p : Part)

def OperandAccess.split : List Part :=
  match x.op.size with
  | .long =>
    if x.addr &&& 1 = 0 then [⟨0, .word, wordArg (x.op.val >>> 16)⟩, ⟨2, .word, wordArg x.op.val⟩]
    else [⟨0, .byte, byteArg (x.op.val >>> 24)⟩, ⟨1, .byte, byteArg (x.op.val >>> 16)⟩,
      ⟨2, .byte, byteArg (x.op.val >>> 8)⟩, ⟨3, .byte, byteArg x.op.val⟩]
  | _ => [⟨0, .byte, byteArg (x.op.val >>> 8)⟩, ⟨1, .byte, byteArg x.op.val⟩]

def OperandAccess.parts : List Part :=
  if isUnaligned x.addr x.op.bytes then x.split else [⟨0, x.op.size, x.op.val⟩]

def Sz.read : Sz → Memory 32 → BitVec 32 → BitVec 32
  | .byte => readByte
  | .word => readWord
  | .long => readLong

def Sz.store : Sz → Memory 32 → BitVec 32 → BitVec 32 → Memory 32
  | .byte => storeByte
  | .word => storeWord
  | .long => storeLong

def OperandAccess.performPart (super : Bool) (action : Action) : MmuM δ Unit :=
  if x.op.write then
    performPut hw p.width p.width.store (x.addr + p.off) p.val super x.port.data x.op.size action
  else do let _ ← performGet hw p.width p.width.read (x.addr + p.off) super x.port.data x.op.size action

def OperandAccess.runPart : MmuM δ Unit := do
  let m ← get
  let action ← mmuAccess cfg hw (x.addr + p.off) (x.port.super m) x.port.data x.op.write
  x.performPart hw p (x.port.super m) action

/-- What is known when a part faults: the fault record of the time, and the hardware register that raised
the bus error if it was not the MMU. -/
structure PartFault where
  part : Part
  old : FaultInfo
  register : Option (BitVec 32)
deriving DecidableEq

def OperandAccess.deviceThrows (phys : BitVec 32) (d : δ) : Bool :=
  if x.op.write then
    match hw.put p.width phys p.val d with
    | .ok _ _ => false
    | .error _ _ => true
  else
    match hw.get p.width phys d with
    | .ok _ _ => false
    | .error _ _ => true

def OperandAccess.partFault (m : Machine δ) : Option PartFault :=
  match mmuAccess cfg hw (x.addr + p.off) (x.port.super m) x.port.data x.op.write m with
  | .ok (.ram _) _ => none
  | .ok (.hw phys) m₁ =>
    if x.deviceThrows hw p phys m₁.dev then some ⟨p, m₁.fault, some phys⟩ else none
  | .ok .busError m₁ => some ⟨p, m₁.fault, none⟩
  | .error _ _ => none

def OperandAccess.firstFault (x : OperandAccess) : List Part → Machine δ → Option PartFault
  | [], _ => none
  | p :: ps, m =>
    match x.partFault cfg hw p m with
    | some f => some f
    | none => x.firstFault ps (final (x.runPart cfg hw p m))

end

/-! ## The record of a fault -/

/-- The faulting part lies in a later page than the operand's address: the first page was accessible. -/
def OperandAccess.LaterPage (x : OperandAccess) (f : PartFault) : Prop :=
  ¬SamePage4k x.addr (x.addr + f.part.off)

def FaultInfo.Ma (r : FaultInfo) : Prop := r.mmuSsw &&& mmuSswMa ≠ 0

def OperandAccess.wb3Status (x : OperandAccess) (m : Machine δ) : BitVec 16 :=
  0x80 ||| mmuGetFc (x.port.super m) x.port.data ||| (if x.op.size = .word then 0x40 else 0)

/-- The record describes the operand: its own address, `MA` exactly for a fault in a later page, and for a
write the whole operand with its size. -/
structure OperandAccess.Recorded (x : OperandAccess) (m : Machine δ) (f : PartFault) (r : FaultInfo) :
    Prop where
  addr : r.mmuFaultAddr = x.addr
  ma : r.Ma ↔ x.LaterPage f
  data : x.op.write = true → r.wb3Data = x.op.val
  status : x.op.write = true → r.wb3Status = x.wb3Status m

/-- Is the write inside a `CATCH`? Only a write of the CPU that is not split is not. -/
def OperandAccess.caught (x : OperandAccess) : Bool :=
  match x.port with
  | .cpu _ => isUnaligned x.addr x.op.bytes
  | .moves _ => true

/-- Does the `CATCH` put the operand's address and `MA` over what a register's bus error recorded? -/
def OperandAccess.rewritten (x : OperandAccess) (f : PartFault) (phys : BitVec 32) : Bool :=
  if x.op.write then x.caught && phys != x.addr else f.part.off != 0

/-- What a bus error of the register `phys` must find for its record to describe the operand: it leaves
all but the address as it was. -/
def OperandAccess.RegisterFits (x : OperandAccess) (m : Machine δ) (f : PartFault) (phys : BitVec 32) :
    Prop :=
  (if x.rewritten f phys then x.LaterPage f else phys = x.addr ∧ (f.old.Ma ↔ x.LaterPage f)) ∧
    (x.op.write = true →
      f.old.wb3Status = x.wb3Status m ∧ (x.caught = true ∨ f.old.wb3Data = x.op.val))

/-- The MMU raised the fault, or the register's fault happens to be described. -/
def OperandAccess.Fits (x : OperandAccess) (m : Machine δ) (f : PartFault) : Prop :=
  ∀ phys, f.register = some phys → x.RegisterFits m f phys

end Aranym.Mmu
