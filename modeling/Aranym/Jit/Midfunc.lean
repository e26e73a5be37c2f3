import Aranym.Jit.Live

/-!
# The middle layer

The operations that the compiled instructions use on virtual registers, and what the native code does
that they emit.

Source: `compemu_midfunc_x86.cpp`, `compemu_support.cpp`.
-/

namespace Aranym.Jit

open Aranym.Lib Function

variable {H : Host}

variable (d s r : VReg)

/-! ## Flags -/

/-- `raw_flags_to_reg`: the flags go to the memory of `FLAGTMP`, which leaves its register. -/
def rawFlagsToReg (r : Fin H.nRegs) : Alloc H Unit := do
  emit (.flagsToReg r)
  setState flagTmp fun st => { st with status := .inmem, realreg := none }
  let l ← get
  doIf ((l.nat r).nholds ≠ 1) (throw .flagsShared)
  setNat r fun n => { n with nholds := 0 }

def flagsToStack : Alloc H Unit := do
  let l ← get
  doIf (l.flagsOnStack ≠ .valid) (do
    doIf l.flagsAreImportant (do
      doIf (l.flagsInFlags ≠ .valid) (throw .flagsTrash)
      let tmp ← writeregGeneral flagTmp 4 H.flagNreg1
      rawFlagsToReg tmp
      unlock2 tmp)
    modify fun l => { l with flagsOnStack := .valid })

def clobberFlags : Alloc H Unit := do
  let l ← get
  doIf (l.flagsInFlags = .valid ∧ l.flagsOnStack ≠ .valid) flagsToStack
  modify fun l => { l with flagsInFlags := .trash }

def liveFlags : Alloc H Unit := modify fun l =>
  { l with flagsOnStack := .trash, flagsInFlags := .valid, flagsAreImportant := true }

/-! ## Moves -/

def movLRi (s : BitVec 32) : Alloc H Unit := setConst d s

def movWRi (s : BitVec 16) : Alloc H Unit := do
  let d ← writereg d 2
  emit (.movWRi d s)
  unlock2 d

def movBRi (s : BitVec 8) : Alloc H Unit := do
  let d ← writereg d 1
  emit (.movBRi d s)
  unlock2 d

/-- `d` joins `s` in its native register. -/
def movLRr : Alloc H Unit := do
  let l ← get
  doIf (d ≠ s) (
    if l.isconst s then movLRi d (l.state s).val
    else (do
      disassociate d
      let n ← readregOffset s 4
      let l ← get
      setState d fun st =>
        { st with val := (l.state s).val, validsize := 4, dirtysize := 4, status := .dirty }
      hold d n
      unlock2 n))

def movWRr : Alloc H Unit := do
  let l ← get
  doIf (d ≠ s) (
    if l.isconst s then movWRi d ((l.state s).val.setWidth 16)
    else (do
      let s ← readreg s 2
      let d ← writereg d 2
      emit (.movWRr d s)
      unlock2 d
      unlock2 s))

def movBRr : Alloc H Unit := do
  let l ← get
  doIf (d ≠ s) (
    if l.isconst s then movBRi d ((l.state s).val.setWidth 8)
    else (do
      let s ← readreg s 1
      let d ← writereg d 1
      emit (.movBRr d s)
      unlock2 d
      unlock2 s))

/-! ## Arithmetic -/

def leaLBrr (offset : BitVec 32) : Alloc H Unit := do
  let l ← get
  if l.isconst s then movLRi d ((l.state s).val + offset)
  else if d = s then addOffset d offset
  else (do
    let s ← readreg s 4
    let d ← writereg d 4
    emit (.leaLBrr d s offset)
    unlock2 d
    unlock2 s)

/-- `add_l_ri`, with the flags needed or not. A constant and an offset are added to at once. -/
def addLRi (needflags : Bool) (d : VReg) (i : BitVec 32) : Alloc H Unit :=
  if needflags then (do
    clobberFlags
    let d ← rmw d 4 4
    emit (.addLRi d i)
    unlock2 d)
  else doIf (i ≠ 0) (addOffset d i)

def subLRi (needflags : Bool) (d : VReg) (i : BitVec 32) : Alloc H Unit :=
  if needflags then (do
    clobberFlags
    let d ← rmw d 4 4
    emit (.subLRi d i)
    unlock2 d)
  else doIf (i ≠ 0) (addOffset d (-i))

def forgetAbout : Alloc H Unit := do
  let l ← get
  doIf (l.isinreg r) (disassociate r)
  setState r fun st => { st with val := 0, status := .undef }

/-! ## The begin and the end of a block -/

def initNeedflush : NeedFlush :=
  if r.val < 16 ∨ r = pcP ∨ r = flagX ∨ r = flagTmp then .tomem
  else if r = nextHandler then .handler
  else .scratch

def initStatus : Status :=
  if r.val < 16 ∨ r = flagX ∨ r = flagTmp then .inmem
  else if r = pcP then .isconst
  else .undef

def initComp (H : Host) (compPcP : BitVec 32) : Live H where
  state := fun r =>
    { val := if r = pcP then compPcP else 0
      status := initStatus r
      realreg := none
      realind := 0
      needflush := initNeedflush r
      validsize := 0
      dirtysize := 0 }
  nat := fun n =>
    { touched := 0, holds := fun _ => 0, nholds := 0, locked := if H.alwaysUsed n then 1 else 0 }
  flagsOnStack := .valid
  flagsInFlags := .trash
  flagsAreImportant := true
  touchcnt := 1
  m68kPcOffset := 0
  target := []

def syncM68kPc : Alloc H Unit := do
  let l ← get
  doIf (l.m68kPcOffset ≠ 0) (do
    addLRi false pcP l.m68kPcOffset
    modify fun l => { l with m68kPcOffset := 0 })

def flushReg : Alloc H Unit := do
  let l ← get
  doIf ((l.state r).needflush = .tomem) (
    match (l.state r).status with
    | .inmem => doIf ((l.state r).val ≠ 0) (do
      emit (.addLMi r (l.state r).val)
      setState r fun st => { st with val := 0 })
    | .clean | .dirty => (do
      removeOffset r none
      tomem r)
    | .isconst => doIf (r ≠ pcP) (writebackConst r)
    | .undef => pure ())

def flushRegs : List VReg → Alloc H Unit
  | [] => pure ()
  | r :: rs => do
    flushReg r
    flushRegs rs

def flush : Alloc H Unit := do
  flagsToStack
  syncM68kPc
  flushRegs (List.finRange 32)

/-! ## The native machine -/

/-- The native registers and the memory of the virtual ones. -/
structure Machine (H : Host) where
  nat : Fin H.nRegs → BitVec 32
  mem : VReg → BitVec 32

def sizeMask (size : Nat) : BitVec 32 :=
  match size with
  | 0 => 0
  | 1 => 0xff
  | 2 => 0xffff
  | _ => 0xffffffff

def part (size : Nat) (x y : BitVec 32) : BitVec 32 := (x &&& sizeMask size) ||| (y &&& ~~~sizeMask size)

def bswap (x : BitVec 32) : BitVec 32 :=
  x.extractLsb' 0 8 ++ x.extractLsb' 8 8 ++ x.extractLsb' 16 8 ++ x.extractLsb' 24 8

namespace Machine

def setNat (n : Fin H.nRegs) (v : BitVec 32) (m : Machine H) : Machine H :=
  { m with nat := update m.nat n v }

def setMem (v : BitVec 32) (m : Machine H) : Machine H := { m with mem := update m.mem r v }

end Machine

/-- One native instruction. Byte and word operations need a register that can do them. -/
def Raw.exec (op : Raw H) (m : Machine H) : Option (Machine H) :=
  match op with
  | .movLMr r s => some (m.setMem r (m.nat s))
  | .movWMr r s => if H.canWord s then some (m.setMem r (part 2 (m.nat s) (m.mem r))) else none
  | .movBMr r s => if H.canByte s then some (m.setMem r (part 1 (m.nat s) (m.mem r))) else none
  | .movLMi r v => some (m.setMem r v)
  | .addLMi r v => some (m.setMem r (m.mem r + v))
  | .movLRm d r => some (m.setNat d (m.mem r))
  | .loadFlagx d => some (m.setNat d (part (if H.canByte d then 1 else if H.canWord d then 2 else 4)
      (m.mem flagX) (m.nat d)))
  | .movLRi d v => some (m.setNat d v)
  | .movWRi d v => if H.canWord d then some (m.setNat d (part 2 (v.setWidth 32) (m.nat d))) else none
  | .movBRi d v => if H.canByte d then some (m.setNat d (part 1 (v.setWidth 32) (m.nat d))) else none
  | .movLRr d s => some (m.setNat d (m.nat s))
  | .movWRr d s => if H.canWord d ∧ H.canWord s then
      some (m.setNat d (part 2 (m.nat s) (m.nat d))) else none
  | .movBRr d s => if H.canByte d ∧ H.canByte s then
      some (m.setNat d (part 1 (m.nat s) (m.nat d))) else none
  | .leaLBrr d s offset => some (m.setNat d (m.nat s + offset))
  | .leaLRrIndexed d s index => some (m.setNat d (m.nat s + m.nat index))
  | .bswap32 r => some (m.setNat r (bswap (m.nat r)))
  | .zeroExtend16Rr d s => some (m.setNat d (m.nat s &&& 0xffff))
  | .addLRi d v => some (m.setNat d (m.nat d + v))
  | .subLRi d v => some (m.setNat d (m.nat d - v))
  | .flagsToReg _ => none

def exec : List (Raw H) → Machine H → Option (Machine H)
  | [], m => some m
  | op :: ops, m => (op.exec m).bind (exec ops)

end Aranym.Jit
