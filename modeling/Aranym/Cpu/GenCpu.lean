import Aranym.Cpu.Families

/-!
# Instruction handlers

The cases of `gen_opcode` that belong to no family, with the functions of `newcpu.cpp` they call.
-/

namespace Aranym.Cpu

open Aranym.Lib Aranym.Mmu

/-- What the handlers call outside the CPU: the FPU, `mmu_op`, the native features and `EmulOp`, the
resets, physical memory, and the translation that a change of the MMU registers brings about. -/
structure Ext where
  fpu : Mnemo → BitVec 16 → BitVec 32 → BitVec 32 → CpuM Unit
  mmuOp : BitVec 16 → BitVec 32 → CpuM Unit
  nfGetId : BitVec 32 → CpuM (BitVec 32)
  nfCall : BitVec 32 → Bool → CpuM (BitVec 32)
  /-- `D0`-`A7` as `EmulOp` leaves them, or nothing where it returns `false`. -/
  emulOp : BitVec 16 → CpuM (Option (Fin 16 → BitVec 32))
  atariReset : CpuM Unit
  bootReset : CpuM Unit
  physGetLong : Memory 32 → BitVec 32 → BitVec 32
  translation : CtrlRegs → Bus × Memory 32 → Bus × Memory 32

variable (ext : Ext) (i : Instr)

def Ext.idle : Ext where
  fpu := fun _ _ _ _ => pure ()
  mmuOp := fun _ _ => pure ()
  nfGetId := fun _ => pure 0
  nfCall := fun _ _ => pure 0
  emulOp := fun _ => pure none
  atariReset := pure ()
  bootReset := pure ()
  physGetLong := fun _ _ => 0
  translation := fun _ m => m

/-- A register number of an extension word, address registers included. -/
def regField (v : BitVec 32) (pos : Nat) : Fin 16 := (v.extractLsb' pos 4).toFin

def numField (v : BitVec 32) (pos : Nat) : Fin 8 := (v.extractLsb' pos 3).toFin

def opIllg (opcode : BitVec 16) : CpuM Unit := do
  let s ← get
  if opcode &&& 0xF000 = 0xA000 then
    if opcode = 0xa0ff ∧ ext.physGetLong s.mem (s.pc + 2) = 13 then throw .hostReturn
    else if opcode = 0xa0ff then do
      modify (setpc (s.pc + 6))
      throw (.exception 0xA 0)
    else throw (.exception 0xA 0)
  else if opcode &&& 0xF000 = 0xF000 then throw (.exception 0xB 0)
  else throw (.exception 4 0)

/-! ## The status register -/

def modifySR (f : BitVec 16 → BitVec 16) : CpuM Unit := modify fun s => { s with sr := f s.sr }

def genOrsr (op : BitVec 16 → BitVec 16 → BitVec 16) : CpuM Unit := do
  modify makeSR
  let src ← genamode i.smode i.sreg i.size .fetch
  let src := if i.size = .byte then src.val &&& 0xFF else src.val
  modifySR fun sr => op sr (src.setWidth 16)
  modify makeFromSR

def genAndsr : CpuM Unit := do
  modify makeSR
  let src ← genamode i.smode i.sreg i.size .fetch
  let src := if i.size = .byte then src.val ||| 0xFF00 else src.val
  modifySR fun sr => sr &&& src.setWidth 16
  modify makeFromSR

def genMvsr2 : CpuM Unit := do
  let src ← genamode i.smode i.sreg .word .fetchAlign
  modify makeSR
  let sr := (← get).sr.setWidth 32
  genastore (if i.size = .byte then sr &&& 0xff else sr) i.smode i.sreg .word src.addr

def genMv2sr : CpuM Unit := do
  let src ← genamode i.smode i.sreg .word .fetch
  if i.size = .byte then do
    modify makeSR
    modifySR fun sr => (sr &&& 0xFF00) ||| (src.val.setWidth 16 &&& 0xFF)
    modify makeFromSR
  else do
    modifySR fun _ => src.val.setWidth 16
    modify makeFromSR

def spcflagStop : BitVec 32 := 0x01

def setstopped (s : CpuState) : CpuState :=
  { s with
    stopped := true
    spcflags := if s.spcflags &&& spcflagDotrace = 0 then s.spcflags ||| spcflagStop else s.spcflags }

def genStop : CpuM Unit := do
  let src ← genamode i.smode i.sreg i.size .fetch
  let sr := src.val.setWidth 16
  if sr &&& 0x2000 = 0 then do
    syncPc
    throw (.exception 8 0)
  else do
    modifySR fun _ => sr
    modify makeFromSR
    modify setstopped
    syncPc

/-! ## Moves -/

def genMvprm : CpuM Unit := do
  let src ← genamode i.smode i.sreg i.size .fetch
  let d ← genNextiword
  let memp := (← get).areg (regNo i.dreg) + d.signExtend 32
  if i.size = .word then do
    putMem .log .byte memp (src.val >>> 8)
    putMem .log .byte (memp + 2) src.val
  else do
    putMem .log .byte memp (src.val >>> 24)
    putMem .log .byte (memp + 2) (src.val >>> 16)
    putMem .log .byte (memp + 4) (src.val >>> 8)
    putMem .log .byte (memp + 6) src.val

def genMvpmr : CpuM Unit := do
  let d ← genNextiword
  let memp := (← get).areg (regNo i.sreg) + d.signExtend 32
  let dst ← genamode i.dmode i.dreg i.size .fetchAlign
  let b₀ ← getMem .log .byte memp
  let b₁ ← getMem .log .byte (memp + 2)
  if i.size = .word then
    genastore ((low .byte b₀ <<< 8) ||| low .byte b₁) i.dmode i.dreg i.size dst.addr
  else do
    let b₂ ← getMem .log .byte (memp + 4)
    let b₃ ← getMem .log .byte (memp + 6)
    genastore ((low .byte b₀ <<< 24) ||| (low .byte b₁ <<< 16) ||| (low .byte b₂ <<< 8)
      ||| low .byte b₃) i.dmode i.dreg i.size dst.addr

def genExg : CpuM Unit := do
  let src ← genamode i.smode i.sreg i.size .fetch
  let dst ← genamode i.dmode i.dreg i.size .fetch
  genastore dst.val i.smode i.sreg i.size src.addr
  genastore src.val i.dmode i.dreg i.size dst.addr

def movemRegs (mask : BitVec 16) : List (Fin 16) := (List.finRange 16).filter fun k => mask.getLsbD k.val

def movemRegsRev (mask : BitVec 16) : List (Fin 16) :=
  ((List.finRange 16).filter fun k => mask.getLsbD k.val).map Fin.rev

def movemStep (size : Sz) : BitVec 32 := if size = .long then 4 else 2

def movemLoad (size : Sz) : List (Fin 16) → BitVec 32 → CpuM (BitVec 32)
  | [], addr => pure addr
  | r :: rs, addr => do
    let v ← getMem .log size addr
    modify fun s => s.setReg r v
    movemLoad size rs (addr + movemStep size)

def genmovemel : CpuM Unit := do
  let mask ← genNextiword
  let src ← genamode2 i.dmode i.dreg i.size .fetchAlign true .log false
  let addr ← movemLoad i.size (movemRegs mask) src.addr
  doIf (i.dmode = .aipi) (modify fun s => s.setAreg (regNo i.dreg) addr)

def movemStore (size : Sz) : List (Fin 16) → BitVec 32 → CpuM Unit
  | [], _ => pure ()
  | r :: rs, addr => do
    putMem .log size addr ((← get).regs r)
    movemStore size rs (addr + movemStep size)

def movemStoreDown (size : Sz) : List (Fin 16) → BitVec 32 → CpuM (BitVec 32)
  | [], addr => pure addr
  | r :: rs, addr => do
    let addr := addr - movemStep size
    putMem .log size addr ((← get).regs r)
    movemStoreDown size rs addr

def genmovemle : CpuM Unit := do
  let mask ← genNextiword
  let src ← genamode2 i.dmode i.dreg i.size .fetchAlign true .log false
  syncPc
  if i.dmode = .apdi then do
    let addr ← movemStoreDown i.size (movemRegsRev mask) src.addr
    modify fun s => s.setAreg (regNo i.dreg) addr
  else movemStore i.size (movemRegs mask) src.addr

def movesLoad (size : Sz) (extra v : BitVec 32) : CpuM Unit :=
  if extra.getLsbD 15 then modify fun s => s.setAreg (numField extra 12) (signed size v)
  else setDregPart size (numField extra 12) v

def genMoves : CpuM Unit := do
  let extra ← genamode i.smode i.sreg i.size .fetch
  if extra.val.getLsbD 11 then do
    let src := (← get).regs (regField extra.val 12)
    let dst ← genamode2 i.dmode i.dreg i.size .fetchAlign false .dfc false
    genastoreX src i.dmode i.dreg i.size dst.addr .dfc
  else do
    let src ← genamode2 i.dmode i.dreg i.size .fetch false .sfc false
    movesLoad i.size extra.val src.val
    syncPc

def move16Line (mems memd : BitVec 32) : CpuM Unit := do
  putMem .log .long memd (← getMem .log .long mems)
  putMem .log .long (memd + 4) (← getMem .log .long (mems + 4))
  putMem .log .long (memd + 8) (← getMem .log .long (mems + 8))
  putMem .log .long (memd + 12) (← getMem .log .long (mems + 12))

def lineAddr (a : BitVec 32) : BitVec 32 := a &&& ~~~15

def incAreg (r : Fin 8) (n : BitVec 32) : CpuM Unit := modify fun s => s.setAreg r (s.areg r + n)

/-- `MOVE16 (Ax)+,(Ay)+` has the second register in its extension word. -/
def genMove16 (opcode : BitVec 16) : CpuM Unit :=
  if opcode &&& 0xfff8 = 0xf620 then do
    let mems := lineAddr ((← get).areg (regNo i.sreg))
    let w ← genNextiword
    let dstreg := numField (w.setWidth 32) 12
    let memd := lineAddr ((← get).areg dstreg)
    move16Line mems memd
    doIf (regNo i.sreg ≠ dstreg) (incAreg (regNo i.sreg) 16)
    incAreg dstreg 16
  else do
    let mems ← genamode2 i.smode i.sreg i.size .noFetch true .log false
    let memd ← genamode2 i.dmode i.dreg i.size .noFetch true .log false
    move16Line (lineAddr mems.addr) (lineAddr memd.addr)
    doIf (opcode &&& 0xfff8 = 0xf600) (incAreg (regNo i.sreg) 16)
    doIf (opcode &&& 0xfff8 = 0xf608) (incAreg (regNo i.dreg) 16)

/-! ## Control registers -/

def genMvr2usp : CpuM Unit := do
  let src ← genamode i.smode i.sreg i.size .fetch
  modify fun s => { s with usp := src.val }

def genMvusp2r : CpuM Unit := do
  let src ← genamode i.smode i.sreg i.size .fetchAlign
  genastore (← get).usp i.smode i.sreg i.size src.addr

def movec2 (regno : Nat) (s : CpuState) : Option (BitVec 32) :=
  match regno with
  | 0 => some s.sfc
  | 1 => some s.dfc
  | 2 => some s.ctrl.cacr
  | 3 => some s.ctrl.tc
  | 4 => some s.ctrl.itt0
  | 5 => some s.ctrl.itt1
  | 6 => some s.ctrl.dtt0
  | 7 => some s.ctrl.dtt1
  | 0x800 => some s.usp
  | 0x801 => some s.vbr
  | 0x802 => some s.ctrl.caar
  | 0x803 => some (if s.m then s.areg 7 else s.msp)
  | 0x804 => some (if s.m then s.isp else s.areg 7)
  | 0x805 => some s.ctrl.mmusr
  | 0x806 => some s.ctrl.urp
  | 0x807 => some s.ctrl.srp
  | _ => none

def setCtrl (c : CtrlRegs) (s : CpuState) : CpuState :=
  { s with ctrl := c, bus := (ext.translation c (s.bus, s.mem)).1,
           mem := (ext.translation c (s.bus, s.mem)).2 }

def move2c (regno : Nat) (v : BitVec 32) (s : CpuState) : Option CpuState :=
  match regno with
  | 0 => some { s with sfc := v &&& 7 }
  | 1 => some { s with dfc := v &&& 7 }
  | 2 => some { s with ctrl := { s.ctrl with cacr := v &&& 0x80008000 } }
  | 3 => some (setCtrl ext { s.ctrl with tc := v &&& 0xc000 } s)
  | 4 => some (setCtrl ext { s.ctrl with itt0 := v &&& 0xffffe364 } s)
  | 5 => some (setCtrl ext { s.ctrl with itt1 := v &&& 0xffffe364 } s)
  | 6 => some (setCtrl ext { s.ctrl with dtt0 := v &&& 0xffffe364 } s)
  | 7 => some (setCtrl ext { s.ctrl with dtt1 := v &&& 0xffffe364 } s)
  | 0x800 => some { s with usp := v }
  | 0x801 => some { s with vbr := v }
  | 0x802 => some { s with ctrl := { s.ctrl with caar := v &&& 0xfc } }
  | 0x803 => some (let s := { s with msp := v }; if s.m then s.setAreg 7 v else s)
  | 0x804 => some (let s := { s with isp := v }; if s.m then s else s.setAreg 7 v)
  | 0x805 => some { s with ctrl := { s.ctrl with mmusr := v } }
  | 0x806 => some (setCtrl ext { s.ctrl with urp := v &&& 0xfffffe00 } s)
  | 0x807 => some (setCtrl ext { s.ctrl with srp := v &&& 0xfffffe00 } s)
  | _ => none

def movecNo (src : BitVec 32) : Nat := (src &&& 0xFFF).toNat

def genMovec2 : CpuM Unit := do
  let src ← genamode i.smode i.sreg i.size .fetch
  match movec2 (movecNo src.val) (← get) with
  | some v => modify fun s => s.setReg (regField src.val 12) v
  | none => opIllg ext 0x4E7A

def genMove2c : CpuM Unit := do
  let src ← genamode i.smode i.sreg i.size .fetch
  let s ← get
  match move2c ext (movecNo src.val) (s.regs (regField src.val 12)) s with
  | some s' => set s'
  | none => opIllg ext 0x4E7B

end Aranym.Cpu
