import Aranym.Cpu.GenCpu
import Aranym.Cpu.Table68k

/-!
# Instruction handlers: control flow, division, bit fields, the outside

The rest of `gen_opcode`, and the handler of an opcode.
-/

namespace Aranym.Cpu

open Aranym.Lib Aranym.Mmu

variable (ext : Ext) (s : CpuState) (fuel : Nat) (i : Instr) (opcode : BitVec 16)

/-! ## Control flow -/

def setAreg7 (v : BitVec 32) : CpuM Unit := modify fun s => s.setAreg 7 v

def branchBy (disp : BitVec 32) : CpuM Unit := modify fun s => { s with pc := s.pc + disp, pcOffset := 0 }

def pushReturn : CpuM Unit := do
  let s ← get
  putMem .log .long (s.areg 7 - 4) (s.pc + s.pcOffset)
  modify fun s => s.setAreg 7 (s.areg 7 - 4)

def genTrap : CpuM Unit := do
  let src ← genamode i.smode i.sreg i.size .fetch
  genSetFaultPc
  throw (.exception (src.val.toNat + 32) 0)

def genRte : CpuM Unit := do
  let finished ← exRte fuel
  if finished then modify fun s => { s with pcOffset := 0 } else throw .unfinished

def genRtd : CpuM Unit := do
  let offs ← genamode i.smode i.sreg i.size .fetch
  let pc ← genamode .aipi 7 .long .fetch
  modify fun s => s.setAreg 7 (s.areg 7 + offs.val)
  jumpTo pc.val

def genLink : CpuM Unit := do
  let offs ← genamode i.dmode i.dreg i.size .fetch
  let old ← genamode .apdi 7 .long .fetchAlign
  let src ← genamode i.smode i.sreg .long .fetch
  genastore ((← get).areg 7) i.smode i.sreg .long src.addr
  modify fun s => s.setAreg 7 (s.areg 7 + offs.val)
  genastore src.val .apdi 7 .long old.addr

def genUnlk : CpuM Unit := do
  let src ← genamode i.smode i.sreg i.size .fetch
  setAreg7 src.val
  let old ← genamode .aipi 7 .long .fetch
  genastore old.val i.smode i.sreg i.size src.addr

def genRts : CpuM Unit := do
  let pc ← getMem .log .long ((← get).areg 7)
  jumpTo pc
  modify fun s => s.setAreg 7 (s.areg 7 + 4)

def genTrapv : CpuM Unit := do
  let oldpc := (← get).pc
  syncPc
  if (← get).flags.v then throw (.exception 7 oldpc) else pure ()

def genRtr : CpuM Unit := do
  modify makeSR
  let sr ← genamode2 .aipi 7 .word .fetch false .log true
  let pc ← genamode .aipi 7 .long .fetch
  clearFixup .aipi
  modifySR fun old => (old &&& 0xFF00) ||| (sr.val.setWidth 16 &&& 0xFF)
  jumpTo pc.val
  modify makeFromSR

def genJsr : CpuM Unit := do
  let src ← genamode i.smode i.sreg i.size .noFetch
  pushReturn
  jumpTo src.addr

def genJmp : CpuM Unit := do
  let src ← genamode i.smode i.sreg i.size .noFetch
  jumpTo src.addr

def genBsr : CpuM Unit := do
  let src ← genamode i.smode i.sreg i.size .fetch
  pushReturn
  branchBy (src.val + 2)

def genBcc : CpuM Unit := do
  let src ← genamode i.smode i.sreg i.size .fetch
  if cctrue i.cc (← get).flags then branchBy (src.val + 2) else pure ()

def genLea : CpuM Unit := do
  let src ← genamode i.smode i.sreg i.size .noFetch
  let dst ← genamode i.dmode i.dreg i.size .fetchAlign
  genastore src.addr i.dmode i.dreg i.size dst.addr

def genPea : CpuM Unit := do
  let src ← genamode i.smode i.sreg i.size .noFetch
  let dst ← genamode .apdi 7 .long .fetchAlign
  genastore src.addr .apdi 7 .long dst.addr

def genDbcc : CpuM Unit := do
  let src ← genamode i.smode i.sreg i.size .fetch
  let offs ← genamode i.dmode i.dreg i.size .fetch
  if cctrue i.cc (← get).flags then pure ()
  else do
    genastore (src.val - 1) i.smode i.sreg i.size src.addr
    doIf (src.val ≠ 0) (branchBy (offs.val + 2))

def genScc : CpuM Unit := do
  let src ← genamode i.smode i.sreg i.size .fetchAlign
  let val := if cctrue i.cc (← get).flags then 0xff else 0
  genastore val i.smode i.sreg i.size src.addr

def genDummy : CpuM Unit :=
  doIf (i.smode ≠ .unknown ∧ i.smode ≠ .illg) do
    let _ ← genamode i.smode i.sreg i.size .fetch

def genTrapcc : CpuM Unit := do
  let oldpc := (← get).pc
  genDummy i
  syncPc
  if cctrue i.cc (← get).flags then throw (.exception 7 oldpc) else pure ()

/-! ## Division and multiplication -/

def divOperands : CpuM (BitVec 32 × BitVec 32) := do
  let src ← genamode i.smode i.sreg .word .fetch
  let dst ← genamode i.dmode i.dreg .long .fetch
  syncPc
  pure (src.val, dst.val)

def genDiv (sgn : Bool) (result : BitVec 32 → BitVec 32 → Option (BitVec 32)) : CpuM Unit := do
  let oldpc := (← get).pc
  let (src, dst) ← divOperands i
  if src = 0 then do
    alu fun f => ({ f with v := false }, ())
    throw (.exception 5 oldpc)
  else if sgn ∧ NoQuotient dst (signed .word src) then throw .noQuotient
  else
    match ← alu (opDiv (result src dst)) with
    | some newv => genastore newv i.dmode i.dreg .long 0
    | none => pure ()

/-- The extension word and the operand of the long multiplications and divisions. -/
def longOperands : CpuM (BitVec 32 × BitVec 32) := do
  let extra ← genamode i.smode i.sreg i.size .fetch
  let dst ← genamode i.dmode i.dreg i.size .fetch
  syncPc
  pure (extra.val, dst.val)

/-- `i_DIVL`, with `m68k_divl` inlined. -/
def genDivl : CpuM Unit := do
  let oldpc := (← get).pc
  let (extra, src) ← longOperands i
  let s ← get
  let dq := s.dreg (numField extra 12)
  let dr := s.dreg (numField extra 0)
  if src = 0 then throw (.exception 5 oldpc)
  else if extra.getLsbD 11 ∧ NoQuotient (divlDividend (extra.setWidth 16) dq dr) (src.signExtend 64) then
    throw .noQuotient
  else
    match ← alu (opDivl (divlResult (extra.setWidth 16) src dq dr)) with
    | some (quot, rem) =>
      modify fun s => (s.setDreg (numField extra 0) rem).setDreg (numField extra 12) quot
    | none => pure ()

def genMull : CpuM Unit := do
  let (extra, src) ← longOperands i
  let s ← get
  let a ← alu (opMull (extra.setWidth 16) src (s.dreg (numField extra 12)))
  doIf (extra.getLsbD 10) (modify fun s => s.setDreg (numField extra 0) (a.extractLsb' 32 32))
  modify fun s => s.setDreg (numField extra 12) (a.setWidth 32)

/-! ## Bounds -/

def genChk : CpuM Unit := do
  let oldpc := (← get).pc
  let src ← genamode i.smode i.sreg i.size .fetch
  let dst ← genamode i.dmode i.dreg i.size .fetch
  if dst.val.slt 0 then do
    alu fun f => ({ f with n := true }, ())
    throw (.exception 6 oldpc)
  else if src.val.slt dst.val then do
    alu fun f => ({ f with n := false }, ())
    throw (.exception 6 oldpc)
  else pure ()

def sizeBytes : Sz → BitVec 32
  | .byte => 1
  | .word => 2
  | .long => 4

/-- `i_CHK2`, for `CMP2` and `CHK2`. -/
def genChk2 : CpuM Unit := do
  let oldpc := (← get).pc
  let extra ← genamode i.smode i.sreg i.size .fetch
  let dst ← genamode i.dmode i.dreg i.size .fetchAlign
  let reg := (← get).regs (regField extra.val 12)
  let lower ← getMem .log i.size dst.addr
  let upper ← getMem .log i.size (dst.addr + sizeBytes i.size)
  let reg := if extra.val.getLsbD 15 then reg else signed i.size reg
  let outside ← alu (opChk2 lower upper reg)
  if extra.val.getLsbD 11 && outside then throw (.exception 6 oldpc) else pure ()

/-! ## Compare and swap -/

def opCas (size : Sz) (src dst : BitVec 32) : FlagOp Bool := fun f =>
  (flagCmp size src dst f, (flagCmp size src dst f).z)

def genCas : CpuM Unit := do
  let src ← genamode i.smode i.sreg i.size .fetch
  let dst ← genamode i.dmode i.dreg i.size .fetch
  let ru := numField src.val 6
  let rc := numField src.val 0
  let equal ← alu (opCas i.size ((← get).dreg rc) dst.val)
  syncPc
  if equal then genastore ((← get).dreg ru) i.dmode i.dreg i.size dst.addr
  else setDregPart i.size rc dst.val

def genCas2 : CpuM Unit := do
  let extra ← genamode i.smode i.sreg i.size .fetch
  let s ← get
  let rn1 := s.regs (regField extra.val 28)
  let rn2 := s.regs (regField extra.val 12)
  let rc1 := numField extra.val 16
  let rc2 := numField extra.val 0
  let dst1 ← getMem .log i.size rn1
  let dst2 ← getMem .log i.size rn2
  let equal ← alu (opCas i.size (s.dreg rc1) dst1)
  let equal ← (if equal then alu (opCas i.size (s.dreg rc2) dst2) else pure false)
  if equal then do
    putMem .log i.size rn1 (s.dreg (numField extra.val 22))
    putMem .log i.size rn2 (s.dreg (numField extra.val 6))
  else do
    setDregPart i.size rc2 dst2
    setDregPart i.size rc1 dst1

/-! ## Bit fields -/

/-- What `get_bitfield` returns: the field and the bytes around it. -/
structure BitField where
  res : BitVec 32
  bdata0 : BitVec 32
  bdata1 : BitVec 32
deriving DecidableEq

def getBitfield (src offset : BitVec 32) (width : Nat) : CpuM BitField := do
  let offset := (offset &&& 7).toNat
  let mask : BitVec 32 := 0xffffffff <<< (32 - width)
  match (offset + width + 7) / 8 with
  | 1 => do
    let tmp := low .byte (← getMem .log .byte src)
    pure ⟨tmp <<< (24 + offset), tmp &&& ~~~(mask >>> (24 + offset)), 0⟩
  | 2 => do
    let tmp := low .word (← getMem .log .word src)
    pure ⟨tmp <<< (16 + offset), tmp &&& ~~~(mask >>> (16 + offset)), 0⟩
  | 3 => do
    let tmp := low .word (← getMem .log .word src)
    let tmp' := low .byte (← getMem .log .byte (src + 2))
    pure ⟨(tmp <<< (16 + offset)) ||| (tmp' <<< (8 + offset)), tmp &&& ~~~(mask >>> (16 + offset)),
      tmp' &&& ~~~(mask >>> (8 + offset))⟩
  | 4 => do
    let tmp ← getMem .log .long src
    pure ⟨tmp <<< offset, tmp &&& ~~~(mask >>> offset), 0⟩
  | 5 => do
    let tmp ← getMem .log .long src
    let tmp' := low .byte (← getMem .log .byte (src + 4))
    pure ⟨(tmp <<< offset) ||| (tmp' >>> (8 - offset)), tmp &&& ~~~(mask >>> offset),
      tmp' &&& ~~~(mask <<< (8 - offset))⟩
  | _ => pure ⟨0, 0, 0⟩

def putBitfield (dst : BitVec 32) (bf : BitField) (val offset : BitVec 32) (width : Nat) : CpuM Unit := do
  let offset := (offset &&& 7).toNat + width
  match (offset + 7) / 8 with
  | 1 => putMem .log .byte dst (bf.bdata0 ||| (val <<< (8 - offset)))
  | 2 => putMem .log .word dst (bf.bdata0 ||| (val <<< (16 - offset)))
  | 3 => do
    putMem .log .word dst (bf.bdata0 ||| (val >>> (offset - 16)))
    putMem .log .byte (dst + 2) (bf.bdata1 ||| (val <<< (24 - offset)))
  | 4 => putMem .log .long dst (bf.bdata0 ||| (val <<< (32 - offset)))
  | 5 => do
    putMem .log .long dst (bf.bdata0 ||| (val >>> (offset - 32)))
    putMem .log .byte (dst + 4) (bf.bdata1 ||| (val <<< (40 - offset)))
  | _ => pure ()

def bfffo (tmp : BitVec 32) : Nat → BitVec 32 → BitVec 32
  | 0, offset => offset
  | width + 1, offset => if tmp.getLsbD width then offset else bfffo tmp width (offset + 1)

/-- The condition codes of the field `tmp`, shifted down, with its top bit `n`. -/
def opBf (n : Bool) (tmp : BitVec 32) : FlagOp Unit := fun f =>
  ({ f with n := n, z := tmp == 0, v := false, c := false }, ())

/-- The field a bit-field instruction writes back, if it writes one. -/
def bfNew (mnemo : Mnemo) (tmp reg : BitVec 32) (width : Nat) : Option (BitVec 32) :=
  let ones : BitVec 32 := 0xffffffff >>> (32 - width)
  match mnemo with
  | .bfchg => some (tmp ^^^ ones)
  | .bfclr => some 0
  | .bfset => some ones
  | .bfins => some (reg &&& ones)
  | _ => none

def bfLoad (mnemo : Mnemo) (reg : Fin 8) (tmp first : BitVec 32) : CpuM Unit :=
  match mnemo with
  | .bfextu => modify fun s => s.setDreg reg tmp
  | .bfexts => modify fun s => s.setDreg reg tmp
  | .bfffo => modify fun s => s.setDreg reg first
  | _ => pure ()

def bfOffset (extra : BitVec 32) (s : CpuState) : BitVec 32 :=
  if extra.getLsbD 11 then s.dreg (numField extra 6) else (extra >>> 6) &&& 0x1f

def bfWidth (extra : BitVec 32) (s : CpuState) : Nat :=
  (((if extra.getLsbD 5 then s.dreg (numField extra 0) else extra) - 1) &&& 0x1f).toNat + 1

def dregBitfield (v offset : BitVec 32) (width : Nat) : BitField :=
  let tmp := v.rotateLeft offset.toNat
  ⟨tmp, tmp &&& (((1 : BitVec 32) <<< (32 - width)) - 1), 0⟩

def genBitfield : CpuM Unit := do
  let extra ← genamode i.smode i.sreg i.size .fetch
  let dst ← genamode i.dmode i.dreg .long .fetchAlign
  let s ← get
  let offset := bfOffset extra.val s
  let width := bfWidth extra.val s
  let offset := if i.dmode = .dreg then offset &&& 0x1f else offset
  let dsta := dst.addr + offset.sshiftRight 3
  let bf ← (if i.dmode = .dreg then pure (dregBitfield (s.dreg (regNo i.dreg)) offset width)
    else getBitfield dsta offset width)
  let tmp := if i.mnemo = .bfexts then bf.res.sshiftRight (32 - width) else bf.res >>> (32 - width)
  alu (opBf bf.res.msb tmp)
  let reg := numField extra.val 12
  bfLoad i.mnemo reg tmp (bfffo tmp width offset)
  match bfNew i.mnemo tmp (s.dreg reg) width with
  | none => pure ()
  | some new =>
    doIf (i.mnemo = .bfins) (alu (opBf (new.getLsbD (width - 1)) new))
    if i.dmode = .dreg then
      modify fun s => s.setDreg (regNo i.dreg)
        ((bf.bdata0 ||| (new <<< (32 - width))).rotateRight offset.toNat)
    else putBitfield dsta bf new offset width

/-! ## Packed decimals -/

def packed (val : BitVec 16) : BitVec 32 := (((val >>> 4) &&& 0xf0) ||| (val &&& 0xf)).setWidth 32

def unpacked (val : BitVec 16) : BitVec 16 := ((val <<< 4) &&& 0xf00) ||| (val &&& 0xf)

def genPack : CpuM Unit :=
  if i.smode = .dreg then do
    let adj ← genNextiword
    let val := ((← get).dreg (regNo i.sreg)).setWidth 16 + adj
    setDregPart .byte (regNo i.dreg) (packed val)
  else do
    let a := (← get).areg (regNo i.sreg)
    let inc := aregInc .byte (regNo i.sreg)
    let b₀ ← getMem .log .byte (a - inc)
    let b₁ ← getMem .log .byte (a - 2 * inc)
    let adj ← genNextiword
    let val := (low .byte b₀ ||| (low .byte b₁ <<< 8)).setWidth 16 + adj
    modify fun s => s.setAreg (regNo i.sreg) (s.areg (regNo i.sreg) - 2)
    modify fun s => s.setAreg (regNo i.dreg)
      (s.areg (regNo i.dreg) - aregInc .byte (regNo i.dreg))
    genSetFaultPc
    putMem .log .byte ((← get).areg (regNo i.dreg)) (packed val)

def genUnpk : CpuM Unit :=
  if i.smode = .dreg then do
    let adj ← genNextiword
    let val := unpacked (((← get).dreg (regNo i.sreg)).setWidth 16) + adj
    setDregPart .word (regNo i.dreg) (val.setWidth 32)
  else do
    let a := (← get).areg (regNo i.sreg)
    let b ← getMem .log .byte (a - aregInc .byte (regNo i.sreg))
    let adj ← genNextiword
    let val := unpacked ((low .byte b).setWidth 16) + adj
    modify fun s => s.setAreg (regNo i.sreg)
      (s.areg (regNo i.sreg) - aregInc .byte (regNo i.sreg))
    modify fun s => s.setAreg (regNo i.dreg) (s.areg (regNo i.dreg) - 2)
    genSetFaultPc
    putMem .log .word ((← get).areg (regNo i.dreg)) (val.setWidth 32)

/-! ## The FPU and the host -/

def genFpuExtra : CpuM Unit := do
  let extra ← genamode i.smode i.sreg i.size .fetch
  syncPc
  ext.fpu i.mnemo opcode 0 extra.val

def genFtrapcc : CpuM Unit := do
  syncPc
  let oldpc := (← get).pc
  let extra ← genNextiword
  genDummy i
  syncPc
  ext.fpu i.mnemo opcode oldpc (extra.setWidth 32)

def genFbcc : CpuM Unit := do
  syncPc
  let pc := (← get).pc
  let extra ← genamode i.dmode i.sreg i.size .fetch
  syncPc
  ext.fpu i.mnemo opcode pc extra.val

def genFsave : CpuM Unit := do
  syncPc
  ext.fpu i.mnemo opcode 0 0

def genMmuop : CpuM Unit := do
  let extra ← genamode i.smode i.sreg i.size .fetch
  syncPc
  ext.mmuOp opcode extra.val

structure M68kRegisters where
  regs : Fin 16 → BitVec 32
  sr : BitVec 16
  usp : BitVec 32
  isp : BitVec 32
  msp : BitVec 32

def savedRegs : M68kRegisters where
  regs := s.regs
  sr := s.sr
  usp := if s.sr &&& 0x2000 = 0 then s.areg 7 else s.usp
  msp := if s.sr &&& 0x2000 ≠ 0 ∧ s.sr &&& 0x1000 ≠ 0 then s.areg 7 else s.msp
  isp := if s.sr &&& 0x2000 ≠ 0 ∧ s.sr &&& 0x1000 = 0 then s.areg 7 else s.isp

def saveRegs : CpuM M68kRegisters := do
  modify makeSR
  pure (savedRegs (← get))

def restoreRegs (r : M68kRegisters) : CpuM Unit :=
  modify fun s => makeFromSR
    { s with regs := r.regs, sr := r.sr, usp := r.usp, isp := r.isp, msp := r.msp }

def M68K_EMUL_RESET : BitVec 16 := 0x7102

def reset : CpuState :=
  let s := { s with s := true, m := false, stopped := false, t1 := false, t0 := false }
  let s := { s with
    flags := ⟨false, false, false, false, false⟩
    spcflags := 0, intmask := 7, vbr := 0, sfc := 0, dfc := 0 }
  let s := setCtrl ext { s.ctrl with tc := s.ctrl.tc &&& ~~~0x8000, cacr := 0, caar := 0 } s
  setpc (ext.physGetLong s.mem 4) (s.setAreg 7 (ext.physGetLong s.mem 0))

/-- `m68k_emulop`. A privilege violation ends the handler here; the source adds 2 to the program
counter of the exception handler afterwards. -/
def genEmulop : CpuM Unit := do
  let r ← saveRegs
  if opcode = M68K_EMUL_RESET then
    if r.sr &&& 0x2000 = 0 then throw (.exception 8 0)
    else do
      ext.bootReset
      modify (reset ext)
  else
    match ← ext.emulOp opcode with
    | some regs => restoreRegs { r with regs := regs }
    | none => pure ()

def genNatfeat (f : BitVec 32 → Bool → CpuM (BitVec 32)) : CpuM Unit := do
  let r ← saveRegs
  let d0 ← f (r.regs 15 + 4) (r.sr &&& 0x2000 == 0x2000)
  restoreRegs { r with regs := Function.update r.regs 0 d0 }

/-! ## The handler of an opcode -/

def Instr.isPrivileged : Bool :=
  match i.plev with
  | 0 => false
  | 3 => i.size != .byte
  | _ => true

/-- The cases of `gen_opcode`. `fuel` bounds the frames that `RTE` looks at. -/
def genBody (i : Instr) : CpuM Unit :=
  match i.mnemo with
  | .illg => opIllg ext opcode
  | .or => genOr i
  | .and => genAnd i
  | .eor => genEor i
  | .orsr => genOrsr i (· ||| ·)
  | .andsr => genAndsr i
  | .eorsr => genOrsr i (· ^^^ ·)
  | .sub => genSub i
  | .suba => genSuba i
  | .subx => genSubx i
  | .sbcd => genSbcd i
  | .add => genAdd i
  | .adda => genAdda i
  | .addx => genAddx i
  | .abcd => genAbcd i
  | .neg => genNeg i
  | .negx => genNegx i
  | .nbcd => genNbcd i
  | .clr => genClr i
  | .not => genNot i
  | .tst => genTst i
  | .btst => genBtst i
  | .bchg => genBchg i
  | .bclr => genBclr i
  | .bset => genBset i
  | .cmp => genCmp i
  | .cmpm => genCmp i
  | .cmpa => genCmpa i
  | .mvprm => genMvprm i
  | .mvpmr => genMvpmr i
  | .move => genMove i
  | .movea => genMovea i
  | .mvsr2 => genMvsr2 i
  | .mv2sr => genMv2sr i
  | .swap => genSwap i
  | .exg => genExg i
  | .ext => genExt i
  | .mvmel => genmovemel i
  | .mvmle => genmovemle i
  | .trap => genTrap i
  | .mvr2usp => genMvr2usp i
  | .mvusp2r => genMvusp2r i
  | .reset => ext.atariReset
  | .nop => pure ()
  | .stop => genStop i
  | .rte => genRte fuel
  | .rtd => genRtd i
  | .link => genLink i
  | .unlk => genUnlk i
  | .rts => genRts
  | .trapv => genTrapv
  | .rtr => genRtr
  | .jsr => genJsr i
  | .jmp => genJmp i
  | .bsr => genBsr i
  | .bcc => genBcc i
  | .lea => genLea i
  | .pea => genPea i
  | .dbcc => genDbcc i
  | .scc => genScc i
  | .divu => genDiv i false divuResult
  | .divs => genDiv i true divsResult
  | .mulu => genMulu i
  | .muls => genMuls i
  | .asr => genShift i opAsr
  | .asl => genShift i opAsl
  | .lsr => genShift i opLsr
  | .lsl => genShift i opLsl
  | .rol => genShift i opRol
  | .ror => genShift i opRor
  | .roxl => genShift i opRoxl
  | .roxr => genShift i opRoxr
  | .asrw => genShiftMem i opAsrw
  | .aslw => genShiftMem i opAslw
  | .lsrw => genShiftMem i opLsrw
  | .lslw => genShiftMem i opLslw
  | .rolw => genShiftMem i opRolw
  | .rorw => genShiftMem i opRorw
  | .roxlw => genShiftMem i opRoxlw
  | .roxrw => genShiftMem i opRoxrw
  | .chk => genChk i
  | .chk2 => genChk2 i
  | .movec2 => genMovec2 ext i
  | .move2c => genMove2c ext i
  | .cas => genCas i
  | .cas2 => genCas2 i
  | .divl => genDivl i
  | .mull => genMull i
  | .bftst | .bfextu | .bfchg | .bfexts | .bfclr | .bfffo | .bfset | .bfins => genBitfield i
  | .pack => genPack i
  | .unpk => genUnpk i
  | .tas => genTas i
  | .bkpt | .callm | .rtm => do
    syncPc
    opIllg ext opcode
  | .trapcc => genTrapcc i
  | .moves => genMoves i
  | .fpp | .fdbcc | .fscc => genFpuExtra ext i opcode
  | .ftrapcc => genFtrapcc ext i opcode
  | .fbcc => genFbcc ext i opcode
  | .fsave | .frestore => genFsave ext i opcode
  | .cinvl | .cinvp | .cinva | .cpushl | .cpushp | .cpusha => pure ()
  | .move16 => genMove16 i opcode
  | .mmuop => genMmuop ext i opcode
  | .emulopReturn =>
    modify fun s => { s with spcflags := s.spcflags ||| spcflagBrk, pcOffset := 0 }
  | .emulop => genEmulop ext opcode
  | .natfeatId => genNatfeat fun stack _ => ext.nfGetId stack
  | .natfeatCall => genNatfeat ext.nfCall

def checkPrivilege : CpuM Unit := do
  let s ← get
  doIf (i.isPrivileged && !s.s) (throw (.exception 8 0))

abbrev entered : CpuState := { s with pcOffset := 2 }

def genOpcode (i : Instr) : CpuM Unit := do
  modify entered
  checkPrivilege i
  genBody ext fuel opcode i
  syncPc

/-- `cpufunctbl`: opcodes that are in no line of the table are illegal. -/
def cpufunctbl : CpuM Unit :=
  match table68k opcode with
  | some i => if i.mnemo = .illg ∨ 4 < i.clev then opIllg ext opcode
    else genOpcode ext fuel opcode i
  | none => opIllg ext opcode

end Aranym.Cpu
