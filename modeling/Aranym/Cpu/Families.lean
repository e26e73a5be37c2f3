import Aranym.Cpu.Alu

/-!
# Instruction families

The shapes that most cases of `gen_opcode` share: fetch the operands, compute a value and the
condition codes, store the value.
-/

namespace Aranym.Cpu

open Aranym.Mmu

variable (i : Instr)

def alu {α : Type} (op : FlagOp α) : CpuM α := do
  let s ← get
  set { s with flags := (op s.flags).1 }
  pure (op s.flags).2

/-- Two operands, the result goes to the second one: `src` is fetched with the size `ssize`, `dst` with
`dsize`, and the result is stored with `rsize`. -/
def srcDstStore (ssize dsize rsize : Sz) (op : BitVec 32 → BitVec 32 → FlagOp (BitVec 32)) : CpuM Unit := do
  let src ← genamode i.smode i.sreg ssize .fetch
  let dst ← genamode i.dmode i.dreg dsize .fetch
  let newv ← alu (op src.val dst.val)
  genastore newv i.dmode i.dreg rsize dst.addr

def srcDstTest {α : Type} (i : Instr) (ssize dsize : Sz) (op : BitVec 32 → BitVec 32 → FlagOp α) :
    CpuM Unit := do
  let src ← genamode i.smode i.sreg ssize .fetch
  let dst ← genamode i.dmode i.dreg dsize .fetch
  let _ ← alu (op src.val dst.val)

def srcDstFixup (getv : Getv) (op : BitVec 32 → BitVec 32 → FlagOp (BitVec 32)) : CpuM Unit := do
  let src ← genamode2 i.smode i.sreg i.size .fetch false .log true
  let dst ← genamode i.dmode i.dreg i.size getv
  clearFixup i.smode
  let newv ← alu (op src.val dst.val)
  genastore newv i.dmode i.dreg i.size dst.addr

def srcStore (ssize rsize : Sz) (getv : Getv) (op : BitVec 32 → FlagOp (BitVec 32)) : CpuM Unit := do
  let src ← genamode i.smode i.sreg ssize getv
  let newv ← alu (op src.val)
  genastore newv i.smode i.sreg rsize src.addr

/-! ## Members -/

def genOr : CpuM Unit := srcDstStore i i.size i.size i.size (opOr i.size)

def genAnd : CpuM Unit := srcDstStore i i.size i.size i.size (opAnd i.size)

def genEor : CpuM Unit := srcDstStore i i.size i.size i.size (opEor i.size)

def genSub : CpuM Unit := srcDstStore i i.size i.size i.size (flagSub i.size)

def genAdd : CpuM Unit := srcDstStore i i.size i.size i.size (flagAdd i.size)

def genSuba : CpuM Unit := srcDstStore i i.size .long .long opSuba

def genAdda : CpuM Unit := srcDstStore i i.size .long .long opAdda

def genBchg : CpuM Unit := srcDstStore i i.size i.size i.size (opBchg i.size)

def genBclr : CpuM Unit := srcDstStore i i.size i.size i.size (opBclr i.size)

def genBset : CpuM Unit := srcDstStore i i.size i.size i.size (opBset i.size)

def genMulu : CpuM Unit := srcDstStore i .word .word .long opMulu

def genMuls : CpuM Unit := srcDstStore i .word .word .long opMuls

def Instr.sourceIsImm18 : Bool := i.stype == 3

/-- The register forms of the shifts and rotates. -/
def genShift (op : Sz → Bool → BitVec 32 → BitVec 32 → FlagOp (BitVec 32)) : CpuM Unit :=
  srcDstStore i i.size i.size i.size (op i.size i.sourceIsImm18)

def genCmp : CpuM Unit := srcDstTest i i.size i.size (opCmp i.size)

def genCmpa : CpuM Unit := srcDstTest i i.size .long (opCmp .long)

def genBtst : CpuM Unit := srcDstTest i i.size i.size (opBtst i.size)

def genSubx : CpuM Unit := srcDstFixup i .fetch (opSubx i.size)

def genAddx : CpuM Unit := srcDstFixup i .fetch (opAddx i.size)

def genSbcd : CpuM Unit := srcDstFixup i .fetch opSbcd

def genAbcd : CpuM Unit := srcDstFixup i .fetch opAbcd

def genMove : CpuM Unit := srcDstFixup i .fetchAlign (opMove i.size)

def genNeg : CpuM Unit := srcStore i i.size i.size .fetch (opNeg i.size)

def genNegx : CpuM Unit := srcStore i i.size i.size .fetch (opNegx i.size)

def genNbcd : CpuM Unit := srcStore i i.size i.size .fetch opNbcd

def genClr : CpuM Unit := srcStore i i.size i.size .fetchAlign (opClr i.size)

def genNot : CpuM Unit := srcStore i i.size i.size .fetch (opNot i.size)

def genSwap : CpuM Unit := srcStore i .long .long .fetch opSwap

def genExt : CpuM Unit := srcStore i .long (extSize i.size) .fetch (opExt i.size)

def genTas : CpuM Unit := srcStore i i.size i.size .fetch (opTas i.size)

def genShiftMem (op : Sz → BitVec 32 → FlagOp (BitVec 32)) : CpuM Unit :=
  srcStore i i.size i.size .fetch (op i.size)

def genTst : CpuM Unit := do
  let src ← genamode i.smode i.sreg i.size .fetch
  let _ ← alu (opTst i.size src.val)

def genMovea : CpuM Unit := do
  let src ← genamode i.smode i.sreg i.size .fetch
  let dst ← genamode i.dmode i.dreg i.size .fetchAlign
  let val ← alu (opMovea i.size src.val dst.val)
  genastore val i.dmode i.dreg .long dst.addr

end Aranym.Cpu
