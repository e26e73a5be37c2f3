import Aranym.Dsp.Alu

/-!
# The operations of the ALU

The operations that can be combined with parallel moves, and the tables that find them from the low byte of an
instruction.

Source: `dsp_cpu.c`.
-/

namespace Aranym.Dsp

open Function

variable (curInst : BitVec 32) (r : Registers)

inductive AluOp where
  | abs | adc | add | addl | addr | and | asl | asr | clr | cmp | cmpm | eor | lsl | lsr | mac | macr | move | mpy
  | mpyr | neg | not | or | rnd | rol | ror | sbc | sub | subl | subr | tfr | tst | undefined
  deriving DecidableEq

/-! ## Tables -/

def opcodesAlu003f : List AluOp :=
  [.move, .tfr, .addr, .tst, .undefined, .cmp, .subr, .cmpm,
    .undefined, .tfr, .addr, .tst, .undefined, .cmp, .subr, .cmpm,
    .add, .rnd, .addl, .clr, .sub, .undefined, .subl, .not,
    .add, .rnd, .addl, .clr, .sub, .undefined, .subl, .not,
    .add, .adc, .asr, .lsr, .sub, .sbc, .abs, .ror,
    .add, .adc, .asr, .lsr, .sub, .sbc, .abs, .ror,
    .add, .adc, .asl, .lsl, .sub, .sbc, .neg, .rol,
    .add, .adc, .asl, .lsl, .sub, .sbc, .neg, .rol]

def opcodesAlu407f : List AluOp :=
  [.add, .tfr, .or, .eor, .sub, .cmp, .and, .cmpm, .add, .tfr, .or, .eor, .sub, .cmp, .and, .cmpm]

def opcodesAlu80ff : List AluOp := [.mpy, .mpyr, .mac, .macr]

def aluOp : AluOp :=
  let value := (curInst &&& bitmask 8).toNat
  if value < 0x40 then opcodesAlu003f.getD value .undefined
  else if value < 0x80 then opcodesAlu407f.getD (value % 16) .undefined
  else opcodesAlu80ff.getD (value % 4) .undefined

def registersMpy (n : Nat) : RegNum × RegNum :=
  [(regX0, regX0), (regY0, regY0), (regX1, regX0), (regY1, regY0),
    (regX0, regY1), (regY0, regX0), (regX1, regY0), (regY1, regX1)].getD n (regNull, regNull)

/-! ## Operands and flags -/

def Registers.addSource (curInst : BitVec 32) : Option Acc :=
  match (curInst >>> 4 &&& bitmask 3).toNat with
  | 1 => some (r.readAcc (destreg curInst ^^^ 1))
  | 2 => some (r.readLong false)
  | 3 => some (r.readLong true)
  | 4 => some (signExtend24 (r regX0) 0)
  | 5 => some (signExtend24 (r regY0) 0)
  | 6 => some (signExtend24 (r regX1) 0)
  | 7 => some (signExtend24 (r regY1) 0)
  | _ => none

def Registers.cmpSource (curInst : BitVec 32) : Option Acc :=
  match (curInst >>> 4 &&& bitmask 3).toNat with
  | 0 => some (r.readAcc (destreg curInst ^^^ 1))
  | 4 => some (signExtend24 (r regX0) 0)
  | 5 => some (signExtend24 (r regY0) 0)
  | 6 => some (signExtend24 (r regX1) 0)
  | 7 => some (signExtend24 (r regY1) 0)
  | _ => none

def Registers.ccr (d : Acc) : Registers := (((r.ccrExtension d).ccrUnnormalized d).ccrNegative d).ccrZero d

def Registers.setVC (newsr : BitVec 16) : Registers :=
  (r.clearSr (1#32 <<< srV ||| 1#32 <<< srC)).setSr (newsr.setWidth 32)

def Registers.setNZ (cleared carry value : BitVec 32) : Registers :=
  let r := r.clearSr (cleared ||| 1#32 <<< srN ||| 1#32 <<< srZ ||| 1#32 <<< srV)
  ((r.setSr carry).setSr ((value >>> 23 &&& 1) <<< srN)).setSr (if value = 0 then 1#32 <<< srZ else 0)

/-! ## Families of operations -/

def addTo (op : Acc → Acc → BitVec 16 × Acc) (curInst : BitVec 32) (r : Registers) : Registers :=
  match r.addSource curInst with
  | none => r
  | some source =>
    let x := op source (r.readAcc (destreg curInst))
    ((r.writeAcc (destreg curInst) x.2).ccr x.2).setVC x.1

def shiftAndAdd (shift : Acc → BitVec 16 × Acc) (op : Acc → Acc → BitVec 16 × Acc) (curInst : BitVec 32)
    (r : Registers) : Registers :=
  let first := shift (r.readAcc (destreg curInst))
  let x := op (r.readAcc (destreg curInst ^^^ 1)) first.2
  ((r.writeAcc (destreg curInst) x.2).ccr x.2).setVC (first.1 ||| x.1)

def shiftAcc (shift : Acc → BitVec 16 × Acc) (curInst : BitVec 32) (r : Registers) : Registers :=
  let x := shift (r.readAcc (destreg curInst))
  ((r.writeAcc (destreg curInst) x.2).setVC x.1).ccr x.2

def negateAcc (op : Acc → BitVec 16 × Acc) (curInst : BitVec 32) (r : Registers) : Registers :=
  let dest := r.readAcc (destreg curInst)
  let overflowed := dest.w2 = 0 ∧ dest.w1 = 0 ∧ dest.w0 = 0x80
  let d := (op dest).2
  let r := (r.writeAcc (destreg curInst) d).clearSr (1#32 <<< srV)
  (r.setSr (if overflowed then 1#32 <<< srL ||| 1#32 <<< srV else 0)).ccr d

def logic (op : BitVec 32 → BitVec 32 → BitVec 32) (curInst : BitVec 32) (r : Registers) : Registers :=
  let dstreg := regA1 + destreg curInst
  let value := op (r dstreg) (r (divSource curInst)) &&& bitmask 24
  Registers.setNZ (update r dstreg value) 0 0 value

def shiftWord (shift : BitVec 32 → BitVec 32 × BitVec 32) (curInst : BitVec 32) (r : Registers) : Registers :=
  let dstreg := regA1 + destreg curInst
  let x := shift (r dstreg)
  Registers.setNZ (update r dstreg x.2) (1#32 <<< srC) x.1 x.2

def compare (f : Acc → Acc) (curInst : BitVec 32) (r : Registers) : Registers :=
  match r.cmpSource curInst with
  | none => r
  | some source =>
    let x := sub56 (f source) (f (r.readAcc (destreg curInst)))
    (r.ccr x.2).setVC x.1

def Registers.product (curInst : BitVec 32) : Acc :=
  let regs := registersMpy (curInst >>> 4 &&& bitmask 3).toNat
  let source := mul56 (r regs.1) (r regs.2)
  if curInst.getLsbD 2 then (sub56 source .zero).2 else source

def multiply (round : BitVec 32 → Acc → Acc) (curInst : BitVec 32) (r : Registers) : Registers :=
  let d := round (r regSr) (r.product curInst)
  ((r.writeAcc (destreg curInst) d).ccr d).clearSr (1#32 <<< srV)

def multiplyAdd (round : BitVec 32 → Acc → Acc) (curInst : BitVec 32) (r : Registers) : Registers :=
  let x := add56 (r.product curInst) (r.readAcc (destreg curInst))
  let d := round (r regSr) x.2
  (((r.writeAcc (destreg curInst) d).ccr d).clearSr (1#32 <<< srV)).setSr (x.1.setWidth 32 &&& 0xfe)

/-! ## Operations -/

namespace Alu

def abs : Registers := negateAcc abs56 curInst r

def add : Registers := addTo add56 curInst r

def addl : Registers := shiftAndAdd asl56 add56 curInst r

def addr : Registers := shiftAndAdd asr56 add56 curInst r

def and : Registers := logic (· &&& ·) curInst r

def asl : Registers := shiftAcc asl56 curInst r

def asr : Registers := shiftAcc asr56 curInst r

def clr : Registers :=
  let r := (r.writeAcc (destreg curInst) .zero).clearSr (1#32 <<< srE ||| 1#32 <<< srN ||| 1#32 <<< srV)
  r.setSr (1#32 <<< srU ||| 1#32 <<< srZ)

def cmp : Registers := compare id curInst r

def cmpm : Registers := compare (fun d => (abs56 d).2) curInst r

def eor : Registers := logic (· ^^^ ·) curInst r

def lsl : Registers := shiftWord (fun w => (w >>> 23 &&& 1, w <<< 1 &&& bitmask 24)) curInst r

/-- `N` is cleared, and the word is not cut to 24 bits. -/
def lsr : Registers :=
  let numreg := regA1 + destreg curInst
  let newcarry := r numreg &&& 1
  let value := r numreg >>> 1
  let r : Registers := update r numreg value
  let r := r.clearSr (1#32 <<< srC ||| 1#32 <<< srN ||| 1#32 <<< srZ ||| 1#32 <<< srV)
  (r.setSr newcarry).setSr (if value = 0 then 1#32 <<< srZ else 0)

def mac : Registers := multiplyAdd (fun _ d => d) curInst r

def macr : Registers := multiplyAdd rnd56 curInst r

def mpy : Registers := multiply (fun _ d => d) curInst r

def mpyr : Registers := multiply rnd56 curInst r

def neg : Registers := negateAcc (fun d => sub56 d .zero) curInst r

def not : Registers := logic (fun w _ => ~~~w) curInst r

def or : Registers := logic (· ||| ·) curInst r

def rnd : Registers :=
  let d := rnd56 (r regSr) (r.readAcc (destreg curInst))
  (r.writeAcc (destreg curInst) d).ccr d

def rol : Registers :=
  shiftWord (fun w => (w >>> 23 &&& 1, (w <<< 1 ||| (w >>> 23 &&& 1)) &&& bitmask 24)) curInst r

def ror : Registers := shiftWord (fun w => (w &&& 1, (w >>> 1 ||| (w &&& 1) <<< 23) &&& bitmask 24)) curInst r

def sub : Registers := addTo sub56 curInst r

def subl : Registers := shiftAndAdd asl56 sub56 curInst r

def subr : Registers := shiftAndAdd asr56 sub56 curInst r

def tfr : Registers :=
  match r.cmpSource curInst with
  | none => r
  | some source => r.writeAcc (destreg curInst) source

def tst : Registers := (r.ccr (r.readAcc (destreg curInst))).clearSr (1#32 <<< srV)

end Alu

def AluOp.run : AluOp → BitVec 32 → Registers → Registers
  | .abs => Alu.abs
  | .adc => Dsp.adc
  | .add => Alu.add
  | .addl => Alu.addl
  | .addr => Alu.addr
  | .and => Alu.and
  | .asl => Alu.asl
  | .asr => Alu.asr
  | .clr => Alu.clr
  | .cmp => Alu.cmp
  | .cmpm => Alu.cmpm
  | .eor => Alu.eor
  | .lsl => Alu.lsl
  | .lsr => Alu.lsr
  | .mac => Alu.mac
  | .macr => Alu.macr
  | .mpy => Alu.mpy
  | .mpyr => Alu.mpyr
  | .neg => Alu.neg
  | .not => Alu.not
  | .or => Alu.or
  | .rnd => Alu.rnd
  | .rol => Alu.rol
  | .ror => Alu.ror
  | .sbc => Dsp.sbc
  | .sub => Alu.sub
  | .subl => Alu.subl
  | .subr => Alu.subr
  | .tfr => Alu.tfr
  | .tst => Alu.tst
  -- the moves are done by the dispatcher
  | .move => fun _ r => r
  | .undefined => fun _ r => r

end Aranym.Dsp
