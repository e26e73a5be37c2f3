import Aranym.Cpu.Modes

/-!
# Values and condition codes

What the generated code computes from the operands: the functions of `genflags_normal` and, for each
arithmetic instruction, the new condition codes and the value to be stored. Each of them takes the
condition codes from before, since some instructions use `X` or `Z` and most keep some of them.
-/

namespace Aranym.Cpu

open Aranym.Mmu

variable (extra : BitVec 16) (size : Sz) (imm : Bool) (value cnt data src dst : BitVec 32) (f : Flags)

abbrev FlagOp (α : Type) := Flags → Flags × α

def low (v : BitVec 32) : BitVec 32 := v &&& bitMask size

def isZero (v : BitVec 32) : Bool := low size v == 0

def isNeg (v : BitVec 32) : Bool := v.getLsbD (bitSize size - 1)

def xBit : BitVec 32 := if f.x then 1 else 0

/-! ## `genflags_normal` -/

def flagLogical : Flags := { f with n := isNeg size value, z := isZero size value, v := false, c := false }

def flagAdd : FlagOp (BitVec 32) := fun _ =>
  let newv := signed size dst + signed size src
  let flgs := isNeg size src
  let flgo := isNeg size dst
  let flgn := isNeg size newv
  let c := (low size (~~~dst)).ult (low size src)
  (⟨c, flgn, isZero size newv, (flgs ^^ flgn) && (flgo ^^ flgn), c⟩, newv)

def flagSub : FlagOp (BitVec 32) := fun _ =>
  let newv := signed size dst - signed size src
  let flgs := isNeg size src
  let flgo := isNeg size dst
  let flgn := isNeg size newv
  let c := (low size dst).ult (low size src)
  (⟨c, flgn, isZero size newv, (flgs ^^ flgo) && (flgn ^^ flgo), c⟩, newv)

def flagCmp : Flags :=
  let newv := signed size dst - signed size src
  let flgs := isNeg size src
  let flgo := isNeg size dst
  let flgn := isNeg size newv
  { f with
    n := flgn
    z := isZero size newv
    v := (flgs ^^ flgo) && (flgn ^^ flgo)
    c := (low size dst).ult (low size src) }

def flagAddx (newv src dst : BitVec 32) (f : Flags) : Flags :=
  let flgs := isNeg size src
  let flgo := isNeg size dst
  let flgn := isNeg size newv
  let c := flgs ^^ ((flgs ^^ flgo) && (flgo ^^ flgn))
  { f with x := c, v := (flgs ^^ flgn) && (flgo ^^ flgn), c := c }

def flagSubx (newv src dst : BitVec 32) (f : Flags) : Flags :=
  let flgs := isNeg size src
  let flgo := isNeg size dst
  let flgn := isNeg size newv
  let c := flgs ^^ ((flgs ^^ flgn) && (flgo ^^ flgn))
  { f with x := c, v := (flgs ^^ flgo) && (flgo ^^ flgn), c := c }

def flagZ : Flags := { f with z := f.z && isZero size value }

def flagZn : Flags := { f with z := f.z && isZero size value, n := isNeg size value }

/-! ## Logic and arithmetic -/

def opOr : FlagOp (BitVec 32) := fun f =>
  (flagLogical size (src ||| dst) f, src ||| dst)

def opAnd : FlagOp (BitVec 32) := fun f =>
  (flagLogical size (src &&& dst) f, src &&& dst)

def opEor : FlagOp (BitVec 32) := fun f =>
  (flagLogical size (src ^^^ dst) f, src ^^^ dst)

def opSuba : FlagOp (BitVec 32) := fun f => (f, dst - src)

def opAdda : FlagOp (BitVec 32) := fun f => (f, dst + src)

def opSubx : FlagOp (BitVec 32) := fun f =>
  let newv := dst - src - xBit f
  (flagZn size newv (flagSubx size newv src dst f), newv)

def opAddx : FlagOp (BitVec 32) := fun f =>
  let newv := dst + src + xBit f
  (flagZn size newv (flagAddx size newv src dst f), newv)

/-- `SET_CFLG`, `COPY_CARRY` and `flag_z` of the decimal instructions: the 68040 keeps `N` and `V`. -/
def flagBcd (newv : BitVec 16) (cflg : Bool) (f : Flags) : Flags × BitVec 32 :=
  (flagZ .byte (newv.setWidth 32) { f with c := cflg, x := cflg }, newv.setWidth 32)

/-- `i_SBCD` of `gencpu.c`, on the two digits of a byte. -/
def opSbcd : FlagOp (BitVec 32) := fun f =>
  let newvLo := ((dst &&& 0xF) - (src &&& 0xF) - xBit f).setWidth 16
  let newvHi := ((dst &&& 0xF0) - (src &&& 0xF0)).setWidth 16
  let newv := newvHi + newvLo
  let borrows := newvLo &&& 0xF0 != 0
  let newv := if borrows then newv - 6 else newv
  let bcd : BitVec 32 := if borrows then 6 else 0
  let diff := (dst &&& 0xFF) - (src &&& 0xFF) - xBit f
  let newv := if BitVec.ult 0xFF (diff &&& 0x100) then newv - 0x60 else newv
  flagBcd newv (BitVec.ult 0xFF (((dst &&& 0xFF) - (src &&& 0xFF) - bcd - xBit f) &&& 0x300)) f

def opAbcd : FlagOp (BitVec 32) := fun f =>
  let newvLo := ((src &&& 0xF) + (dst &&& 0xF) + xBit f).setWidth 16
  let newvHi := ((src &&& 0xF0) + (dst &&& 0xF0)).setWidth 16
  let newv := newvHi + newvLo
  let newv := if BitVec.ult 9 newvLo then newv + 6 else newv
  let cflg := BitVec.ult 0x90 (newv &&& 0x3F0)
  let newv := if cflg then newv + 0x60 else newv
  flagBcd newv cflg f

def opNbcd : FlagOp (BitVec 32) := fun f =>
  let newvLo := (-(src &&& 0xF) - xBit f).setWidth 16
  let newvHi := (-(src &&& 0xF0)).setWidth 16
  let newvLo := if BitVec.ult 9 newvLo then newvLo - 6 else newvLo
  let newv := newvHi + newvLo
  let cflg := BitVec.ult 0x90 (newv &&& 0x1F0)
  let newv := if cflg then newv - 0x60 else newv
  flagBcd newv cflg f

def opNeg : FlagOp (BitVec 32) := flagSub size src 0

def opNegx : FlagOp (BitVec 32) := opSubx size src 0

def opClr (_ : BitVec 32) : FlagOp (BitVec 32) := fun f => (flagLogical size 0 f, 0)

def opNot : FlagOp (BitVec 32) := fun f =>
  (flagLogical size (~~~src) f, ~~~src)

def opTst : FlagOp (BitVec 32) := fun f => (flagLogical size src f, src)

def opSwap : FlagOp (BitVec 32) := fun f =>
  let dst := ((src >>> 16) &&& 0xFFFF) ||| ((src &&& 0xFFFF) <<< 16)
  (flagLogical .long dst f, dst)

def extSize : Sz := if size = .word then .word else .long

def opExt : FlagOp (BitVec 32) := fun f =>
  let dst := match size with
    | .byte => signed .byte src
    | .word => low .word (signed .byte src)
    | .long => signed .word src
  (flagLogical (extSize size) dst f, dst)

def opTas : FlagOp (BitVec 32) := fun f =>
  (flagLogical size src f, src ||| 0x80)

def opMove (_ : BitVec 32) : FlagOp (BitVec 32) := fun f =>
  (flagLogical size src f, src)

def opMovea (_ : BitVec 32) : FlagOp (BitVec 32) := fun f => (f, signed size src)

def opCmp : FlagOp Unit := fun f => (flagCmp size src dst f, ())

def opMulu : FlagOp (BitVec 32) := fun f =>
  let newv := low .word dst * low .word src
  (flagLogical .long newv f, newv)

def opMuls : FlagOp (BitVec 32) := fun f =>
  let newv := signed .word dst * signed .word src
  (flagLogical .long newv f, newv)

/-! ## Bits -/

def bitNo : Nat := (src &&& (if size = .byte then 7 else 31)).toNat

def bitOf : BitVec 32 := 1 <<< bitNo size src

def opBtst : FlagOp (BitVec 32) := fun f =>
  ({ f with z := !dst.getLsbD (bitNo size src) }, dst)

def opBchg : FlagOp (BitVec 32) := fun f =>
  let dst := dst ^^^ bitOf size src
  ({ f with z := dst.getLsbD (bitNo size src) }, dst)

def opBclr : FlagOp (BitVec 32) := fun f =>
  ({ f with z := !dst.getLsbD (bitNo size src) }, dst &&& ~~~(bitOf size src))

def opBset : FlagOp (BitVec 32) := fun f =>
  ({ f with z := !dst.getLsbD (bitNo size src) }, dst ||| bitOf size src)

/-! ## Shifts and rotates

`out` below has `X`, `V`, `C` and the value after the shift; `N` and `Z` follow from the value. With
`imm` the count is one of 1 to 8 and the code does not test it against 0.
-/

structure ShiftOut where
  x : Bool
  v : Bool
  c : Bool
  val : BitVec 32
deriving DecidableEq

def shiftFlags (out : ShiftOut) : Flags × BitVec 32 :=
  (⟨out.x, isNeg size out.val, isZero size out.val, out.v, out.c⟩, out.val)

def shiftCount : Nat := (cnt &&& 63).toNat

def opAsr : FlagOp (BitVec 32) := fun f =>
  let n := bitSize size
  let val := low size data
  let sign := isNeg size val
  let fill : BitVec 32 := if sign then -1 else 0
  let cnt := shiftCount cnt
  shiftFlags size <|
    if n ≤ cnt then ⟨sign, false, sign, bitMask size &&& fill⟩
    else if imm || cnt > 0 then
      let val := val >>> (cnt - 1)
      let c := val.getLsbD 0
      ⟨c, false, c, ((val >>> 1) ||| ((bitMask size <<< (n - cnt)) &&& fill)) &&& bitMask size⟩
    else ⟨f.x, false, false, val⟩

def opAsl : FlagOp (BitVec 32) := fun f =>
  let n := bitSize size
  let val := low size data
  let cnt := shiftCount cnt
  shiftFlags size <|
    if n ≤ cnt then
      let c := cnt = n && val.getLsbD 0
      ⟨c, val != 0, c, 0⟩
    else if imm || cnt > 0 then
      let mask := (bitMask size <<< (n - 1 - cnt)) &&& bitMask size
      let v := val &&& mask != mask && val &&& mask != 0
      let val := val <<< (cnt - 1)
      let c := isNeg size val
      ⟨c, v, c, (val <<< 1) &&& bitMask size⟩
    else ⟨f.x, false, false, val⟩

def opLsr : FlagOp (BitVec 32) := fun f =>
  let n := bitSize size
  let val := low size data
  let cnt := shiftCount cnt
  shiftFlags size <|
    if n ≤ cnt then
      let c := cnt = n && isNeg size val
      ⟨c, false, c, 0⟩
    else if imm || cnt > 0 then
      let val := val >>> (cnt - 1)
      let c := val.getLsbD 0
      ⟨c, false, c, val >>> 1⟩
    else ⟨f.x, false, false, val⟩

def opLsl : FlagOp (BitVec 32) := fun f =>
  let n := bitSize size
  let val := low size data
  let cnt := shiftCount cnt
  shiftFlags size <|
    if n ≤ cnt then
      let c := cnt = n && val.getLsbD 0
      ⟨c, false, c, 0⟩
    else if imm || cnt > 0 then
      let val := val <<< (cnt - 1)
      let c := isNeg size val
      ⟨c, false, c, (val <<< 1) &&& bitMask size⟩
    else ⟨f.x, false, false, val⟩

def opRol : FlagOp (BitVec 32) := fun f =>
  let n := bitSize size
  let val := low size data
  let cnt := shiftCount cnt
  shiftFlags size <|
    if imm || cnt > 0 then
      let cnt := cnt % n
      let val := ((val <<< cnt) ||| (val >>> (n - cnt))) &&& bitMask size
      ⟨f.x, false, val.getLsbD 0, val⟩
    else ⟨f.x, false, false, val⟩

def opRor : FlagOp (BitVec 32) := fun f =>
  let n := bitSize size
  let val := low size data
  let cnt := shiftCount cnt
  shiftFlags size <|
    if imm || cnt > 0 then
      let cnt := cnt % n
      let val := ((val >>> cnt) ||| (val <<< (n - cnt))) &&& bitMask size
      ⟨f.x, false, isNeg size val, val⟩
    else ⟨f.x, false, false, val⟩

def forceRangeForRox (cnt : Nat) : Nat :=
  match size with
  | .long => if 33 ≤ cnt then cnt - 33 else cnt
  | .word =>
    let cnt := if 34 ≤ cnt then cnt - 34 else cnt
    if 17 ≤ cnt then cnt - 17 else cnt
  | .byte =>
    let cnt := if 36 ≤ cnt then cnt - 36 else cnt
    let cnt := if 18 ≤ cnt then cnt - 18 else cnt
    if 9 ≤ cnt then cnt - 9 else cnt

def roxCount : Nat := if imm then shiftCount cnt else forceRangeForRox size (shiftCount cnt)

def opRoxl : FlagOp (BitVec 32) := fun f =>
  let n := bitSize size
  let val := low size data
  let cnt := roxCount size imm cnt
  shiftFlags size <|
    if imm || cnt > 0 then
      let cnt := cnt - 1
      let loval := val >>> (n - 1 - cnt)
      let carry := loval.getLsbD 0
      let val := (((val <<< 1) ||| xBit f) <<< cnt) ||| (loval >>> 1)
      ⟨carry, false, carry, val &&& bitMask size⟩
    else ⟨f.x, false, f.x, val⟩

def opRoxr : FlagOp (BitVec 32) := fun f =>
  let n := bitSize size
  let val := low size data
  let cnt := roxCount size imm cnt
  shiftFlags size <|
    if imm || cnt > 0 then
      let cnt := cnt - 1
      let hival := ((val <<< 1) ||| xBit f) <<< (n - 1 - cnt)
      let val := val >>> cnt
      let carry := val.getLsbD 0
      ⟨carry, false, carry, ((val >>> 1) ||| hival) &&& bitMask size⟩
    else ⟨f.x, false, f.x, val⟩

/-! The shifts of a word in memory by one. -/

def cmask : BitVec 32 := 1 <<< (bitSize size - 1)

def opAsrw : FlagOp (BitVec 32) := fun _ =>
  let val := low size data
  let c := val.getLsbD 0
  shiftFlags size ⟨c, false, c, (val >>> 1) ||| (cmask size &&& val)⟩

def opAslw : FlagOp (BitVec 32) := fun _ =>
  let val := low size data
  let c := isNeg size val
  let val := val <<< 1
  shiftFlags size ⟨c, isNeg size val != c, c, val⟩

def opLsrw : FlagOp (BitVec 32) := fun _ =>
  let val := low size data
  let c := val.getLsbD 0
  shiftFlags size ⟨c, false, c, val >>> 1⟩

def opLslw : FlagOp (BitVec 32) := fun _ =>
  let val := low size data
  let c := isNeg size val
  shiftFlags size ⟨c, false, c, low size (val <<< 1)⟩

def opRolw : FlagOp (BitVec 32) := fun f =>
  let val := low size data
  let c := isNeg size val
  shiftFlags size ⟨f.x, false, c, low size (val <<< 1) ||| (if c then 1 else 0)⟩

def opRorw : FlagOp (BitVec 32) := fun f =>
  let val := low size data
  let c := val.getLsbD 0
  shiftFlags size ⟨f.x, false, c, (val >>> 1) ||| (if c then cmask size else 0)⟩

def opRoxlw : FlagOp (BitVec 32) := fun f =>
  let val := low size data
  let c := isNeg size val
  shiftFlags size ⟨c, false, c, low size (val <<< 1) ||| (if f.x then 1 else 0)⟩

def opRoxrw : FlagOp (BitVec 32) := fun f =>
  let val := low size data
  let c := val.getLsbD 0
  shiftFlags size ⟨c, false, c, (val >>> 1) ||| (if f.x then cmask size else 0)⟩

/-! ## Division -/

def flagDivOverflow : Flags := { f with v := true, n := true, c := false }

/-- The quotient is too large for the type of the host. -/
def NoQuotient {w : Nat} (a b : BitVec w) : Prop := a = BitVec.intMin w ∧ b = -1

instance {w : Nat} (a b : BitVec w) : Decidable (NoQuotient a b) := inferInstanceAs (Decidable (_ ∧ _))

/-- What `i_DIVU` stores: remainder and quotient, or nothing when the quotient does not fit. -/
def divuResult : Option (BitVec 32) :=
  let newv := dst / low .word src
  let rem := dst % low .word src
  if BitVec.ult 0xffff newv then none else some ((newv &&& 0xffff) ||| (rem <<< 16))

def divsResult : Option (BitVec 32) :=
  let newv := dst.sdiv (signed .word src)
  let rem := (dst.srem (signed .word src)).setWidth 16
  if newv &&& 0xffff8000 ≠ 0 ∧ newv &&& 0xffff8000 ≠ 0xffff8000 then none
  else
    let rem := if rem.msb != dst.msb then -rem else rem
    some ((newv &&& 0xffff) ||| (rem.setWidth 32 <<< 16))

def opDiv (result : Option (BitVec 32)) : FlagOp (Option (BitVec 32)) := fun f =>
  match result with
  | none => (flagDivOverflow f, none)
  | some newv => (flagLogical .word newv f, some newv)

/-- The dividend of `m68k_divl` as the extension word selects it. -/
def divlDividend (dq dr : BitVec 32) : BitVec 64 :=
  if extra.getLsbD 10 then dr ++ dq
  else if extra.getLsbD 11 then dq.signExtend 64
  else dq.setWidth 64

def divlResult (dq dr : BitVec 32) : Option (BitVec 32 × BitVec 32) :=
  let a := divlDividend extra dq dr
  if extra.getLsbD 11 then
    let rem := a.srem (src.signExtend 64)
    let quot := a.sdiv (src.signExtend 64)
    if quot &&& 0xffffffff80000000 ≠ 0 ∧ quot &&& 0xffffffff80000000 ≠ 0xffffffff80000000 then none
    else
      let rem := if (rem.setWidth 32).msb != a.msb then -rem else rem
      some (quot.setWidth 32, rem.setWidth 32)
  else
    let rem := a % src.setWidth 64
    let quot := a / src.setWidth 64
    if BitVec.ult 0xffffffff quot then none else some (quot.setWidth 32, rem.setWidth 32)

def opDivl (result : Option (BitVec 32 × BitVec 32)) : FlagOp (Option (BitVec 32 × BitVec 32)) :=
  fun f =>
    match result with
    | none => (flagDivOverflow f, none)
    | some (quot, rem) => (flagLogical .long quot f, some (quot, rem))

/-! ## Multiplication -/

def opMull (dl : BitVec 32) : FlagOp (BitVec 64) := fun f =>
  let a : BitVec 64 :=
    if extra.getLsbD 11 then dl.signExtend 64 * src.signExtend 64 else dl.setWidth 64 * src.setWidth 64
  let high : BitVec 64 := if extra.getLsbD 11 then 0xffffffff80000000 else 0xffffffff00000000
  let fits := a &&& high = 0 ∨ extra.getLsbD 11 = true ∧ a &&& high = high
  ({ f with n := a.msb, z := a == 0, v := !extra.getLsbD 10 && !decide fits, c := false }, a)

/-! ## Bounds -/

def opChk2 (lower upper reg : BitVec 32) : FlagOp Bool := fun f =>
  let c := if lower.sle upper then reg.slt lower || upper.slt reg else upper.slt reg || reg.slt lower
  ({ f with z := upper == reg || lower == reg, c := c }, c)

/-! ## Conditions -/

def cctrue (cc : Nat) (f : Flags) : Bool :=
  match cc with
  | 0 => true
  | 1 => false
  | 2 => !f.c && !f.z
  | 3 => f.c || f.z
  | 4 => !f.c
  | 5 => f.c
  | 6 => !f.z
  | 7 => f.z
  | 8 => !f.v
  | 9 => f.v
  | 10 => !f.n
  | 11 => f.n
  | 12 => f.n == f.v
  | 13 => f.n != f.v
  | 14 => !f.z && f.n == f.v
  | _ => f.z || f.n != f.v

end Aranym.Cpu
