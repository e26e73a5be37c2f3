import Aranym.Cpu.Defs

/-!
# The instruction table

The data types of `readcpu.h` and `build_insn`, which turns a line of `table68k` into the entries of
the opcodes it matches.
-/

namespace Aranym.Cpu

open Aranym.Mmu

/-- `amodes` of `readcpu.h`. -/
inductive AMode where
  | dreg
  | areg
  | aind
  | aipi
  | apdi
  | ad16
  | ad8r
  | absw
  | absl
  | pc16
  | pc8r
  | imm
  | imm0
  | imm1
  | imm2
  | immi
  | unknown
  | illg
deriving DecidableEq

/-- `instrmnem` of `readcpu.h`. -/
inductive Mnemo where
  | illg
  | or | and | eor | orsr | andsr | eorsr
  | sub | suba | subx | sbcd
  | add | adda | addx | abcd
  | neg | negx | nbcd | clr | not | tst
  | btst | bchg | bclr | bset
  | cmp | cmpm | cmpa
  | mvprm | mvpmr | move | movea | mvsr2 | mv2sr
  | swap | exg | ext | mvmel | mvmle
  | trap | mvr2usp | mvusp2r | reset | nop | stop | rte | rtd
  | link | unlk
  | rts | trapv | rtr
  | jsr | jmp | bsr | bcc
  | lea | pea | dbcc | scc
  | divu | divs | mulu | muls
  | asr | asl | lsr | lsl | rol | ror | roxl | roxr
  | asrw | aslw | lsrw | lslw | rolw | rorw | roxlw | roxrw
  | chk | chk2
  | movec2 | move2c | cas | cas2 | divl | mull
  | bftst | bfextu | bfchg | bfexts | bfclr | bfffo | bfset | bfins
  | pack | unpk | tas | bkpt | callm | rtm | trapcc | moves
  | fpp | fdbcc | fscc | ftrapcc | fbcc | fsave | frestore
  | cinvl | cinvp | cinva | cpushl | cpushp | cpusha | move16
  | mmuop | emulopReturn | emulop | natfeatId | natfeatCall
deriving DecidableEq

/-- The letters of a bit pattern in `table68k`; `o` and `l` are the fixed bits 0 and 1. -/
inductive PatBit where
  | o | l
  | c | C | f | i | I | j | J | k | K | s | S | d | D | r | R | z | E | p
deriving DecidableEq

inductive FlagAffect where
  | set | unset | zero | one | dontcare | unknown | isjmp | isbranch
deriving DecidableEq

inductive FlagUse where
  | used | unused | maybecc | unknown | isjmp
deriving DecidableEq

structure FlagCols (α : Type) where
  x : α
  n : α
  z : α
  v : α
  c : α
deriving DecidableEq

/-- The restriction in brackets after an operand: modes that do not match, a mode that is replaced,
or the modes that match. -/
inductive Restriction where
  | any
  | excl (modes : List AMode)
  | repl (mode new : AMode)
  | incl (modes : List AMode)
deriving DecidableEq

/-- An operand of a line: `Dr`, `Ar`, `Arp`, `ArP`, `Al`, `AxP`, `#z`, `#1`, `#2`, another immediate
in the opcode itself, or the mode and register fields `ddd DDD` and `sss SSS`. -/
inductive OperandDef where
  | none
  | dreg (b : PatBit)
  | areg (b : PatBit)
  | apdi (b : PatBit)
  | aipi (b : PatBit)
  | al
  | axP
  | imm
  | imm1
  | imm2
  | immi (b : PatBit)
  | dst (r : Restriction)
  | src (r : Restriction)
deriving DecidableEq

inductive SizeDef where
  | none | b | w | l | z
deriving DecidableEq

/-- The mnemonic of a line; one with the letter `f` stands for two. -/
inductive MnemoDef where
  | one (m : Mnemo)
  | dir (right left : Mnemo)
deriving DecidableEq

structure InstrDef where
  pattern : List PatBit
  cpulevel : Nat
  plevel : Nat
  flagset : FlagCols FlagAffect
  flaguse : FlagCols FlagUse
  mnemo : MnemoDef
  size : SizeDef
  src : OperandDef
  dst : OperandDef
deriving DecidableEq

variable (d : InstrDef) (opc : BitVec 16)

/-- `struct instr`: an entry of `table68k`. The registers hold the values that the generated code
calls `srcreg` and `dstreg`. -/
structure Instr where
  mnemo : Mnemo
  cc : Nat
  size : Sz
  sreg : BitVec 32
  dreg : BitVec 32
  smode : AMode
  dmode : AMode
  stype : Nat
  plev : Nat
  clev : Nat
  flagdead : BitVec 8
  flaglive : BitVec 8
deriving DecidableEq

/-! ## Flag masks -/

def flagMask (x n z v c : Bool) : BitVec 8 :=
  (BitVec.ofBool x ++ BitVec.ofBool n ++ BitVec.ofBool z ++ BitVec.ofBool v
    ++ BitVec.ofBool c).setWidth 8

def FlagAffect.sets : FlagAffect → Bool
  | .unset => false
  | .isjmp => false
  | _ => true

def FlagUse.uses : FlagUse → Bool
  | .unused => false
  | .isjmp => false
  | _ => true

def InstrDef.flagsSet : BitVec 8 :=
  flagMask d.flagset.x.sets d.flagset.n.sets d.flagset.z.sets d.flagset.v.sets d.flagset.c.sets

def ccFlagsUsed (cc : Nat) : BitVec 8 :=
  match cc with
  | 0 => 0x00
  | 1 => 0x00
  | 2 => 0x05
  | 3 => 0x05
  | 4 => 0x01
  | 5 => 0x01
  | 6 => 0x04
  | 7 => 0x04
  | 8 => 0x02
  | 9 => 0x02
  | 10 => 0x08
  | 11 => 0x08
  | 12 => 0x0A
  | 13 => 0x0A
  | 14 => 0x0E
  | _ => 0x0E

def InstrDef.flagsUsed (mnemo : Mnemo) (cc : Nat) : BitVec 8 :=
  if mnemo = .scc ∨ mnemo = .bcc ∨ mnemo = .dbcc ∨ mnemo = .trapcc then ccFlagsUsed cc
  else flagMask d.flaguse.x.uses d.flaguse.n.uses d.flaguse.z.uses d.flaguse.v.uses
    d.flaguse.c.uses

/-! ## Bit fields -/

def patMatches : List PatBit → BitVec 16 → Nat → Bool
  | [], _, _ => true
  | b :: bs, opc, n =>
    (match b with
      | .o => !opc.getLsbD (n - 1)
      | .l => opc.getLsbD (n - 1)
      | _ => true) && patMatches bs opc (n - 1)

/-- `bitval[b]`: the bits of the opcode under the letter `b`, from the bit `n - 1` down. -/
def bitval (b : PatBit) : List PatBit → BitVec 16 → Nat → Nat → Nat
  | [], _, _, acc => acc
  | b' :: bs, opc, n, acc =>
    bitval b bs opc (n - 1) (if b' = b then 2 * acc + (opc.getLsbD (n - 1)).toNat else acc)

namespace InstrDef

def val (b : PatBit) : Nat := bitval b d.pattern opc 16 0

def fieldsMatch : Bool :=
  d.val opc .z ≠ 3 && d.val opc .C ≠ 1
    && !(d.pattern.contains .I && (d.val opc .I == 0x00 || d.val opc .I == 0xff))
    && !(d.pattern.contains .E && d.val opc .E == 0x00)

/-- `cc`: the field `C` gets copied to `c`. -/
def cc : Nat := if d.pattern.contains .C then d.val opc .C else d.val opc .c

def immVal (b : PatBit) : BitVec 32 :=
  match b with
  | .i =>
    let v := if d.pattern.contains .I then d.val opc .I else d.val opc .i
    (BitVec.ofNat 8 v).signExtend 32
  | .j => if d.val opc .j = 0 then 8 else BitVec.ofNat 32 (d.val opc .j)
  | b => BitVec.ofNat 32 (d.val opc b)

end InstrDef

def immType : PatBit → Nat
  | .i => 1
  | .J => 2
  | .j => 3
  | .k => 4
  | .K => 5
  | .E => 6
  | .p => 7
  | _ => 0

/-! ## Operands -/

def modeFromMr (mode reg : Nat) : AMode :=
  match mode with
  | 0 => .dreg
  | 1 => .areg
  | 2 => .aind
  | 3 => .aipi
  | 4 => .apdi
  | 5 => .ad16
  | 6 => .ad8r
  | _ =>
    match reg with
    | 0 => .absw
    | 1 => .absl
    | 2 => .pc16
    | 3 => .pc8r
    | 4 => .imm
    | _ => .illg

def Restriction.apply (r : Restriction) (mode : AMode) : Option AMode :=
  match r with
  | .any => some mode
  | .excl modes => if mode ∈ modes then none else some mode
  | .repl m m' => if mode = m then some m' else none
  | .incl modes => if mode ∈ modes then some mode else none

def Restriction.isIncl : Restriction → Bool
  | .incl _ => true
  | _ => false

def destMode (r : Restriction) (mode : AMode) : Option AMode :=
  if r.isIncl then some mode
  else if mode = .imm ∨ mode = .pc16 ∨ mode = .pc8r then none
  else some mode

structure OperandInfo where
  mode : AMode
  reg : BitVec 32
  type : Nat
deriving DecidableEq

namespace InstrDef

def operandMode (od : OperandDef) : Option OperandInfo :=
  match od with
  | .none => some ⟨.unknown, -1, 0⟩
  | .dreg b => some ⟨.dreg, BitVec.ofNat 32 (d.val opc b), 0⟩
  | .areg b => some ⟨.areg, BitVec.ofNat 32 (d.val opc b), 0⟩
  | .apdi b => some ⟨.apdi, BitVec.ofNat 32 (d.val opc b), 0⟩
  | .aipi b => some ⟨.aipi, BitVec.ofNat 32 (d.val opc b), 0⟩
  | .al => some ⟨.absl, -1, 0⟩
  | .axP => some ⟨.aipi, 0, 0⟩
  | .imm => some ⟨.imm, -1, 0⟩
  | .imm1 => some ⟨.imm1, -1, 0⟩
  | .imm2 => some ⟨.imm2, -1, 0⟩
  | .immi b => some ⟨.immi, d.immVal opc b, immType b⟩
  | .dst r =>
    let mode := modeFromMr (d.val opc .d) (d.val opc .D)
    if mode = .illg then none
    else ((r.apply mode).bind (destMode r)).map (⟨·, BitVec.ofNat 32 (d.val opc .D), 0⟩)
  | .src r =>
    let mode := modeFromMr (d.val opc .s) (d.val opc .S)
    if mode = .illg then none
    else (r.apply mode).map (⟨·, BitVec.ofNat 32 (d.val opc .S), 0⟩)

def operand (size : Sz) (od : OperandDef) : Option OperandInfo :=
  (d.operandMode opc od).filter fun o => !(o.mode == .areg && size == .byte)

def lineSize : Sz :=
  match d.size with
  | .none => .long
  | .b => .byte
  | .w => .word
  | .l => .long
  | .z =>
    match d.val opc .z with
    | 0 => .byte
    | 1 => .word
    | _ => .long

def mnemoOf : Mnemo :=
  match d.mnemo with
  | .one m => m
  | .dir right left => if d.val opc .f = 0 then right else left

end InstrDef

def bitInsnSize (mnemo : Mnemo) (dmode : AMode) (size : Sz) : Sz :=
  if mnemo = .btst ∨ mnemo = .bset ∨ mnemo = .bclr ∨ mnemo = .bchg then
    if dmode = .dreg then .long else .byte
  else size

def buildInsn : Option Instr :=
  if patMatches d.pattern opc 16 && d.fieldsMatch opc then do
    let src ← d.operand opc (d.lineSize opc) d.src
    let dst ← d.operand opc (d.lineSize opc) d.dst
    pure {
      mnemo := d.mnemoOf opc
      cc := d.cc opc
      size := bitInsnSize (d.mnemoOf opc) dst.mode (d.lineSize opc)
      sreg := src.reg
      dreg := dst.reg
      smode := src.mode
      dmode := dst.mode
      stype := src.type
      plev := d.plevel
      clev := d.cpulevel
      flagdead := d.flagsSet
      flaglive := d.flagsUsed (d.mnemoOf opc) (d.cc opc) }
  else none

end Aranym.Cpu
