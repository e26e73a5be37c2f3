import Aranym.Cpu.ReadCpu

/-!
# `table68k`

The lines of `table68k` and the table that `init_table68k` builds from them. The columns for control
flow and for the use of the operands are left out.
-/

namespace Aranym.Cpu

/-! ## Flag columns

A column is named by its letters, with `k` for `-`, `u` for `?`, `j` for `/` and `b` for `+`.
-/

def setXNZVC : FlagCols FlagAffect := ⟨.set, .set, .set, .set, .set⟩

def setkuZuC : FlagCols FlagAffect := ⟨.unset, .unknown, .set, .unknown, .set⟩

def setkNZ00 : FlagCols FlagAffect := ⟨.unset, .set, .set, .zero, .zero⟩

def setkkkkk : FlagCols FlagAffect := ⟨.unset, .unset, .unset, .unset, .unset⟩

def setkkZkk : FlagCols FlagAffect := ⟨.unset, .unset, .set, .unset, .unset⟩

def setkNZVC : FlagCols FlagAffect := ⟨.unset, .set, .set, .set, .set⟩

def setk0100 : FlagCols FlagAffect := ⟨.unset, .zero, .one, .zero, .zero⟩

def setXuZuC : FlagCols FlagAffect := ⟨.set, .unknown, .set, .unknown, .set⟩

def setkNZV0 : FlagCols FlagAffect := ⟨.unset, .set, .set, .set, .zero⟩

def setjjjjj : FlagCols FlagAffect := ⟨.isjmp, .isjmp, .isjmp, .isjmp, .isjmp⟩

def setkNuuu : FlagCols FlagAffect := ⟨.unset, .set, .unknown, .unknown, .unknown⟩

def setXNZ0C : FlagCols FlagAffect := ⟨.set, .set, .set, .zero, .set⟩

def setkNZ0C : FlagCols FlagAffect := ⟨.unset, .set, .set, .zero, .set⟩

def setuuuuu : FlagCols FlagAffect := ⟨.unknown, .unknown, .unknown, .unknown, .unknown⟩

def useXNZVC : FlagCols FlagUse := ⟨.used, .used, .used, .used, .used⟩

def usekkkkk : FlagCols FlagUse := ⟨.unused, .unused, .unused, .unused, .unused⟩

def useXkZkk : FlagCols FlagUse := ⟨.used, .unused, .used, .unused, .unused⟩

def usejjjjj : FlagCols FlagUse := ⟨.isjmp, .isjmp, .isjmp, .isjmp, .isjmp⟩

def usekbbbb : FlagCols FlagUse := ⟨.unused, .maybecc, .maybecc, .maybecc, .maybecc⟩

def usekuuuu : FlagCols FlagUse := ⟨.unused, .unknown, .unknown, .unknown, .unknown⟩

def useXkkkk : FlagCols FlagUse := ⟨.used, .unused, .unused, .unused, .unused⟩

def useuuuuu : FlagCols FlagUse := ⟨.unknown, .unknown, .unknown, .unknown, .unknown⟩

/-! ## Lines -/

/-- A line for both modes of the processor whose instruction uses no flags. -/
def line (cpulevel : Nat) (pattern : List PatBit) (flagset : FlagCols FlagAffect) (mnemo : Mnemo) (size : SizeDef)
    (src dst : OperandDef) : InstrDef :=
  ⟨pattern, cpulevel, 0, flagset, usekkkkk, .one mnemo, size, src, dst⟩

def dataModes : Restriction := .excl [.areg]

def controlModes : Restriction := .excl [.dreg, .areg, .aipi, .apdi, .imm]

open PatBit in
def defs68k : List InstrDef := [
  ⟨[o,o,o,o,o,o,o,o,o,o,l,l,l,l,o,o], 0, 0, setXNZVC, useXNZVC, .one .orsr, .b, .imm1, .none⟩,
  ⟨[o,o,o,o,o,o,o,o,o,l,l,l,l,l,o,o], 0, 2, setXNZVC, useXNZVC, .one .orsr, .w, .imm1, .none⟩,
  line 2 [o,o,o,o,o,z,z,o,l,l,s,s,s,S,S,S] setkuZuC .chk2 .z .imm1 (.src controlModes),
  line 0 [o,o,o,o,o,o,o,o,z,z,d,d,d,D,D,D] setkNZ00 .or .z .imm (.dst dataModes),
  ⟨[o,o,o,o,o,o,l,o,o,o,l,l,l,l,o,o], 0, 0, setXNZVC, useXNZVC, .one .andsr, .b, .imm1, .none⟩,
  ⟨[o,o,o,o,o,o,l,o,o,l,l,l,l,l,o,o], 0, 2, setXNZVC, useXNZVC, .one .andsr, .w, .imm1, .none⟩,
  line 0 [o,o,o,o,o,o,l,o,z,z,d,d,d,D,D,D] setkNZ00 .and .z .imm (.dst dataModes),
  line 0 [o,o,o,o,o,l,o,o,z,z,d,d,d,D,D,D] setXNZVC .sub .z .imm (.dst dataModes),
  line 0 [o,o,o,o,o,l,l,o,z,z,d,d,d,D,D,D] setXNZVC .add .z .imm (.dst dataModes),
  ⟨[o,o,o,o,o,l,l,o,l,l,s,s,s,S,S,S], 2, 0, setkkkkk, useXNZVC, .one .callm, .none, .src controlModes, .none⟩,
  line 2 [o,o,o,o,o,l,l,o,l,l,s,s,s,S,S,S] setXNZVC .rtm .none (.src (.incl [.dreg, .areg])) .none,
  line 0 [o,o,o,o,l,o,o,o,o,o,s,s,s,S,S,S] setkkZkk .btst .none .imm1 (.src dataModes),
  line 0 [o,o,o,o,l,o,o,o,o,l,s,s,s,S,S,S] setkkZkk .bchg .none .imm1 (.src (.excl [.areg, .imm])),
  line 0 [o,o,o,o,l,o,o,o,l,o,s,s,s,S,S,S] setkkZkk .bclr .none .imm1 (.src (.excl [.areg, .imm])),
  line 0 [o,o,o,o,l,o,o,o,l,l,s,s,s,S,S,S] setkkZkk .bset .none .imm1 (.src (.excl [.areg, .imm])),
  ⟨[o,o,o,o,l,o,l,o,o,o,l,l,l,l,o,o], 0, 0, setXNZVC, useXNZVC, .one .eorsr, .b, .imm1, .none⟩,
  ⟨[o,o,o,o,l,o,l,o,o,l,l,l,l,l,o,o], 0, 2, setXNZVC, useXNZVC, .one .eorsr, .w, .imm1, .none⟩,
  line 0 [o,o,o,o,l,o,l,o,z,z,d,d,d,D,D,D] setkNZ00 .eor .z .imm (.dst dataModes),
  line 0 [o,o,o,o,l,l,o,o,z,z,s,s,s,S,S,S] setkNZVC .cmp .z .imm (.src (.excl [.areg, .imm])),
  line 2 [o,o,o,o,l,o,l,o,l,l,s,s,s,S,S,S] setkNZVC .cas .b .imm1 (.src (.excl [.dreg, .areg, .imm, .pc8r, .pc16])),
  line 2 [o,o,o,o,l,l,o,o,l,l,s,s,s,S,S,S] setkNZVC .cas .w .imm1 (.src (.excl [.dreg, .areg, .imm, .pc8r, .pc16])),
  line 2 [o,o,o,o,l,l,o,o,l,l,l,l,l,l,o,o] setkNZVC .cas2 .w .imm2 .none,
  ⟨[o,o,o,o,l,l,l,o,z,z,s,s,s,S,S,S], 2, 2, setkkkkk, usekkkkk,
    .one .moves, .z, .imm1, .src (.excl [.dreg, .areg, .imm, .pc8r, .pc16])⟩,
  line 2 [o,o,o,o,l,l,l,o,l,l,s,s,s,S,S,S] setkNZVC .cas .l .imm1 (.src (.excl [.dreg, .areg, .imm, .pc8r, .pc16])),
  line 2 [o,o,o,o,l,l,l,o,l,l,l,l,l,l,o,o] setkNZVC .cas2 .l .imm2 .none,
  line 0 [o,o,o,o,r,r,r,l,o,o,d,d,d,D,D,D] setkkkkk .mvpmr .w (.dst (.repl .areg .ad16)) (.dreg r),
  line 0 [o,o,o,o,r,r,r,l,o,l,d,d,d,D,D,D] setkkkkk .mvpmr .l (.dst (.repl .areg .ad16)) (.dreg r),
  line 0 [o,o,o,o,r,r,r,l,l,o,d,d,d,D,D,D] setkkkkk .mvprm .w (.dreg r) (.dst (.repl .areg .ad16)),
  line 0 [o,o,o,o,r,r,r,l,l,l,d,d,d,D,D,D] setkkkkk .mvprm .l (.dreg r) (.dst (.repl .areg .ad16)),
  line 0 [o,o,o,o,r,r,r,l,o,o,s,s,s,S,S,S] setkkZkk .btst .none (.dreg r) (.src dataModes),
  line 0 [o,o,o,o,r,r,r,l,o,l,s,s,s,S,S,S] setkkZkk .bchg .none (.dreg r) (.src (.excl [.areg, .imm])),
  line 0 [o,o,o,o,r,r,r,l,l,o,s,s,s,S,S,S] setkkZkk .bclr .none (.dreg r) (.src (.excl [.areg, .imm])),
  line 0 [o,o,o,o,r,r,r,l,l,l,s,s,s,S,S,S] setkkZkk .bset .none (.dreg r) (.src (.excl [.areg, .imm])),
  line 0 [o,o,o,l,D,D,D,d,d,d,s,s,s,S,S,S] setkNZ00 .move .b (.src .any) (.dst dataModes),
  line 0 [o,o,l,o,D,D,D,d,d,d,s,s,s,S,S,S] setkkkkk .movea .l (.src .any) (.dst (.incl [.areg])),
  line 0 [o,o,l,o,D,D,D,d,d,d,s,s,s,S,S,S] setkNZ00 .move .l (.src .any) (.dst dataModes),
  line 0 [o,o,l,l,D,D,D,d,d,d,s,s,s,S,S,S] setkkkkk .movea .w (.src .any) (.dst (.incl [.areg])),
  line 0 [o,o,l,l,D,D,D,d,d,d,s,s,s,S,S,S] setkNZ00 .move .w (.src .any) (.dst dataModes),
  ⟨[o,l,o,o,o,o,o,o,z,z,d,d,d,D,D,D], 0, 0, setXNZVC, useXkZkk, .one .negx, .z, .dst dataModes, .none⟩,
  ⟨[o,l,o,o,o,o,o,o,l,l,d,d,d,D,D,D], 0, 1, setkkkkk, useXNZVC, .one .mvsr2, .w, .dst dataModes, .none⟩,
  line 0 [o,l,o,o,o,o,l,o,z,z,d,d,d,D,D,D] setk0100 .clr .z (.dst dataModes) .none,
  ⟨[o,l,o,o,o,o,l,o,l,l,d,d,d,D,D,D], 1, 0, setkkkkk, useXNZVC, .one .mvsr2, .b, .dst dataModes, .none⟩,
  line 0 [o,l,o,o,o,l,o,o,z,z,d,d,d,D,D,D] setXNZVC .neg .z (.dst dataModes) .none,
  line 0 [o,l,o,o,o,l,o,o,l,l,s,s,s,S,S,S] setXNZVC .mv2sr .b (.src dataModes) .none,
  line 0 [o,l,o,o,o,l,l,o,z,z,d,d,d,D,D,D] setkNZ00 .not .z (.dst dataModes) .none,
  ⟨[o,l,o,o,o,l,l,o,l,l,s,s,s,S,S,S], 0, 2, setXNZVC, useXNZVC, .one .mv2sr, .w, .src dataModes, .none⟩,
  line 2 [o,l,o,o,l,o,o,o,o,o,o,o,l,r,r,r] setkkkkk .link .l (.areg r) .imm2,
  ⟨[o,l,o,o,l,o,o,o,o,o,d,d,d,D,D,D], 0, 0, setXuZuC, useXkZkk, .one .nbcd, .b, .dst dataModes, .none⟩,
  line 2 [o,l,o,o,l,o,o,o,o,l,o,o,l,k,k,k] setkkkkk .bkpt .none (.immi k) .none,
  line 0 [o,l,o,o,l,o,o,o,o,l,s,s,s,S,S,S] setkNZ00 .swap .w (.src (.incl [.dreg])) .none,
  line 0 [o,l,o,o,l,o,o,o,o,l,s,s,s,S,S,S] setkkkkk .pea .l (.src controlModes) .none,
  line 0 [o,l,o,o,l,o,o,o,l,o,d,d,d,D,D,D] setkNZ00 .ext .w (.dst (.incl [.dreg])) .none,
  line 0 [o,l,o,o,l,o,o,o,l,o,d,d,d,D,D,D] setkkkkk .mvmle .w .imm1 (.dst (.excl [.dreg, .areg, .aipi])),
  line 0 [o,l,o,o,l,o,o,o,l,l,d,d,d,D,D,D] setkNZ00 .ext .l (.dst (.incl [.dreg])) .none,
  line 0 [o,l,o,o,l,o,o,o,l,l,d,d,d,D,D,D] setkkkkk .mvmle .l .imm1 (.dst (.excl [.dreg, .areg, .aipi])),
  line 0 [o,l,o,o,l,o,o,l,l,l,d,d,d,D,D,D] setkNZ00 .ext .b (.dst (.incl [.dreg])) .none,
  line 0 [o,l,o,o,l,o,l,o,z,z,s,s,s,S,S,S] setkNZ00 .tst .z (.src .any) .none,
  line 0 [o,l,o,o,l,o,l,o,l,l,d,d,d,D,D,D] setkNZ00 .tas .b (.dst dataModes) .none,
  line 0 [o,l,o,o,l,o,l,o,l,l,l,l,l,l,o,o] setkkkkk .illg .none .none .none,
  line 2 [o,l,o,o,l,l,o,o,o,o,s,s,s,S,S,S] setkNZVC .mull .l .imm1 (.src dataModes),
  line 2 [o,l,o,o,l,l,o,o,o,l,s,s,s,S,S,S] setkNZV0 .divl .l .imm1 (.src dataModes),
  line 0 [o,l,o,o,l,l,o,o,l,o,s,s,s,S,S,S] setkkkkk .mvmel .w .imm1 (.src (.excl [.dreg, .areg, .apdi, .imm])),
  line 0 [o,l,o,o,l,l,o,o,l,l,s,s,s,S,S,S] setkkkkk .mvmel .l .imm1 (.src (.excl [.dreg, .areg, .apdi, .imm])),
  ⟨[o,l,o,o,l,l,l,o,o,l,o,o,J,J,J,J], 0, 0, setkkkkk, useXNZVC, .one .trap, .none, .immi J, .none⟩,
  line 0 [o,l,o,o,l,l,l,o,o,l,o,l,o,r,r,r] setkkkkk .link .w (.areg r) .imm1,
  line 0 [o,l,o,o,l,l,l,o,o,l,o,l,l,r,r,r] setkkkkk .unlk .l (.areg r) .none,
  ⟨[o,l,o,o,l,l,l,o,o,l,l,o,o,r,r,r], 0, 2, setkkkkk, usekkkkk, .one .mvr2usp, .l, .areg r, .none⟩,
  ⟨[o,l,o,o,l,l,l,o,o,l,l,o,l,r,r,r], 0, 2, setkkkkk, usekkkkk, .one .mvusp2r, .l, .areg r, .none⟩,
  ⟨[o,l,o,o,l,l,l,o,o,l,l,l,o,o,o,o], 0, 2, setkkkkk, usekkkkk, .one .reset, .none, .none, .none⟩,
  line 0 [o,l,o,o,l,l,l,o,o,l,l,l,o,o,o,l] setkkkkk .nop .none .none .none,
  ⟨[o,l,o,o,l,l,l,o,o,l,l,l,o,o,l,o], 0, 2, setXNZVC, usekkkkk, .one .stop, .none, .imm1, .none⟩,
  ⟨[o,l,o,o,l,l,l,o,o,l,l,l,o,o,l,l], 0, 2, setXNZVC, usekkkkk, .one .rte, .none, .none, .none⟩,
  line 0 [o,l,o,o,l,l,l,o,o,l,l,l,o,l,o,o] setkkkkk .rtd .none .imm1 .none,
  line 0 [o,l,o,o,l,l,l,o,o,l,l,l,o,l,o,l] setkkkkk .rts .none .none .none,
  ⟨[o,l,o,o,l,l,l,o,o,l,l,l,o,l,l,o], 0, 0, setkkkkk, useXNZVC, .one .trapv, .none, .none, .none⟩,
  line 0 [o,l,o,o,l,l,l,o,o,l,l,l,o,l,l,l] setXNZVC .rtr .none .none .none,
  ⟨[o,l,o,o,l,l,l,o,o,l,l,l,l,o,l,o], 1, 2, setkkkkk, usekkkkk, .one .movec2, .none, .imm1, .none⟩,
  ⟨[o,l,o,o,l,l,l,o,o,l,l,l,l,o,l,l], 1, 2, setkkkkk, usekkkkk, .one .move2c, .none, .imm1, .none⟩,
  ⟨[o,l,o,o,l,l,l,o,l,o,s,s,s,S,S,S], 0, 0, setjjjjj, usejjjjj, .one .jsr, .l, .src controlModes, .none⟩,
  line 0 [o,l,o,o,r,r,r,l,o,o,s,s,s,S,S,S] setkNuuu .chk .l (.src dataModes) (.dreg r),
  line 0 [o,l,o,o,r,r,r,l,l,o,s,s,s,S,S,S] setkNuuu .chk .w (.src dataModes) (.dreg r),
  ⟨[o,l,o,o,l,l,l,o,l,l,s,s,s,S,S,S], 0, 0, setjjjjj, usejjjjj, .one .jmp, .l, .src controlModes, .none⟩,
  line 0 [o,l,o,o,r,r,r,l,l,l,s,s,s,S,S,S] setkkkkk .lea .l (.src controlModes) (.areg r),
  line 0 [o,l,o,l,j,j,j,o,o,l,d,d,d,D,D,D] setkkkkk .adda .w (.immi j) (.dst (.incl [.areg])),
  line 0 [o,l,o,l,j,j,j,o,l,o,d,d,d,D,D,D] setkkkkk .adda .l (.immi j) (.dst (.incl [.areg])),
  line 0 [o,l,o,l,j,j,j,o,z,z,d,d,d,D,D,D] setXNZVC .add .z (.immi j) (.dst dataModes),
  line 0 [o,l,o,l,j,j,j,l,o,l,d,d,d,D,D,D] setkkkkk .suba .w (.immi j) (.dst (.incl [.areg])),
  line 0 [o,l,o,l,j,j,j,l,l,o,d,d,d,D,D,D] setkkkkk .suba .l (.immi j) (.dst (.incl [.areg])),
  line 0 [o,l,o,l,j,j,j,l,z,z,d,d,d,D,D,D] setXNZVC .sub .z (.immi j) (.dst dataModes),
  ⟨[o,l,o,l,c,c,c,c,l,l,o,o,l,r,r,r], 0, 0, setkkkkk, usekbbbb, .one .dbcc, .w, .dreg r, .imm1⟩,
  ⟨[o,l,o,l,c,c,c,c,l,l,d,d,d,D,D,D], 0, 0, setkkkkk, usekbbbb, .one .scc, .b, .dst dataModes, .none⟩,
  ⟨[o,l,o,l,c,c,c,c,l,l,l,l,l,o,l,o], 2, 0, setkkkkk, usekuuuu, .one .trapcc, .none, .imm1, .none⟩,
  ⟨[o,l,o,l,c,c,c,c,l,l,l,l,l,o,l,l], 2, 0, setkkkkk, usekuuuu, .one .trapcc, .none, .imm2, .none⟩,
  ⟨[o,l,o,l,c,c,c,c,l,l,l,l,l,l,o,o], 2, 0, setkkkkk, usekuuuu, .one .trapcc, .none, .none, .none⟩,
  ⟨[o,l,l,o,o,o,o,l,o,o,o,o,o,o,o,o], 0, 0, setjjjjj, usejjjjj, .one .bsr, .w, .imm1, .none⟩,
  ⟨[o,l,l,o,o,o,o,l,I,I,I,I,I,I,I,I], 0, 0, setjjjjj, usejjjjj, .one .bsr, .b, .immi i, .none⟩,
  ⟨[o,l,l,o,o,o,o,l,l,l,l,l,l,l,l,l], 0, 0, setjjjjj, usejjjjj, .one .bsr, .l, .imm2, .none⟩,
  ⟨[o,l,l,o,C,C,C,C,o,o,o,o,o,o,o,o], 0, 0, setkkkkk, usekbbbb, .one .bcc, .w, .imm1, .none⟩,
  ⟨[o,l,l,o,C,C,C,C,I,I,I,I,I,I,I,I], 0, 0, setkkkkk, usekbbbb, .one .bcc, .b, .immi i, .none⟩,
  ⟨[o,l,l,o,C,C,C,C,l,l,l,l,l,l,l,l], 0, 0, setkkkkk, usekbbbb, .one .bcc, .l, .imm2, .none⟩,
  line 0 [o,l,l,l,r,r,r,o,i,i,i,i,i,i,i,i] setkNZ00 .move .l (.immi i) (.dreg r),
  line 0 [l,o,o,o,r,r,r,o,z,z,s,s,s,S,S,S] setkNZ00 .or .z (.src dataModes) (.dreg r),
  line 0 [l,o,o,o,r,r,r,o,l,l,s,s,s,S,S,S] setkNZV0 .divu .w (.src dataModes) (.dreg r),
  ⟨[l,o,o,o,r,r,r,l,o,o,d,d,d,D,D,D], 0, 0, setXuZuC, useXkZkk, .one .sbcd, .b, .dst (.incl [.dreg]), .dreg r⟩,
  ⟨[l,o,o,o,r,r,r,l,o,o,d,d,d,D,D,D], 0, 0, setXuZuC, useXkZkk, .one .sbcd, .b, .dst (.repl .areg .apdi), .apdi r⟩,
  line 0 [l,o,o,o,r,r,r,l,z,z,d,d,d,D,D,D] setkNZ00 .or .z (.dreg r) (.dst (.excl [.areg, .dreg])),
  line 2 [l,o,o,o,r,r,r,l,o,l,d,d,d,D,D,D] setkkkkk .pack .none (.dst (.incl [.dreg])) (.dreg r),
  line 2 [l,o,o,o,r,r,r,l,o,l,d,d,d,D,D,D] setkkkkk .pack .none (.dst (.repl .areg .apdi)) (.apdi r),
  line 2 [l,o,o,o,r,r,r,l,l,o,d,d,d,D,D,D] setkkkkk .unpk .none (.dst (.incl [.dreg])) (.dreg r),
  line 2 [l,o,o,o,r,r,r,l,l,o,d,d,d,D,D,D] setkkkkk .unpk .none (.dst (.repl .areg .apdi)) (.apdi r),
  line 0 [l,o,o,o,r,r,r,l,l,l,s,s,s,S,S,S] setkNZV0 .divs .w (.src dataModes) (.dreg r),
  line 0 [l,o,o,l,r,r,r,o,z,z,s,s,s,S,S,S] setXNZVC .sub .z (.src .any) (.dreg r),
  line 0 [l,o,o,l,r,r,r,o,l,l,s,s,s,S,S,S] setkkkkk .suba .w (.src .any) (.areg r),
  ⟨[l,o,o,l,r,r,r,l,z,z,d,d,d,D,D,D], 0, 0, setXNZVC, useXkZkk, .one .subx, .z, .dst (.incl [.dreg]), .dreg r⟩,
  ⟨[l,o,o,l,r,r,r,l,z,z,d,d,d,D,D,D], 0, 0, setXNZVC, useXkZkk, .one .subx, .z, .dst (.repl .areg .apdi), .apdi r⟩,
  line 0 [l,o,o,l,r,r,r,l,z,z,d,d,d,D,D,D] setXNZVC .sub .z (.dreg r) (.dst (.excl [.areg, .dreg])),
  line 0 [l,o,o,l,r,r,r,l,l,l,s,s,s,S,S,S] setkkkkk .suba .l (.src .any) (.areg r),
  line 0 [l,o,l,l,r,r,r,o,z,z,s,s,s,S,S,S] setkNZVC .cmp .z (.src .any) (.dreg r),
  line 0 [l,o,l,l,r,r,r,o,l,l,s,s,s,S,S,S] setkNZVC .cmpa .w (.src .any) (.areg r),
  line 0 [l,o,l,l,r,r,r,l,l,l,s,s,s,S,S,S] setkNZVC .cmpa .l (.src .any) (.areg r),
  line 0 [l,o,l,l,r,r,r,l,z,z,d,d,d,D,D,D] setkNZVC .cmpm .z (.dst (.repl .areg .aipi)) (.aipi r),
  line 0 [l,o,l,l,r,r,r,l,z,z,d,d,d,D,D,D] setkNZ00 .eor .z (.dreg r) (.dst dataModes),
  line 0 [l,l,o,o,r,r,r,o,z,z,s,s,s,S,S,S] setkNZ00 .and .z (.src dataModes) (.dreg r),
  line 0 [l,l,o,o,r,r,r,o,l,l,s,s,s,S,S,S] setkNZ00 .mulu .w (.src dataModes) (.dreg r),
  ⟨[l,l,o,o,r,r,r,l,o,o,d,d,d,D,D,D], 0, 0, setXuZuC, useXkZkk, .one .abcd, .b, .dst (.incl [.dreg]), .dreg r⟩,
  ⟨[l,l,o,o,r,r,r,l,o,o,d,d,d,D,D,D], 0, 0, setXuZuC, useXkZkk, .one .abcd, .b, .dst (.repl .areg .apdi), .apdi r⟩,
  line 0 [l,l,o,o,r,r,r,l,z,z,d,d,d,D,D,D] setkNZ00 .and .z (.dreg r) (.dst (.excl [.areg, .dreg])),
  line 0 [l,l,o,o,r,r,r,l,o,l,d,d,d,D,D,D] setkkkkk .exg .l (.dreg r) (.dst (.incl [.dreg])),
  line 0 [l,l,o,o,r,r,r,l,o,l,d,d,d,D,D,D] setkkkkk .exg .l (.areg r) (.dst (.incl [.areg])),
  line 0 [l,l,o,o,r,r,r,l,l,o,d,d,d,D,D,D] setkkkkk .exg .l (.dreg r) (.dst (.incl [.areg])),
  line 0 [l,l,o,o,r,r,r,l,l,l,s,s,s,S,S,S] setkNZ00 .muls .w (.src dataModes) (.dreg r),
  line 0 [l,l,o,l,r,r,r,o,z,z,s,s,s,S,S,S] setXNZVC .add .z (.src .any) (.dreg r),
  line 0 [l,l,o,l,r,r,r,o,l,l,s,s,s,S,S,S] setkkkkk .adda .w (.src .any) (.areg r),
  ⟨[l,l,o,l,r,r,r,l,z,z,d,d,d,D,D,D], 0, 0, setXNZVC, useXkZkk, .one .addx, .z, .dst (.incl [.dreg]), .dreg r⟩,
  ⟨[l,l,o,l,r,r,r,l,z,z,d,d,d,D,D,D], 0, 0, setXNZVC, useXkZkk, .one .addx, .z, .dst (.repl .areg .apdi), .apdi r⟩,
  line 0 [l,l,o,l,r,r,r,l,z,z,d,d,d,D,D,D] setXNZVC .add .z (.dreg r) (.dst (.excl [.areg, .dreg])),
  line 0 [l,l,o,l,r,r,r,l,l,l,s,s,s,S,S,S] setkkkkk .adda .l (.src .any) (.areg r),
  ⟨[l,l,l,o,j,j,j,f,z,z,o,o,o,R,R,R], 0, 0, setXNZVC, usekkkkk, .dir .asr .asl, .z, .immi j, .dreg R⟩,
  ⟨[l,l,l,o,j,j,j,f,z,z,o,o,l,R,R,R], 0, 0, setXNZ0C, usekkkkk, .dir .lsr .lsl, .z, .immi j, .dreg R⟩,
  ⟨[l,l,l,o,j,j,j,f,z,z,o,l,o,R,R,R], 0, 0, setXNZ0C, useXkkkk, .dir .roxr .roxl, .z, .immi j, .dreg R⟩,
  ⟨[l,l,l,o,j,j,j,f,z,z,o,l,l,R,R,R], 0, 0, setkNZ0C, usekkkkk, .dir .ror .rol, .z, .immi j, .dreg R⟩,
  ⟨[l,l,l,o,r,r,r,f,z,z,l,o,o,R,R,R], 0, 0, setXNZVC, useXkkkk, .dir .asr .asl, .z, .dreg r, .dreg R⟩,
  ⟨[l,l,l,o,r,r,r,f,z,z,l,o,l,R,R,R], 0, 0, setXNZ0C, useXkkkk, .dir .lsr .lsl, .z, .dreg r, .dreg R⟩,
  ⟨[l,l,l,o,r,r,r,f,z,z,l,l,o,R,R,R], 0, 0, setXNZ0C, useXkkkk, .dir .roxr .roxl, .z, .dreg r, .dreg R⟩,
  ⟨[l,l,l,o,r,r,r,f,z,z,l,l,l,R,R,R], 0, 0, setkNZ0C, usekkkkk, .dir .ror .rol, .z, .dreg r, .dreg R⟩,
  ⟨[l,l,l,o,o,o,o,f,l,l,d,d,d,D,D,D], 0, 0, setXNZVC, usekkkkk, .dir .asrw .aslw, .w, .dst (.excl [.dreg, .areg]), .none⟩,
  ⟨[l,l,l,o,o,o,l,f,l,l,d,d,d,D,D,D], 0, 0, setXNZ0C, usekkkkk, .dir .lsrw .lslw, .w, .dst (.excl [.dreg, .areg]), .none⟩,
  ⟨[l,l,l,o,o,l,o,f,l,l,d,d,d,D,D,D], 0, 0, setXNZ0C, useXkkkk, .dir .roxrw .roxlw, .w, .dst (.excl [.dreg, .areg]), .none⟩,
  ⟨[l,l,l,o,o,l,l,f,l,l,d,d,d,D,D,D], 0, 0, setkNZ0C, usekkkkk, .dir .rorw .rolw, .w, .dst (.excl [.dreg, .areg]), .none⟩,
  line 2 [l,l,l,o,l,o,o,o,l,l,s,s,s,S,S,S] setkNZ00 .bftst .none .imm1 (.src (.excl [.areg, .apdi, .aipi, .imm])),
  line 2 [l,l,l,o,l,o,o,l,l,l,s,s,s,S,S,S] setkNZ00 .bfextu .none .imm1 (.src (.excl [.areg, .apdi, .aipi, .imm])),
  line 2 [l,l,l,o,l,o,l,o,l,l,s,s,s,S,S,S] setkNZ00 .bfchg .none .imm1 (.src
    (.excl [.areg, .apdi, .aipi, .imm, .pc8r, .pc16])),
  line 2 [l,l,l,o,l,o,l,l,l,l,s,s,s,S,S,S] setkNZ00 .bfexts .none .imm1 (.src (.excl [.areg, .apdi, .aipi, .imm])),
  line 2 [l,l,l,o,l,l,o,o,l,l,s,s,s,S,S,S] setkNZ00 .bfclr .none .imm1 (.src
    (.excl [.areg, .apdi, .aipi, .imm, .pc8r, .pc16])),
  line 2 [l,l,l,o,l,l,o,l,l,l,s,s,s,S,S,S] setkNZ00 .bfffo .none .imm1 (.src (.excl [.areg, .apdi, .aipi, .imm])),
  line 2 [l,l,l,o,l,l,l,o,l,l,s,s,s,S,S,S] setkNZ00 .bfset .none .imm1 (.src
    (.excl [.areg, .apdi, .aipi, .imm, .pc8r, .pc16])),
  line 2 [l,l,l,o,l,l,l,l,l,l,s,s,s,S,S,S] setkNZ00 .bfins .none .imm1 (.src
    (.excl [.areg, .apdi, .aipi, .imm, .pc8r, .pc16])),
  line 3 [l,l,l,l,o,o,l,o,o,o,s,s,s,S,S,S] setkkkkk .fpp .none .imm1 (.src .any),
  line 3 [l,l,l,l,o,o,l,o,o,l,s,s,s,S,S,S] setkkkkk .fdbcc .none .imm1 (.src (.repl .areg .dreg)),
  line 3 [l,l,l,l,o,o,l,o,o,l,s,s,s,S,S,S] setkkkkk .fscc .none .imm1 (.src (.excl [.areg, .imm, .pc8r, .pc16])),
  line 3 [l,l,l,l,o,o,l,o,o,l,l,l,l,o,l,o] setkkkkk .ftrapcc .none .imm1 .none,
  line 3 [l,l,l,l,o,o,l,o,o,l,l,l,l,o,l,l] setkkkkk .ftrapcc .none .imm2 .none,
  line 3 [l,l,l,l,o,o,l,o,o,l,l,l,l,l,o,o] setkkkkk .ftrapcc .none .none .none,
  line 3 [l,l,l,l,o,o,l,o,l,o,K,K,K,K,K,K] setkkkkk .fbcc .none (.immi K) .imm1,
  line 3 [l,l,l,l,o,o,l,o,l,l,K,K,K,K,K,K] setkkkkk .fbcc .none (.immi K) .imm2,
  ⟨[l,l,l,l,o,o,l,l,o,o,s,s,s,S,S,S], 3, 2, setkkkkk, usekkkkk,
    .one .fsave, .none, .src (.excl [.dreg, .areg, .aipi, .imm, .pc8r, .pc16]), .none⟩,
  ⟨[l,l,l,l,o,o,l,l,o,l,s,s,s,S,S,S], 3, 2, setkkkkk, usekkkkk,
    .one .frestore, .none, .src (.excl [.dreg, .areg, .apdi, .imm]), .none⟩,
  ⟨[l,l,l,l,o,l,o,o,p,p,o,o,l,r,r,r], 4, 2, setkkkkk, usekkkkk, .one .cinvl, .none, .immi p, .areg r⟩,
  ⟨[l,l,l,l,o,l,o,o,p,p,o,l,o,r,r,r], 4, 2, setkkkkk, usekkkkk, .one .cinvp, .none, .immi p, .areg r⟩,
  ⟨[l,l,l,l,o,l,o,o,p,p,o,l,l,r,r,r], 4, 2, setkkkkk, usekkkkk, .one .cinva, .none, .immi p, .none⟩,
  ⟨[l,l,l,l,o,l,o,o,p,p,l,o,l,r,r,r], 4, 2, setkkkkk, usekkkkk, .one .cpushl, .none, .immi p, .areg r⟩,
  ⟨[l,l,l,l,o,l,o,o,p,p,l,l,o,r,r,r], 4, 2, setkkkkk, usekkkkk, .one .cpushp, .none, .immi p, .areg r⟩,
  ⟨[l,l,l,l,o,l,o,o,p,p,l,l,l,r,r,r], 4, 2, setkkkkk, usekkkkk, .one .cpusha, .none, .immi p, .none⟩,
  line 4 [l,l,l,l,o,l,l,o,o,o,l,o,o,r,r,r] setkkkkk .move16 .none (.aipi r) .axP,
  line 4 [l,l,l,l,o,l,l,o,o,o,s,s,s,S,S,S] setkkkkk .move16 .none (.src (.repl .dreg .aipi)) .al,
  line 4 [l,l,l,l,o,l,l,o,o,o,d,d,d,D,D,D] setkkkkk .move16 .none .al (.dst (.repl .areg .aipi)),
  line 4 [l,l,l,l,o,l,l,o,o,o,s,s,s,S,S,S] setkkkkk .move16 .none (.src (.incl [.aind])) .al,
  line 4 [l,l,l,l,o,l,l,o,o,o,d,d,d,D,D,D] setkkkkk .move16 .none .al (.dst (.repl .aipi .aind)),
  ⟨[l,l,l,l,o,l,o,l,i,i,i,i,i,S,S,S], 4, 2, setuuuuu, useuuuuu, .one .mmuop, .none, .immi i, .src .any⟩,
  ⟨[o,l,l,l,o,o,o,l,o,o,o,o,o,o,o,o], 0, 2, setkkkkk, useXNZVC, .one .emulopReturn, .none, .none, .none⟩,
  ⟨[o,l,l,l,o,o,o,l,E,E,E,E,E,E,E,E], 0, 0, setkkkkk, useXNZVC, .one .emulop, .none, .immi E, .none⟩,
  ⟨[o,l,l,l,o,o,l,l,o,o,o,o,o,o,o,o], 0, 0, setkkkkk, useXNZVC, .one .natfeatId, .none, .none, .none⟩,
  ⟨[o,l,l,l,o,o,l,l,o,o,o,o,o,o,o,l], 0, 0, setkkkkk, useXNZVC, .one .natfeatCall, .none, .none, .none⟩]

/-- The entry of an opcode; a later line of the table overrides an earlier one. -/
def table68k (opc : BitVec 16) : Option Instr := (defs68k.filterMap (buildInsn · opc)).getLast?

end Aranym.Cpu
