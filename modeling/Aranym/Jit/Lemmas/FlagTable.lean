import Aranym.Cpu.Lemmas.Table
import Aranym.Jit.Lemmas.FlagEffect
import Aranym.Jit.Masks

/-!
# The masks of the table and the effect of the handlers
-/

namespace Aranym.Jit

open Aranym.Lib Aranym.Cpu Aranym.Mmu

variable {α β : Type} {ext : Ext} {fuel : Nat} {opcode : BitVec 16} {i : Cpu.Instr}

/-! ## The effect of a mnemonic -/

/-- The flags that an instruction sets and those of them that it uses. The shifts by an immediate
count, `imm`, never keep `X`; `RTM` has no handler of its own and never completes. -/
def flagEffect (mnemo : Mnemo) (imm : Bool) : BitVec 8 × BitVec 8 :=
  match mnemo with
  | .orsr | .andsr | .eorsr | .mmuop => (0x1f, 0x1f)
  | .sub | .add | .neg | .mv2sr | .stop | .rte | .rtr => (0x1f, 0)
  | .asrw | .aslw | .lsrw | .lslw | .rtm => (0x1f, 0)
  | .asr | .asl | .lsr | .lsl => (0x1f, if imm then 0 else 0x10)
  | .roxl | .roxr | .roxlw | .roxrw => (0x1f, 0x10)
  | .subx | .addx | .negx => (0x1f, 0x14)
  | .sbcd | .abcd | .nbcd => (0x15, 0x14)
  | .or | .and | .eor | .clr | .not | .tst | .cmp | .cmpm | .cmpa | .move | .swap | .ext => (0x0f, 0)
  | .mulu | .muls | .mull | .rol | .ror | .rolw | .rorw | .cas | .cas2 | .tas => (0x0f, 0)
  | .bftst | .bfextu | .bfchg | .bfexts | .bfclr | .bfffo | .bfset | .bfins => (0x0f, 0)
  | .btst | .bchg | .bclr | .bset => (0x04, 0)
  | .chk2 => (0x05, 0)
  | _ => (0, 0)

theorem genShift_spec {op} (himm : ∀ cnt data g g', op i.size true cnt data g = op i.size true cnt data g')
    (hx : ∀ imm cnt data (g g' : Flags), g.x = g'.x → op i.size imm cnt data g = op i.size imm cnt data g') :
    FlagSpec 0x1f (if i.sourceIsImm18 then 0 else 0x10) (genShift i op) := by
  unfold genShift
  cases i.sourceIsImm18 with
  | true => exact srcDstStore_spec fun _ _ => opSpec_of_forget (himm _ _)
  | false => exact srcDstStore_spec fun _ _ => opSpec_shift (hx _ _ _)

theorem genRotate_spec {op} (hx : ∀ imm cnt data (g g' : Flags), g.x = g'.x →
      op i.size imm cnt data g = op i.size imm cnt data g')
    (hkeep : ∀ imm cnt data g, (op i.size imm cnt data g).1.x = g.x) : FlagSpec 0x0f 0 (genShift i op) :=
  srcDstStore_spec fun _ _ => opSpec_rotate (hx _ _ _) (hkeep _ _ _)

theorem opIllg_spec {dead live} : FlagSpec dead live (opIllg ext opcode) where
  kills := by
    intro f _ _ s t a hrun
    obtain ⟨e, u, h⟩ := opIllg_throws ext opcode s
    rw [h] at hrun; cases hrun
  keeps := .of_keepsFlags opIllg_keepsFlags

theorem genBody_spec (hext : ext.KeepsFlags) (hm : i.mnemo ∉ [.divu, .divs, .divl, .emulop]) :
    FlagSpec (flagEffect i.mnemo i.sourceIsImm18).1 (flagEffect i.mnemo i.sourceIsImm18).2
      (genBody ext fuel opcode i) := by
  unfold genBody
  cases h : i.mnemo with
  | divu | divs | divl | emulop => rw [h] at hm; exact absurd (by decide) hm
  | orsr | andsr | eorsr | mmuop => exact .all _
  | or | and | eor | mulu | muls => exact srcDstStore_spec fun _ _ => opSpec_logical ..
  | sub | add => exact srcDstStore_spec fun _ _ => opSpec_const _
  | suba | adda => exact .of_keepsFlags (srcDstStore_keepsFlags fun _ _ _ => rfl)
  | bchg | bclr | bset => exact srcDstStore_spec fun _ _ => opSpec_z ..
  | btst => exact srcDstTest_spec fun _ _ => opSpec_z ..
  | cmp | cmpm | cmpa => exact srcDstTest_spec fun _ _ => opSpec_cmp ..
  | subx => exact srcDstFixup_spec fun _ _ => opSpec_subx ..
  | addx => exact srcDstFixup_spec fun _ _ => opSpec_addx ..
  | sbcd => exact srcDstFixup_spec fun _ _ => opSpec_sbcd ..
  | abcd => exact srcDstFixup_spec fun _ _ => opSpec_abcd ..
  | move => exact srcDstFixup_spec fun _ _ => opSpec_logical ..
  | neg => exact srcStore_spec fun _ => opSpec_const _
  | negx => exact srcStore_spec fun _ => opSpec_subx ..
  | nbcd => exact srcStore_spec fun _ => opSpec_nbcd _
  | clr | not | swap | ext | tas => exact srcStore_spec fun _ => opSpec_logical ..
  | tst => exact genTst_spec
  | asr | asl | lsr | lsl =>
    refine genShift_spec (fun _ _ _ _ => rfl) fun _ _ _ _ _ hx => ?_
    simp only [opAsr, opAsl, opLsr, opLsl, hx]
  | roxl | roxr =>
    refine srcDstStore_spec fun _ _ => opSpec_shift fun _ _ hx => ?_
    simp only [opRoxl, opRoxr, xBit, hx]
  | rol => exact genRotate_spec (fun _ _ _ _ _ hx => by simp only [opRol, hx]) rol_x
  | ror => exact genRotate_spec (fun _ _ _ _ _ hx => by simp only [opRor, hx]) ror_x
  | asrw | aslw | lsrw | lslw => exact srcStore_spec fun _ => opSpec_of_forget fun _ _ => rfl
  | roxlw | roxrw =>
    refine srcStore_spec fun _ => opSpec_shift fun _ _ hx => ?_
    simp only [opRoxlw, opRoxrw, hx]
  | rolw | rorw =>
    refine srcStore_spec fun _ => opSpec_rotate (fun _ _ hx => ?_) fun _ => rfl
    simp only [opRolw, opRorw, hx]
  | cas => exact genCas_spec
  | cas2 => exact genCas2_spec
  | mull => exact genMull_spec
  | bftst | bfextu | bfchg | bfexts | bfclr | bfffo | bfset | bfins => exact genBitfield_spec
  | chk => exact .of_keepsFlags genChk_keepsFlags
  | chk2 => exact genChk2_spec
  | mv2sr => exact genMv2sr_spec
  | stop => exact genStop_spec
  | rte => exact genRte_spec fuel
  | rtr => exact genRtr_spec
  | illg => exact .of_keepsFlags opIllg_keepsFlags
  | bkpt | callm => exact .of_keepsFlags (.bind syncPc_noStatus.keepsFlags fun _ => opIllg_keepsFlags)
  | rtm => exact .noStatus_bind syncPc_noStatus fun _ => opIllg_spec
  | movea => exact .of_keepsFlags genMovea_keepsFlags
  | mvprm => exact .of_keepsFlags genMvprm_noStatus.keepsFlags
  | mvpmr => exact .of_keepsFlags genMvpmr_noStatus.keepsFlags
  | mvsr2 => exact .of_keepsFlags genMvsr2_keepsFlags
  | exg => exact .of_keepsFlags genExg_noStatus.keepsFlags
  | mvmel => exact .of_keepsFlags genmovemel_noStatus.keepsFlags
  | mvmle => exact .of_keepsFlags genmovemle_noStatus.keepsFlags
  | trap => exact .of_keepsFlags genTrap_noStatus.keepsFlags
  | mvr2usp => exact .of_keepsFlags genMvr2usp_noStatus.keepsFlags
  | mvusp2r => exact .of_keepsFlags genMvusp2r_noStatus.keepsFlags
  | reset => exact .of_keepsFlags hext.atariReset
  | nop | cinvl | cinvp | cinva | cpushl | cpushp | cpusha => exact .of_keepsFlags (.pure _)
  | rtd => exact .of_keepsFlags genRtd_noStatus.keepsFlags
  | link => exact .of_keepsFlags genLink_noStatus.keepsFlags
  | unlk => exact .of_keepsFlags genUnlk_noStatus.keepsFlags
  | rts => exact .of_keepsFlags genRts_noStatus.keepsFlags
  | trapv => exact .of_keepsFlags genTrapv_keepsFlags
  | jsr => exact .of_keepsFlags genJsr_noStatus.keepsFlags
  | jmp => exact .of_keepsFlags genJmp_noStatus.keepsFlags
  | bsr => exact .of_keepsFlags genBsr_noStatus.keepsFlags
  | bcc => exact .of_keepsFlags genBcc_keepsFlags
  | lea => exact .of_keepsFlags genLea_noStatus.keepsFlags
  | pea => exact .of_keepsFlags genPea_noStatus.keepsFlags
  | dbcc => exact .of_keepsFlags genDbcc_keepsFlags
  | scc => exact .of_keepsFlags genScc_keepsFlags
  | movec2 => exact .of_keepsFlags genMovec2_keepsFlags
  | move2c => exact .of_keepsFlags genMove2c_keepsFlags
  | pack => exact .of_keepsFlags genPack_noStatus.keepsFlags
  | unpk => exact .of_keepsFlags genUnpk_noStatus.keepsFlags
  | trapcc => exact .of_keepsFlags genTrapcc_keepsFlags
  | moves => exact .of_keepsFlags genMoves_noStatus.keepsFlags
  | fpp | fdbcc | fscc => exact .of_keepsFlags (genFpuExtra_keepsFlags hext)
  | ftrapcc => exact .of_keepsFlags (genFtrapcc_keepsFlags hext)
  | fbcc => exact .of_keepsFlags (genFbcc_keepsFlags hext)
  | fsave | frestore => exact .of_keepsFlags (genFsave_keepsFlags hext)
  | move16 => exact .of_keepsFlags genMove16_noStatus.keepsFlags
  | emulopReturn => exact .of_keepsFlags (.modify fun _ => rfl)
  | natfeatId | natfeatCall => exact .of_keepsFlags (genNatfeat_keepsFlags _)

/-! ## The masks of the lines -/

def misdescribed : List Mnemo := [.chk, .chk2, .sbcd, .abcd, .nbcd, .divu, .divs, .divl, .emulop]

theorem lines_flagEffect : ∀ d ∈ defs68k, ∀ m ∈ d.mnemo.mnemos, m ∉ misdescribed →
    d.flagsSet = (flagEffect m (d.src.stype == 3)).1
      ∧ (flagEffect m (d.src.stype == 3)).2 &&& ~~~d.flagsUsed m 0 = 0 := by decide +kernel

theorem flagEffect_flagsUsed (d : InstrDef) (m : Mnemo) (imm : Bool) (cc : Nat)
    (h : (flagEffect m imm).2 &&& ~~~d.flagsUsed m 0 = 0) :
    (flagEffect m imm).2 &&& ~~~d.flagsUsed m cc = 0 := by
  by_cases hcc : m = .scc ∨ m = .bcc ∨ m = .dbcc ∨ m = .trapcc
  · rcases hcc with rfl | rfl | rfl | rfl <;> exact BitVec.zero_and
  · simpa only [InstrDef.flagsUsed, if_neg hcc] using h

theorem table68k_flagEffect {opc} (h : table68k opc = some i) (hm : i.mnemo ∉ misdescribed) :
    i.flagdead = (flagEffect i.mnemo i.sourceIsImm18).1
      ∧ (flagEffect i.mnemo i.sourceIsImm18).2 &&& ~~~i.flaglive = 0 := by
  obtain ⟨d, hd, hl⟩ := table68k_fromLine h
  obtain ⟨hset, huse⟩ := lines_flagEffect d hd i.mnemo hl.mnemo hm
  rw [Instr.sourceIsImm18, hl.stype, hl.flagdead, hl.flaglive]
  exact ⟨hset, flagEffect_flagsUsed d _ _ _ huse⟩

theorem lines_misdescribed : ∀ d ∈ defs68k, ∀ m ∈ d.mnemo.mnemos,
    (m ∈ [.chk, .chk2, .sbcd, .abcd, .nbcd] → .n ∈ flagSet d.flagsSet ∧ .n ∉ flagSet (d.flagsUsed m 0))
      ∧ (m ∈ [.divu, .divs, .divl] → d.flagsSet = 0x0f ∧ d.flagsUsed m 0 = 0)
      ∧ (m = .emulop → d.flagsSet = 0) := by decide +kernel

end Aranym.Jit
